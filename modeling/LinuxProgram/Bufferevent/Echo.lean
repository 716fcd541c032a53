/-
The echo server of `01_bufferevent_server.c`: what `read_cb` writes back of the bytes it finds. Each call reads
at most the size of its buffer and writes the whole buffer, whatever the number of bytes that
`bufferevent_read` returned; bytes that do not fit wait for the next call.

A connection is the sequence of batches in which its bytes reach the input buffer; a call of `read_cb`
follows each. Which chunks the client sent the bytes in does not show. The output buffer is taken as a record
of everything written; the output lines are left out. `bufferevent_read` is libevent's and a parameter:
`MovesBytes` is what libevent documents of it, and `evbufferRemove` is one function that does so.
-/
import Mathlib.Data.List.Basic
import Mathlib.Data.List.Induction
import Mathlib.Tactic

namespace LinuxProgram.Bufferevent

/-! ## The code -/

/-- A `struct bufferevent`: its input buffer, and what has been written to its output buffer. -/
structure Bev where
  input : List UInt8
  written : List UInt8

/-- `MESSAGE`, with its terminating NUL -/
def message : List UInt8 := "Hello, World!\n".toUTF8.toList ++ [0]

/-- `sizeof(buf)` in `read_cb` -/
def bufSize : Nat := 1500

/-- `char buf[1500] = {'0'}` -/
def initialBuf : List UInt8 := 48 :: List.replicate (bufSize - 1) 0

/-- `bufferevent_read(bufev, data, size)`, of the size of `data`: the bytes in `data` afterwards, the number
returned, and the bufferevent. -/
abbrev BuffereventRead := Bev → List UInt8 → List UInt8 × Nat × Bev

/-- Up to `size` bytes are removed from the front of the input buffer and put at the front of `data`; their
number is returned. -/
structure MovesBytes (buffereventRead : BuffereventRead) : Prop where
  returned : ∀ bev data, (buffereventRead bev data).2.1 = min data.length bev.input.length
  copied : ∀ bev data, (buffereventRead bev data).1 = bev.input.take data.length ++ data.drop bev.input.length
  removed : ∀ bev data, (buffereventRead bev data).2.2.input = bev.input.drop data.length
  frame : ∀ bev data, (buffereventRead bev data).2.2.written = bev.written

/-- `bufferevent_write` -/
def buffereventWrite (bev : Bev) (data : List UInt8) : Bev := { bev with written := bev.written ++ data }

/-- `listener_cb`, for a new connection. -/
def listenerCb : Bev := buffereventWrite ⟨[], []⟩ message

section Callbacks

variable (buffereventRead : BuffereventRead)

/-- `read_cb` -/
def readCb (bev : Bev) : Bev :=
  -- the number of bytes read is not looked at
  let (buf, _, bev) := buffereventRead bev initialBuf
  buffereventWrite bev buf

/-- The bytes that arrive before a call of `read_cb`. -/
structure Batch where
  bytes : List UInt8
  ne_nil : bytes ≠ []

/-- A batch arrives, and `read_cb` is called. -/
def arrive (bev : Bev) (batch : Batch) : Bev := readCb buffereventRead { bev with input := bev.input ++ batch.bytes }

/-- A connection, after its last batch. -/
def serve (batches : List Batch) : Bev := batches.foldl (arrive buffereventRead) listenerCb

end Callbacks

/-! ## The property -/

def received (batches : List Batch) : List UInt8 := batches.flatMap Batch.bytes

/-- The bytes received have been written back behind the greeting, and none is left. -/
structure Faithful (batches : List Batch) (bev : Bev) : Prop where
  echoed : bev.written = message ++ received batches
  drained : bev.input = []

/-- Every call finds a whole buffer of bytes, and they fill the buffers. -/
structure FillsBuffers (batches : List Batch) : Prop where
  each : ∀ k ≤ batches.length, bufSize * k ≤ (received (batches.take k)).length
  all : (received batches).length = bufSize * batches.length

/-! ## The calls -/

section Calls

variable {buffereventRead : BuffereventRead} {bev : Bev} {batches : List Batch} {batch : Batch}

theorem length_initialBuf : initialBuf.length = bufSize := by
  rw [initialBuf, List.length_cons, List.length_replicate, bufSize]

theorem MovesBytes.readCb_input (hread : MovesBytes buffereventRead) (bev : Bev) :
    (readCb buffereventRead bev).input = bev.input.drop bufSize := by
  rw [← length_initialBuf]
  exact hread.removed bev initialBuf

/-- The whole buffer is written. -/
theorem MovesBytes.readCb_written (hread : MovesBytes buffereventRead) (bev : Bev) :
    ∃ buf, (readCb buffereventRead bev).written = bev.written ++ buf ∧ buf.length = bufSize ∧
      (bufSize ≤ bev.input.length → buf = bev.input.take bufSize) := by
  refine ⟨(buffereventRead bev initialBuf).1, ?_, ?_, fun h => ?_⟩
  · exact congrArg (· ++ _) (hread.frame bev initialBuf)
  · rw [hread.copied, List.length_append, List.length_take, List.length_drop, length_initialBuf]
    omega
  · rw [hread.copied, length_initialBuf, List.drop_eq_nil_of_le (length_initialBuf.le.trans h), List.append_nil]

theorem serve_append (batches : List Batch) (batch : Batch) :
    serve buffereventRead (batches ++ [batch]) = arrive buffereventRead (serve buffereventRead batches) batch := by
  rw [serve, List.foldl_append]
  rfl

theorem received_append (batches : List Batch) (batch : Batch) :
    received (batches ++ [batch]) = received batches ++ batch.bytes := by
  rw [received, List.flatMap_append, List.flatMap_singleton]
  rfl

/-- What has come of the bytes received: they are taken out in order, at most a buffer in each call, and as long
as each call has taken a whole buffer they are what has been written. -/
structure Progress (batches : List Batch) (bev : Bev) (taken : List UInt8) : Prop where
  split : received batches = taken ++ bev.input
  le : taken.length ≤ bufSize * batches.length
  wrote : bev.written.length = message.length + bufSize * batches.length
  full : taken.length = bufSize * batches.length → bev.written = message ++ taken

theorem Progress.arrive {taken : List UInt8} (hread : MovesBytes buffereventRead) (h : Progress batches bev taken)
    (batch : Batch) :
    Progress (batches ++ [batch]) (arrive buffereventRead bev batch)
      (taken ++ (bev.input ++ batch.bytes).take bufSize) := by
  obtain ⟨buf, hwritten, hlen, hbuf⟩ := hread.readCb_written { bev with input := bev.input ++ batch.bytes }
  have hcount : bufSize * (batches ++ [batch]).length = bufSize * batches.length + bufSize := by
    rw [List.length_append, List.length_singleton, Nat.mul_succ]
  have htake : ((bev.input ++ batch.bytes).take bufSize).length ≤ bufSize := List.length_take_le ..
  refine ⟨?_, ?_, ?_, fun hfull => ?_⟩
  · rw [Bufferevent.arrive, hread.readCb_input, List.append_assoc, List.take_append_drop, received_append, h.split,
      List.append_assoc]
  · have := h.le
    rw [List.length_append, hcount]
    omega
  · rw [Bufferevent.arrive, hwritten, List.length_append, h.wrote, hlen, hcount, Nat.add_assoc]
  · -- both the calls before and this one took a whole buffer
    have := h.le
    rw [List.length_append, hcount] at hfull
    rw [List.length_take] at hfull htake
    have hbuf := hbuf (by show bufSize ≤ (bev.input ++ batch.bytes).length; omega)
    rw [Bufferevent.arrive, hwritten, h.full (by omega), hbuf, List.append_assoc]

theorem MovesBytes.progress (hread : MovesBytes buffereventRead) (batches : List Batch) :
    ∃ taken, Progress batches (serve buffereventRead batches) taken := by
  induction batches using List.reverseRecOn with
  | nil => exact ⟨[], rfl, le_refl _, rfl, fun _ => (List.append_nil _).symm⟩
  | append_singleton batches batch ih =>
    obtain ⟨taken, h⟩ := ih
    rw [serve_append]
    exact ⟨_, h.arrive hread batch⟩

/-- Every call has taken a whole buffer exactly when each found one. -/
theorem MovesBytes.full_iff (hread : MovesBytes buffereventRead) (batches : List Batch) :
    bufSize * batches.length + (serve buffereventRead batches).input.length = (received batches).length ↔
      ∀ k ≤ batches.length, bufSize * k ≤ (received (batches.take k)).length := by
  induction batches using List.reverseRecOn with
  | nil => simp [serve, listenerCb, buffereventWrite, received]
  | append_singleton batches batch ih =>
    obtain ⟨taken, hprog⟩ := hread.progress batches
    have hle := hprog.le
    have hsplit := congrArg List.length hprog.split
    have hinput : (serve buffereventRead (batches ++ [batch])).input.length =
        (serve buffereventRead batches).input.length + batch.bytes.length - bufSize := by
      rw [serve_append, arrive, hread.readCb_input, List.length_drop, List.length_append]
    rw [List.length_append] at hsplit
    rw [hinput, received_append, List.length_append, List.length_append, List.length_singleton, Nat.mul_succ]
    constructor
    · intro h k hk
      rcases Nat.lt_or_ge batches.length k with hlast | hbefore
      · obtain rfl : k = batches.length + 1 := by omega
        rw [List.take_of_length_le (by simp), received_append, List.length_append, Nat.mul_succ]
        omega
      · rw [List.take_append_of_le_length hbefore]
        exact ih.1 (by omega) k hbefore
    · intro h
      have hbefore := ih.2 fun k hk => by
        rw [← List.take_append_of_le_length hk]
        exact h k (by omega)
      have hlast := h (batches.length + 1) (le_refl _)
      rw [List.take_of_length_le (by simp), received_append, List.length_append, Nat.mul_succ] at hlast
      omega

theorem MovesBytes.faithful_iff (hread : MovesBytes buffereventRead) (batches : List Batch) :
    Faithful batches (serve buffereventRead batches) ↔ FillsBuffers batches := by
  obtain ⟨taken, hprog⟩ := hread.progress batches
  have hsplit := congrArg List.length hprog.split
  rw [List.length_append] at hsplit
  constructor
  · rintro ⟨hechoed, hdrained⟩
    have hlen := hprog.wrote
    rw [hechoed, List.length_append] at hlen
    have hempty : (serve buffereventRead batches).input.length = 0 := by rw [hdrained, List.length_nil]
    exact ⟨(hread.full_iff batches).1 (by omega), by omega⟩
  · rintro ⟨heach, hall⟩
    have hfull := (hread.full_iff batches).2 heach
    have hempty : (serve buffereventRead batches).input = [] := List.length_eq_zero_iff.1 (by omega)
    refine ⟨?_, hempty⟩
    rw [hprog.split, hempty, List.append_nil]
    exact hprog.full (by omega)

end Calls

/-! ## When the echo is faithful -/

theorem length_received {batches : List Batch} (h : ∀ batch ∈ batches, batch.bytes.length = bufSize) :
    (received batches).length = bufSize * batches.length := by
  induction batches with
  | nil => rfl
  | cons batch batches ih =>
    obtain ⟨hbatch, hrest⟩ := List.forall_mem_cons.1 h
    rw [received, List.flatMap_cons, List.length_append, hbatch, List.length_cons, Nat.mul_succ, Nat.add_comm]
    exact congrArg (· + bufSize) (ih hrest)

/-- The echo is faithful after every call exactly when each batch has the size of the buffer. -/
theorem MovesBytes.always_faithful_iff {buffereventRead : BuffereventRead} (hread : MovesBytes buffereventRead)
    (batches : List Batch) :
    (∀ k, Faithful (batches.take k) (serve buffereventRead (batches.take k))) ↔
    ∀ batch ∈ batches, batch.bytes.length = bufSize := by
  constructor
  · intro h batch hmem
    obtain ⟨i, hi, rfl⟩ := List.getElem_of_mem hmem
    have hnow := ((hread.faithful_iff _).1 (h i)).all
    have hnext := ((hread.faithful_iff _).1 (h (i + 1))).all
    rw [List.take_succ_eq_append_getElem hi, received_append, List.length_append, List.length_append,
      List.length_singleton, Nat.mul_succ] at hnext
    omega
  · intro h k
    have hall : ∀ k, (received (batches.take k)).length = bufSize * (batches.take k).length :=
      fun k => length_received fun batch hbatch => h batch (List.mem_of_mem_take hbatch)
    refine (hread.faithful_iff _).2 ⟨fun j hj => ?_, hall k⟩
    rw [List.take_take, hall, List.length_take]
    rw [List.length_take] at hj
    exact Nat.mul_le_mul_left _ (by omega)

/-- After its last batch a connection has been echoed exactly when every call found a whole buffer of bytes and they
are as many as the buffers take; and after each exactly when each has that size. -/
theorem echo_exact {buffereventRead : BuffereventRead} (hread : MovesBytes buffereventRead) (batches : List Batch) :
    (Faithful batches (serve buffereventRead batches) ↔ FillsBuffers batches) ∧
    ((∀ k, Faithful (batches.take k) (serve buffereventRead (batches.take k))) ↔
      ∀ batch ∈ batches, batch.bytes.length = bufSize) :=
  ⟨hread.faithful_iff batches, hread.always_faithful_iff batches⟩

/-- `evbuffer_remove` on the input buffer. -/
def evbufferRemove (bev : Bev) (data : List UInt8) : List UInt8 × Nat × Bev :=
  let n := min data.length bev.input.length
  (bev.input.take n ++ data.drop n, n, { bev with input := bev.input.drop n })

theorem movesBytes_evbufferRemove : MovesBytes evbufferRemove := by
  constructor <;> intro bev data <;> rcases Nat.le_total data.length bev.input.length with h | h <;>
    simp [evbufferRemove, h]

/-- A batch that fills the buffer. -/
def wholeBuffer (c : UInt8) : Batch :=
  ⟨List.replicate bufSize c, List.ne_nil_of_length_pos (by rw [List.length_replicate]; exact Nat.succ_pos 1499)⟩

/-- Two whole buffers are echoed, each in its call; a byte behind them is not. -/
theorem echo_exact_twoBuffers :
    (∀ k, Faithful ([wholeBuffer 97, wholeBuffer 98].take k)
      (serve evbufferRemove ([wholeBuffer 97, wholeBuffer 98].take k))) ∧
    ¬ Faithful [wholeBuffer 97, wholeBuffer 98, ⟨[99], List.cons_ne_nil 99 []⟩]
      (serve evbufferRemove [wholeBuffer 97, wholeBuffer 98, ⟨[99], List.cons_ne_nil 99 []⟩]) := by
  constructor
  · refine (echo_exact movesBytes_evbufferRemove _).2.2 fun batch hbatch => ?_
    simp only [List.mem_cons, List.not_mem_nil, or_false] at hbatch
    rcases hbatch with rfl | rfl <;> exact List.length_replicate
  · intro h
    have hall := ((echo_exact movesBytes_evbufferRemove _).1.1 h).all
    simp only [received, List.flatMap_cons, List.flatMap_nil, List.length_append, wholeBuffer,
      List.length_replicate, List.length_cons, List.length_nil, bufSize] at hall
    omega

/-- One byte comes back as 1500. -/
theorem echo_padded : ¬ ∀ batches : List Batch, Faithful batches (serve evbufferRemove batches) := by
  intro h
  have hecho := (h [⟨[97], by decide⟩]).echoed
  have hlen := congrArg List.length hecho
  revert hlen
  decide +kernel

end LinuxProgram.Bufferevent
