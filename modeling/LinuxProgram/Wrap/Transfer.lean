/-
`Readn` and `Writen` of wrap.c, over the scripts of what the calls of `read` and `write` meet. They
transfer exactly what the script lets through before it ends the transfer, and a string that one of
them writes the other reads.
-/
import LinuxProgram.Data.Memory
import LinuxProgram.Data.Word
import LinuxProgram.Io.Stream
import LinuxProgram.Machine.Loop

namespace LinuxProgram.Wrap

open LinuxProgram.Data LinuxProgram.Io LinuxProgram.Machine

/-! ## The code -/

/-- `nleft -= count` for the unsigned `nleft`. -/
def reduce (nleft : Nat) (count : Nat) : Nat := toSize ((nleft : Int) - count)

/-- `n - nleft`, returned as a signed number. -/
def moved (n nleft : Nat) : Int := toSsize (reduce n nleft)

/-- The variables of `Writen`, and the stream that it writes to. -/
structure Writing where
  nleft : Nat
  ptr : Nat
  stream : Sender

/-- A turn of the loop of `Writen`; the loop is left when `nleft` is 0, too. -/
def writenTurn (m : Memory) (n : Nat) (w : Writing) : Option (Turn Writing (Int × Sender)) :=
  if 0 < w.nleft then
    (m.loads w.ptr w.nleft).map fun bs =>
      match w.stream.send bs with
      | (.eintr, stream) => .next ⟨reduce w.nleft 0, w.ptr + 0, stream⟩
      | (.error, stream) => .done (-1, stream)
      | (.count nwritten, stream) =>
        if nwritten = 0 then .done (moved n w.nleft, stream)
        else .next ⟨reduce w.nleft nwritten, w.ptr + nwritten, stream⟩
  else some (.done (moved n w.nleft, w.stream))

/-- `Writen(fd, vptr, n)`. Every turn but the last uses up an event of the script or a byte of the `n`. -/
def writen (m : Memory) (vptr n : Nat) (stream : Sender) : Option (Int × Sender) :=
  loop (writenTurn m n) (stream.events.length + n + 1) ⟨n, vptr, stream⟩

/-- The variables of `Readn`, the memory that it reads into, and the stream that it reads from. -/
structure Reading where
  nleft : Nat
  ptr : Nat
  memory : Memory
  stream : Receiver

def readnTurn (n : Nat) (r : Reading) : Option (Turn Reading (Int × Memory × Receiver)) :=
  if 0 < r.nleft then
    (r.stream.recv r.nleft).bind fun (got, stream) =>
      match got with
      | .eintr => some (.next ⟨reduce r.nleft 0, r.ptr + 0, r.memory, stream⟩)
      | .error => some (.done (-1, r.memory, stream))
      | .bytes bs =>
        if bs.length = 0 then some (.done (moved n r.nleft, r.memory, stream))
        else (r.memory.stores r.ptr bs).map fun memory =>
          .next ⟨reduce r.nleft bs.length, r.ptr + bs.length, memory, stream⟩
  else some (.done (moved n r.nleft, r.memory, r.stream))

/-- `Readn(fd, vptr, n)`. -/
def readn (m : Memory) (vptr n : Nat) (stream : Receiver) : Option (Int × Memory × Receiver) :=
  loop (readnTurn n) (stream.events.length + n + 1) ⟨n, vptr, m, stream⟩

/-! ## What ends a transfer -/

/-- How a script of `write` calls ends the transfer of `n` bytes: with an error, with a call that accepts
nothing, or not before all are accepted. -/
def sendEnding : List SendEvent → Nat → Ending
  | _, 0 => .full
  | [], _ + 1 => .full
  | .eintr :: es, n + 1 => sendEnding es (n + 1)
  | .error :: _, _ + 1 => .error
  | .accept k :: es, n + 1 => if k = 0 then .eof else sendEnding es (n + 1 - k)

/-- How a script of `read` calls ends the transfer of `n` bytes, when `avail` bytes come before the end of the
stream. -/
def recvEnding : List RecvEvent → Nat → Nat → Ending
  | _, _, 0 => .full
  | [], avail, n + 1 => if n + 1 ≤ avail then .full else .eof
  | .eintr :: es, avail, n + 1 => recvEnding es avail (n + 1)
  | .error :: _, _, _ + 1 => .error
  | .chunk k :: es, avail, n + 1 =>
    if avail = 0 then .eof else recvEnding es (avail - (k + 1)) (n + 1 - min (k + 1) avail)

/-! ## Arithmetic -/

theorem reduce_eq {nleft count : Nat} (hlt : nleft < 2 ^ 63) (h : count ≤ nleft) :
    reduce nleft count = nleft - count := by
  unfold reduce
  rw [show (nleft : Int) - count = ((nleft - count : Nat) : Int) by omega]
  exact toSize_natCast (by omega)

theorem moved_eq {n nleft : Nat} (hlt : n < 2 ^ 63) (h : nleft ≤ n) : moved n nleft = ((n - nleft : Nat) : Int) := by
  rw [moved, reduce_eq hlt h]
  exact toSsize_eq (by omega) (by omega)

theorem reduce_zero {nleft : Nat} (hlt : nleft < 2 ^ 63) : reduce nleft 0 = nleft := reduce_eq hlt (Nat.zero_le _)

/-! ## Writing -/

/-- What a function that transfers `n` bytes returns, and the number `k` of bytes that it has transferred. -/
structure Transferred (e : Ending) (n k : Nat) (ret : Int) : Prop where
  failed : ret = -1 ↔ e = .error
  counted : e ≠ .error → ret = k
  le : k ≤ n
  all : k = n ↔ e = .full

theorem Transferred.full {n : Nat} : Transferred .full n n n where
  failed := by simp
  counted _ := rfl
  le := le_refl n
  all := by simp

theorem Transferred.eof {n k : Nat} (h : k < n) : Transferred .eof n k k where
  failed := by simp
  counted _ := rfl
  le := h.le
  all := by simp [h.ne]

theorem Transferred.error {n k : Nat} (h : k < n) : Transferred .error n k (-1) where
  failed := by simp
  counted h := absurd rfl h
  le := h.le
  all := by simp [h.ne]

theorem sendEnding_zero (es : List SendEvent) : sendEnding es 0 = .full := by
  cases es <;> rfl

variable {m : Memory} {vptr : Nat} {s : List UInt8}

/-- `k` bytes of the string are written. -/
structure Wrote (vptr : Nat) (s : List UInt8) (stream : Sender) (k : Nat) (w : Writing) : Prop where
  le : k ≤ s.length
  nleft : w.nleft = s.length - k
  ptr : w.ptr = vptr + k
  sent : w.stream.sent = stream.sent ++ s.take k
  ending : sendEnding w.stream.events w.nleft = sendEnding stream.events s.length

variable {stream : Sender} {w : Writing} {k : Nat}

/-- What a call does with the bytes that are left, and what is left of the script. -/
theorem send_cases (stream : Sender) {bs : List UInt8} (hbs : bs ≠ []) :
    (∃ es, stream.send bs = (.eintr, ⟨stream.sent, es⟩) ∧ es.length < stream.events.length ∧
      sendEnding es bs.length = sendEnding stream.events bs.length) ∨
    (∃ es, stream.send bs = (.error, ⟨stream.sent, es⟩) ∧ sendEnding stream.events bs.length = .error) ∨
    (∃ es, stream.send bs = (.count 0, ⟨stream.sent, es⟩) ∧ sendEnding stream.events bs.length = .eof) ∨
    ∃ j es, 0 < j ∧ j ≤ bs.length ∧ stream.send bs = (.count j, ⟨stream.sent ++ bs.take j, es⟩) ∧
      es.length ≤ stream.events.length ∧ sendEnding es (bs.length - j) = sendEnding stream.events bs.length := by
  obtain ⟨n, hn⟩ := Nat.exists_eq_succ_of_ne_zero (mt List.length_eq_zero_iff.1 hbs)
  obtain ⟨sent, events⟩ := stream
  cases events with
  | nil =>
    refine .inr (.inr (.inr ⟨bs.length, [], by omega, le_refl _, ?_, le_refl _, ?_⟩))
    · rw [List.take_length]
      rfl
    · rw [Nat.sub_self, hn]
      rfl
  | cons e es =>
    cases e with
    | eintr =>
      refine .inl ⟨es, rfl, Nat.lt_succ_self _, ?_⟩
      rw [hn]
      rfl
    | error =>
      refine .inr (.inl ⟨es, rfl, ?_⟩)
      rw [hn]
      rfl
    | accept k =>
      by_cases hk : k = 0
      · subst hk
        refine .inr (.inr (.inl ⟨es, ?_, ?_⟩))
        · simp only [Sender.send, Nat.zero_min, List.take_zero, List.append_nil]
        · rw [hn]
          rfl
      · refine .inr (.inr (.inr ⟨min k bs.length, es, by omega, min_le_right _ _, rfl, Nat.le_succ _, ?_⟩))
        rw [hn, show n.succ - min k n.succ = n + 1 - k by omega]
        exact (if_neg hk).symm

/-- The bytes that a call accepts. -/
theorem Wrote.accept {j : Nat} {es : List SendEvent} (hlen : s.length < 2 ^ 63) (h : Wrote vptr s stream k w)
    (hj : j ≤ w.nleft) (hes : sendEnding es (w.nleft - j) = sendEnding w.stream.events w.nleft) :
    Wrote vptr s stream (k + j) ⟨reduce w.nleft j, w.ptr + j, ⟨w.stream.sent ++ (s.drop k).take j, es⟩⟩ := by
  have hle := h.le
  have hnleft := h.nleft
  have hred : reduce w.nleft j = w.nleft - j := reduce_eq (by omega) hj
  constructor
  · omega
  · rw [hred]
    show w.nleft - j = _
    omega
  · show w.ptr + j = _
    rw [h.ptr, Nat.add_assoc]
  · rw [h.sent, List.take_add, List.append_assoc]
  · rw [hred]
    exact hes.trans h.ending

theorem Wrote.done (h : Wrote vptr s stream k w) (hnleft : w.nleft = 0) :
    Transferred (sendEnding stream.events s.length) s.length k k := by
  have hall : k = s.length := by
    have := h.le
    have := h.nleft
    omega
  have hend := h.ending
  rw [hnleft, sendEnding_zero] at hend
  rw [← hend, hall]
  exact .full

/-- A call asks for the rest of the string. -/
theorem Wrote.loads (hm : m.Holds vptr s) (h : Wrote vptr s stream k w) : m.loads w.ptr w.nleft = some (s.drop k) := by
  have hdrop : m.Holds (vptr + (s.take k).length) (s.drop k) := by
    rw [← List.take_append_drop k s, Memory.holds_append] at hm
    exact hm.2
  rw [List.length_take_of_le h.le] at hdrop
  rw [h.ptr, h.nleft, ← List.length_drop]
  exact hdrop.loads

/-- What is said of the result of `Writen`. -/
def WriteEnd (s : List UInt8) (stream : Sender) (r : Int × Sender) : Prop :=
  ∃ k, Transferred (sendEnding stream.events s.length) s.length k r.1 ∧ r.2.sent = stream.sent ++ s.take k

theorem writen_turn (hlen : s.length < 2 ^ 63) (hm : m.Holds vptr s) (stream : Sender) :
    Proves (writenTurn m s.length) (fun w => ∃ k, Wrote vptr s stream k w)
      (fun w => w.stream.events.length + w.nleft) (WriteEnd s stream) := by
  rintro w ⟨k, h⟩
  have hmoved : moved s.length w.nleft = k := by
    have := h.le
    rw [h.nleft, moved_eq hlen (Nat.sub_le _ _)]
    omega
  unfold writenTurn
  by_cases hpos : 0 < w.nleft
  · have hlt : k < s.length := by
      have := h.nleft
      omega
    have hsize : w.nleft < 2 ^ 63 := by
      have := h.nleft
      omega
    have hdrop : (s.drop k).length = w.nleft := by rw [List.length_drop, ← h.nleft]
    have hne : s.drop k ≠ [] := List.length_pos_iff.1 (by omega)
    rw [if_pos hpos, h.loads hm, Option.map_some]
    rcases send_cases w.stream hne with ⟨es, hsend, hes, hend⟩ | ⟨es, hsend, hend⟩ | ⟨es, hsend, hend⟩ |
      ⟨j, es, hpos, hj, hsend, hes, hend⟩
    · -- an interruption: nothing is accepted, and the script is shorter
      rw [hsend]
      rw [hdrop] at hend
      have h' := h.accept hlen (Nat.zero_le _) hend
      rw [List.take_zero, List.append_nil] at h'
      refine .inl ⟨_, rfl, ⟨_, h'⟩, ?_⟩
      show es.length + reduce w.nleft 0 < w.stream.events.length + w.nleft
      rw [reduce_zero hsize]
      omega
    · -- another error
      rw [hsend]
      rw [hdrop] at hend
      refine .inr ⟨_, rfl, k, ?_, h.sent⟩
      rw [← h.ending, hend]
      exact .error hlt
    · -- a count of 0, for which the loop stops
      rw [hsend]
      rw [hdrop] at hend
      refine .inr ⟨_, congrArg some (if_pos rfl), k, ?_, h.sent⟩
      rw [← h.ending, hend, hmoved]
      exact .eof hlt
    · -- `j` more bytes
      rw [hsend]
      rw [hdrop] at hend hj
      refine .inl ⟨_, congrArg some (if_neg (Nat.ne_of_gt hpos)), ⟨_, h.accept hlen hj hend⟩, ?_⟩
      show es.length + reduce w.nleft j < w.stream.events.length + w.nleft
      rw [reduce_eq hsize hj]
      omega
  · -- the loop is over
    right
    rw [if_neg hpos, hmoved]
    exact ⟨_, rfl, k, h.done (Nat.eq_zero_of_not_pos hpos), h.sent⟩

theorem wrote_start (vptr : Nat) (s : List UInt8) (stream : Sender) :
    Wrote vptr s stream 0 ⟨s.length, vptr, stream⟩ where
  le := Nat.zero_le _
  nleft := rfl
  ptr := rfl
  sent := (List.append_nil _).symm
  ending := rfl

theorem writen_spec (hlen : s.length < 2 ^ 63) (hm : m.Holds vptr s) (stream : Sender) :
    ∃ r, writen m vptr s.length stream = some r ∧ WriteEnd s stream r :=
  (writen_turn hlen hm stream).loop ⟨0, wrote_start vptr s stream⟩ (Nat.lt_succ_self _)

/-- `nleft` is what is left of the string. -/
theorem writen_nleft (hlen : s.length < 2 ^ 63) (hm : m.Holds vptr s)
    (h : AtTurn (writenTurn m s.length) ⟨s.length, vptr, stream⟩ w) : w.nleft + w.ptr = vptr + s.length := by
  obtain ⟨k, hw⟩ := (writen_turn hlen hm stream).at ⟨0, wrote_start vptr s stream⟩ h
  have := hw.le
  rw [hw.nleft, hw.ptr]
  omega

/-! ## Reading -/

theorem recvEnding_zero (es : List RecvEvent) (avail : Nat) : recvEnding es avail 0 = .full := by
  cases es <;> rfl

section

variable {data : List UInt8} {closed : Bool} {events : List RecvEvent}

theorem deliver_eq (hready : closed = true ∨ 0 < data.length) (k : Nat) :
    (⟨data, closed, events⟩ : Receiver).deliver k =
    some (.bytes (data.take (min k data.length)), ⟨data.drop (min k data.length), closed, events⟩) := by
  unfold Receiver.deliver
  rw [← List.take_eq_take_min, ← List.drop_eq_drop_min]
  refine if_neg ?_
  rintro ⟨rfl, rfl⟩
  simp at hready

/-- What a call does, and what is left of the script. -/
theorem recv_cases {n : Nat} (hn : 0 < n) (hready : closed = true ∨ 0 < data.length) :
    (∃ es, (⟨data, closed, events⟩ : Receiver).recv n = some (.eintr, ⟨data, closed, es⟩) ∧ es.length < events.length ∧
      recvEnding es data.length n = recvEnding events data.length n) ∨
    (∃ es, (⟨data, closed, events⟩ : Receiver).recv n = some (.error, ⟨data, closed, es⟩) ∧
      recvEnding events data.length n = .error) ∨
    (∃ es, (⟨data, closed, events⟩ : Receiver).recv n = some (.bytes [], ⟨data, closed, es⟩) ∧ data = [] ∧
      recvEnding events data.length n = .eof) ∨
    ∃ j es, 0 < j ∧ j ≤ n ∧ j ≤ data.length ∧
      (⟨data, closed, events⟩ : Receiver).recv n = some (.bytes (data.take j), ⟨data.drop j, closed, es⟩) ∧
      es.length ≤ events.length ∧ recvEnding es (data.length - j) (n - j) = recvEnding events data.length n := by
  obtain ⟨n, rfl⟩ := Nat.exists_eq_succ_of_ne_zero (Nat.ne_of_gt hn)
  cases events with
  | nil =>
    have hrecv : Receiver.recv ⟨data, closed, []⟩ n.succ = _ := deliver_eq hready n.succ
    rcases Nat.eq_zero_or_pos data.length with h0 | hpos
    · cases List.length_eq_zero_iff.1 h0
      exact .inr (.inr (.inl ⟨[], hrecv, rfl, rfl⟩))
    · refine .inr (.inr (.inr ⟨min n.succ data.length, [], by omega, min_le_left _ _, min_le_right _ _, hrecv,
        le_refl _, ?_⟩))
      rcases Nat.lt_or_ge data.length n.succ with h | h
      · obtain ⟨d, hd⟩ := Nat.exists_eq_add_of_lt h
        rw [Nat.min_eq_right h.le, Nat.sub_self, show n.succ - data.length = d + 1 by omega]
        exact (if_neg (by omega)).trans (if_neg (by omega)).symm
      · rw [Nat.min_eq_left h, Nat.sub_self]
        exact (if_pos h).symm
  | cons e es =>
    cases e with
    | eintr => exact .inl ⟨es, rfl, Nat.lt_succ_self _, rfl⟩
    | error => exact .inr (.inl ⟨es, rfl, rfl⟩)
    | chunk k =>
      have hrecv : Receiver.recv ⟨data, closed, .chunk k :: es⟩ n.succ = _ := deliver_eq hready (min (k + 1) n.succ)
      rcases Nat.eq_zero_or_pos data.length with h0 | hpos
      · cases List.length_eq_zero_iff.1 h0
        refine .inr (.inr (.inl ⟨es, ?_, rfl, rfl⟩))
        rw [hrecv, List.length_nil, Nat.min_zero]
        rfl
      · refine .inr (.inr (.inr ⟨min (min (k + 1) n.succ) data.length, es, by omega, by omega, by omega, hrecv,
          Nat.le_succ _, ?_⟩))
        refine Eq.trans ?_ (if_neg (Nat.ne_of_gt hpos)).symm
        rcases Nat.le_total n.succ (k + 1) with h | h
        · -- the call asks for no more than the script gives
          rw [Nat.min_eq_right h]
          rcases Nat.lt_or_ge data.length n.succ with hshort | hlong
          · congr 1 <;> omega
          · rw [Nat.min_eq_left hlong, Nat.sub_self, show n + 1 - min (k + 1) data.length = 0 by omega, recvEnding_zero,
              recvEnding_zero]
        · rw [Nat.min_eq_left h]
          congr 1
          omega

end

variable {source : Receiver} {r : Reading}

/-- `k` bytes of the stream are read. -/
structure Read (m : Memory) (vptr n : Nat) (source : Receiver) (k : Nat) (r : Reading) : Prop where
  le : k ≤ n
  avail : k ≤ source.data.length
  nleft : r.nleft = n - k
  ptr : r.ptr = vptr + k
  memory : r.memory = m.write vptr (source.data.take k)
  data : r.stream.data = source.data.drop k
  closed : r.stream.closed = source.closed
  ending : recvEnding r.stream.events r.stream.data.length r.nleft = recvEnding source.events source.data.length n

/-- What is said of the memory and the stream when `k` bytes were read. -/
structure TookBytes (m : Memory) (vptr n : Nat) (source : Receiver) (k : Nat) (m' : Memory) (source' : Receiver) :
    Prop where
  avail : k ≤ source.data.length
  eof : recvEnding source.events source.data.length n = .eof → k = source.data.length
  memory : m' = m.write vptr (source.data.take k)
  data : source'.data = source.data.drop k

/-- What is said of the result of `Readn`. -/
def ReadEnd (m : Memory) (vptr n : Nat) (source : Receiver) (res : Int × Memory × Receiver) : Prop :=
  ∃ k, Transferred (recvEnding source.events source.data.length n) n k res.1 ∧
    TookBytes m vptr n source k res.2.1 res.2.2

theorem TookBytes.count {n k : Nat} {ret : Int} {source source' : Receiver} {m' : Memory}
    (h : TookBytes m vptr n source k m' source')
    (htrans : Transferred (recvEnding source.events source.data.length n) n k ret)
    (hok : recvEnding source.events source.data.length n ≠ .error) : k = min n source.data.length := by
  have havail := h.avail
  have hle := htrans.le
  cases hend : recvEnding source.events source.data.length n with
  | full =>
    have := htrans.all.2 hend
    omega
  | eof =>
    have := h.eof hend
    omega
  | error => exact absurd hend hok

variable {n : Nat}

/-- The bytes that a call delivers. -/
theorem Read.deliver {j : Nat} {es : List RecvEvent} (hlen : n < 2 ^ 63) (h : Read m vptr n source k r)
    (hj : j ≤ r.nleft) (havail : j ≤ r.stream.data.length)
    (hes : recvEnding es (r.stream.data.length - j) (r.nleft - j) =
      recvEnding r.stream.events r.stream.data.length r.nleft) :
    Read m vptr n source (k + j) ⟨reduce r.nleft j, r.ptr + j, r.memory.write r.ptr (r.stream.data.take j),
      ⟨r.stream.data.drop j, r.stream.closed, es⟩⟩ := by
  have hle := h.le
  have hnleft := h.nleft
  have hred : reduce r.nleft j = r.nleft - j := reduce_eq (by omega) hj
  have hdata : r.stream.data.length = source.data.length - k := by rw [h.data, List.length_drop]
  have hk := h.avail
  constructor
  · omega
  · omega
  · rw [hred]
    show r.nleft - j = _
    omega
  · show r.ptr + j = _
    rw [h.ptr, Nat.add_assoc]
  · show Memory.write r.memory r.ptr _ = _
    rw [h.memory, h.ptr, h.data, List.take_add, Memory.write_append, List.length_take_of_le hk]
  · show r.stream.data.drop j = _
    rw [h.data, List.drop_drop]
  · exact h.closed
  · rw [hred]
    show recvEnding es (r.stream.data.drop j).length _ = _
    rw [List.length_drop]
    exact hes.trans h.ending

theorem readn_turn (hlen : n < 2 ^ 63) (hm : m.Usable vptr n) (hready : source.closed = true ∨ n ≤ source.data.length) :
    Proves (readnTurn n) (fun r => ∃ k, Read m vptr n source k r)
      (fun r => r.stream.events.length + r.nleft) (ReadEnd m vptr n source) := by
  rintro r ⟨k, h⟩
  have hmoved : moved n r.nleft = k := by
    have := h.le
    rw [h.nleft, moved_eq hlen (Nat.sub_le _ _)]
    omega
  have hnleft := h.nleft
  have hk := h.avail
  unfold readnTurn
  by_cases hpos : 0 < r.nleft
  · have hready' : r.stream.closed = true ∨ 0 < r.stream.data.length := by
      rw [h.closed, h.data, List.length_drop]
      exact hready.imp_right fun hn => by omega
    rw [if_pos hpos]
    rcases @recv_cases r.stream.data r.stream.closed r.stream.events r.nleft hpos hready' with ⟨es, hrecv, hes, hend⟩ |
      ⟨es, hrecv, hend⟩ | ⟨es, hrecv, hnil, hend⟩ | ⟨j, es, hj0, hj, havail, hrecv, hes, hend⟩
    · -- an interruption: nothing is read, and the script is shorter
      have hrecv : r.stream.recv r.nleft = _ := hrecv
      have h' := h.deliver hlen (Nat.zero_le _) (Nat.zero_le _) hend
      rw [List.take_zero, List.drop_zero] at h'
      rw [hrecv]
      refine .inl ⟨_, rfl, ⟨_, h'⟩, ?_⟩
      show es.length + reduce r.nleft 0 < r.stream.events.length + r.nleft
      rw [reduce_zero (by omega)]
      omega
    · -- another error
      have hrecv : r.stream.recv r.nleft = _ := hrecv
      rw [hrecv]
      have hend := h.ending.symm.trans hend
      refine .inr ⟨_, rfl, k, ?_, hk, ?_, h.memory, h.data⟩
      · rw [hend]
        exact .error (by omega)
      · rw [hend]
        rintro ⟨⟩
    · -- the end of the stream
      have hrecv : r.stream.recv r.nleft = _ := hrecv
      rw [hrecv]
      have hend := h.ending.symm.trans hend
      refine .inr ⟨_, rfl, k, ?_, hk, ?_, h.memory, h.data⟩
      · rw [hend, hmoved]
        exact .eof (by omega)
      · intro _
        rw [h.data, List.drop_eq_nil_iff] at hnil
        omega
    · -- `j` more bytes, which are stored
      have hrecv : r.stream.recv r.nleft = _ := hrecv
      have hbytes : (r.stream.data.take j).length = j := List.length_take_of_le havail
      have hstores : r.memory.stores r.ptr (r.stream.data.take j) =
          some (r.memory.write r.ptr (r.stream.data.take j)) := by
        refine Memory.stores_eq ?_
        rw [h.memory, h.ptr, hbytes]
        exact hm.write.mono (Nat.le_add_right _ _) (by omega)
      have hturn : readnTurn n r =
        some (.next ⟨reduce r.nleft j, r.ptr + j, r.memory.write r.ptr (r.stream.data.take j),
          ⟨r.stream.data.drop j, r.stream.closed, es⟩⟩) := by
        rw [readnTurn, if_pos hpos, hrecv, Option.bind_some]
        dsimp only
        rw [hbytes, if_neg (Nat.ne_of_gt hj0), hstores, Option.map_some]
      rw [readnTurn, if_pos hpos] at hturn
      refine .inl ⟨_, hturn, ⟨_, h.deliver hlen hj havail hend⟩, ?_⟩
      show es.length + reduce r.nleft j < r.stream.events.length + r.nleft
      rw [reduce_eq (by omega) hj]
      omega
  · -- the loop is over
    have hall : k = n := by
      have := h.le
      omega
    have hfull : recvEnding source.events source.data.length n = .full := by
      rw [← h.ending, Nat.eq_zero_of_not_pos hpos, recvEnding_zero]
    rw [if_neg hpos]
    refine .inr ⟨_, rfl, k, ?_, hk, ?_, h.memory, h.data⟩
    · rw [hfull, hmoved, hall]
      exact .full
    · rw [hfull]
      rintro ⟨⟩

theorem read_start (m : Memory) (vptr n : Nat) (source : Receiver) : Read m vptr n source 0 ⟨n, vptr, m, source⟩ where
  le := Nat.zero_le _
  avail := Nat.zero_le _
  nleft := rfl
  ptr := rfl
  memory := rfl
  data := rfl
  closed := rfl
  ending := rfl

theorem readn_spec (hlen : n < 2 ^ 63) (hm : m.Usable vptr n) (hready : source.closed = true ∨ n ≤ source.data.length) :
    ∃ res, readn m vptr n source = some res ∧ ReadEnd m vptr n source res :=
  (readn_turn hlen hm hready).loop ⟨0, read_start m vptr n source⟩ (Nat.lt_succ_self _)

/-- `nleft` is what is left of the buffer. -/
theorem readn_nleft (hlen : n < 2 ^ 63) (hm : m.Usable vptr n) (hready : source.closed = true ∨ n ≤ source.data.length)
    (h : AtTurn (readnTurn n) ⟨n, vptr, m, source⟩ r) : r.nleft + r.ptr = vptr + n := by
  obtain ⟨k, hr⟩ := (readn_turn hlen hm hready).at ⟨0, read_start m vptr n source⟩ h
  have := hr.le
  rw [hr.nleft, hr.ptr]
  omega

/-! ## Exactness -/

/-- `Writen` and `Readn` transfer what the calls of `write` and `read` let through, in every environment; with
a string in a pipe the one is the inverse of the other. -/
theorem transfer_exact :
    (∀ (m : Memory) (vptr : Nat) (s : List UInt8) (stream : Sender), s.length < 2 ^ 63 → m.Holds vptr s →
      ∃ ret stream' k, writen m vptr s.length stream = some (ret, stream') ∧
        Transferred (sendEnding stream.events s.length) s.length k ret ∧ stream'.sent = stream.sent ++ s.take k ∧
        ∀ w, AtTurn (writenTurn m s.length) ⟨s.length, vptr, stream⟩ w → w.nleft + w.ptr = vptr + s.length) ∧
    (∀ (m : Memory) (vptr n : Nat) (source : Receiver), n < 2 ^ 63 → m.Usable vptr n →
      source.closed = true ∨ n ≤ source.data.length →
      ∃ ret m' source' k, readn m vptr n source = some (ret, m', source') ∧
        Transferred (recvEnding source.events source.data.length n) n k ret ∧
        (ret ≠ -1 → k = min n source.data.length ∧ m' = m.write vptr (source.data.take k)) ∧
        ∀ r, AtTurn (readnTurn n) ⟨n, vptr, m, source⟩ r → r.nleft + r.ptr = vptr + n) ∧
    ∀ (m m' : Memory) (vptr buf : Nat) (s : List UInt8) (es : List SendEvent) (es' : List RecvEvent) (closed : Bool),
      s.length < 2 ^ 63 → m.Holds vptr s → m'.Usable buf s.length →
      sendEnding es s.length = .full → recvEnding es' s.length s.length ≠ .error →
      ∃ (stream' : Sender) (source' : Receiver), writen m vptr s.length ⟨[], es⟩ = some ((s.length : Int), stream') ∧
        readn m' buf s.length ⟨stream'.sent, closed, es'⟩ = some ((s.length : Int), m'.write buf s, source') := by
  refine ⟨?_, ?_, ?_⟩
  · intro m vptr s stream hlen hm
    obtain ⟨⟨ret, stream'⟩, hwrite, k, htrans, hsent⟩ := writen_spec hlen hm stream
    exact ⟨ret, stream', k, hwrite, htrans, hsent, fun w h => writen_nleft hlen hm h⟩
  · intro m vptr n source hlen hm hready
    obtain ⟨⟨ret, m', source'⟩, hread, k, htrans, hend⟩ := readn_spec hlen hm hready
    refine ⟨ret, m', source', k, hread, htrans, ?_, fun r h => readn_nleft hlen hm hready h⟩
    intro hret
    exact ⟨hend.count htrans (mt htrans.failed.2 hret), hend.memory⟩
  · intro m m' vptr buf s es es' closed hlen hm hm' hsend hrecv
    obtain ⟨⟨ret, ⟨sent, es''⟩⟩, hwrite, k, htrans, hsent⟩ := writen_spec hlen hm ⟨[], es⟩
    have hk : k = s.length := htrans.all.2 hsend
    have hret : ret = k := htrans.counted (by rw [hsend]; exact Ending.noConfusion)
    rw [hk, List.take_length, List.nil_append] at hsent
    have hsent : sent = s := hsent
    rw [hret, hk, hsent] at hwrite
    obtain ⟨⟨ret', m'', source'⟩, hread, j, htrans', hend⟩ :=
      @readn_spec m' buf ⟨s, closed, es'⟩ s.length hlen hm' (.inr (le_refl _))
    have hj : j = s.length := (hend.count htrans' hrecv).trans (Nat.min_self _)
    have hret' : ret' = j := htrans'.counted hrecv
    have hmem : m'' = m'.write buf (s.take j) := hend.memory
    rw [hret', hmem, hj, List.take_length] at hread
    exact ⟨_, source', hwrite, hread⟩

def threeBytes (a : Nat) : Memory := Memory.write (fun _ => none) a [1, 2, 3]

theorem transfer_exact_threeBytes : ∃ (stream' : Sender) (source' : Receiver),
    writen (threeBytes 0) 0 3 ⟨[], [.eintr, .accept 1]⟩ = some (3, stream') ∧
      readn (threeBytes 5) 5 3 ⟨stream'.sent, false, [.chunk 1, .eintr]⟩ =
        some (3, (threeBytes 5).write 5 [1, 2, 3], source') :=
  transfer_exact.2.2 (threeBytes 0) (threeBytes 5) 0 5 [1, 2, 3] [.eintr, .accept 1] [.chunk 1, .eintr] false
    (by decide) Memory.holds_write (Memory.holds_write : Memory.Holds (threeBytes 5) 5 [1, 2, 3]).usable rfl (by decide)

end LinuxProgram.Wrap
