/-
The two ends of a reliable byte stream. What the next calls of `recv` and `send` meet is a script
of events: an interruption, another error, or a transfer of part of what was asked for. Behind the
script every call transfers all it can, so a script stands for every environment that interrupts
and splits the calls finitely often.
-/
import Mathlib.Data.List.Basic
import Mathlib.Tactic

namespace LinuxProgram.Io

/-! ## Receiving -/

inductive RecvEvent where
  | eintr
  | error
  /-- At most `k + 1` bytes are delivered. -/
  | chunk (k : Nat)
  deriving DecidableEq, Repr

/-- The receiving end: the bytes not yet read, whether the sender has closed, and the script. -/
structure Receiver where
  data : List UInt8
  closed : Bool
  events : List RecvEvent
  deriving DecidableEq, Repr

inductive Received where
  | bytes (bs : List UInt8)
  | eintr
  | error
  deriving DecidableEq, Repr

def Received.bytes? : Received → Option (List UInt8)
  | .bytes bs => some bs
  | .eintr | .error => none

/-- Up to `k` bytes, no byte at the end of the stream; with nothing to read before the end the call
does not return. -/
def Receiver.deliver (r : Receiver) (k : Nat) : Option (Received × Receiver) :=
  if r.data = [] ∧ r.closed = false then none
  else some (.bytes (r.data.take k), { r with data := r.data.drop k })

/-- `recv` of at most `n` bytes. -/
def Receiver.recv (r : Receiver) (n : Nat) : Option (Received × Receiver) :=
  match r.events with
  | [] => r.deliver n
  | .eintr :: es => some (.eintr, { r with events := es })
  | .error :: es => some (.error, { r with events := es })
  | .chunk k :: es => { r with events := es }.deliver (min (k + 1) n)

/-- `recv` with `MSG_PEEK`: the bytes stay on the stream. -/
def Receiver.peek (r : Receiver) (n : Nat) : Option (Received × Receiver) :=
  (r.recv n).map fun (got, r') => (got, { r' with data := r.data })

/-- The call for at most `n` bytes, repeated while it is interrupted: the bytes, or `none` for another
error. -/
def Receiver.recvAgain (data : List UInt8) (closed : Bool) (n : Nat) :
    List RecvEvent → Option (Option (List UInt8) × Receiver)
  | [] => (Receiver.recv ⟨data, closed, []⟩ n).map fun (got, r) => (got.bytes?, r)
  | .eintr :: es => recvAgain data closed n es
  | e :: es => (Receiver.recv ⟨data, closed, e :: es⟩ n).map fun (got, r) => (got.bytes?, r)

theorem Receiver.deliver_takes {r r' : Receiver} {k : Nat} {got : Received} (h : r.deliver k = some (got, r')) :
    r.data = got.bytes?.getD [] ++ r'.data ∧ (got.bytes?.getD []).length ≤ k := by
  unfold Receiver.deliver at h
  split at h
  · cases h
  · cases h
    exact ⟨(List.take_append_drop k r.data).symm, List.length_take_le k r.data⟩

/-- What a call takes off the stream. -/
theorem Receiver.recv_takes {r r' : Receiver} {n : Nat} {got : Received} (h : r.recv n = some (got, r')) :
    r.data = got.bytes?.getD [] ++ r'.data ∧ (got.bytes?.getD []).length ≤ n := by
  obtain ⟨data, closed, events⟩ := r
  unfold Receiver.recv at h
  split at h
  · exact deliver_takes h
  · cases h
    exact ⟨rfl, Nat.zero_le n⟩
  · cases h
    exact ⟨rfl, Nat.zero_le n⟩
  · obtain ⟨hdata, hlen⟩ := deliver_takes h
    exact ⟨hdata, hlen.trans (min_le_right _ n)⟩

theorem Receiver.recvAgain_takes {data : List UInt8} {closed : Bool} {n : Nat} {es : List RecvEvent}
    {got : Option (List UInt8)} {r' : Receiver} (h : recvAgain data closed n es = some (got, r')) :
    data = got.getD [] ++ r'.data ∧ (got.getD []).length ≤ n := by
  have hrecv : ∀ {es}, (Receiver.recv ⟨data, closed, es⟩ n).map (fun (got, r) => (got.bytes?, r)) = some (got, r') →
      data = got.getD [] ++ r'.data ∧ (got.getD []).length ≤ n := by
    intro es h
    obtain ⟨⟨got, r⟩, h, he⟩ := Option.map_eq_some_iff.1 h
    cases he
    exact recv_takes h
  induction es with
  | nil => exact hrecv h
  | cons e es ih =>
    cases e with
    | eintr => exact ih h
    | error => exact hrecv h
    | chunk k => exact hrecv h

/-- How a loop that reads `n` bytes ends. -/
inductive Ending where
  | full
  | eof
  | error
  deriving DecidableEq, Repr

/-- The loop that calls `recv` for what is left of `n` bytes, again after an interruption. -/
def Receiver.recvLoop : Nat → Receiver → Nat → Option (Ending × List UInt8 × Receiver)
  | 0, _, _ => none
  | _ + 1, r, 0 => some (.full, [], r)
  | fuel + 1, r, n + 1 =>
    match r.recv (n + 1) with
    | none => none
    | some (.eintr, r') => recvLoop fuel r' (n + 1)
    | some (.error, r') => some (.error, [], r')
    | some (.bytes bs, r') =>
      if bs = [] then some (.eof, [], r')
      else (recvLoop fuel r' (n + 1 - bs.length)).map fun (e, cs, r'') => (e, bs ++ cs, r'')

/-- Every turn of the loop uses up an event or a byte of the `n`, or is the last. -/
def Receiver.recvn (r : Receiver) (n : Nat) : Option (Ending × List UInt8 × Receiver) :=
  r.recvLoop (r.events.length + n + 1) n

/-- What a loop for `n` bytes leaves behind when no call fails: it has read the next `n` bytes, or
all there are before the end of the stream. -/
def Receiver.Reads (r : Receiver) (n : Nat) (res : Option (Ending × List UInt8 × Receiver)) : Prop :=
  ∃ es, .error ∉ es ∧ res =
    if n ≤ r.data.length then some (.full, r.data.take n, ⟨r.data.drop n, r.closed, es⟩)
    else if r.closed then some (.eof, r.data, ⟨[], r.closed, es⟩)
    else none

/-- What a call that returns `got` leaves, besides the data. -/
structure Receiver.Leaves (r : Receiver) (got : Received) (r' : Receiver) : Prop where
  closed : r'.closed = r.closed
  events : r'.events <:+ r.events
  eintr : got = .eintr → r'.events.length < r.events.length
  error : got = .error → .error ∈ r.events
  eof : got = .bytes [] → r.closed = true ∧ r.data = []

theorem Receiver.deliver_leaves {data : List UInt8} {closed : Bool} {es events : List RecvEvent} {k : Nat}
    {got : Received} {r' : Receiver} (hk : 0 < k) (hes : es <:+ events)
    (h : Receiver.deliver ⟨data, closed, es⟩ k = some (got, r')) :
    Receiver.Leaves ⟨data, closed, events⟩ got r' := by
  obtain ⟨hopen, ⟨⟩⟩ := Option.ite_none_left_eq_some.1 h
  refine ⟨rfl, hes, nofun, nofun, fun h => ?_⟩
  have htake : data.take k = [] := Received.bytes.inj h
  have hdata : data = [] := (List.take_eq_nil_iff.1 htake).resolve_left (by omega)
  exact ⟨eq_true_of_ne_false fun hc => hopen ⟨hdata, hc⟩, hdata⟩

theorem Receiver.recv_leaves {r r' : Receiver} {n : Nat} {got : Received} (hn : 0 < n) (h : r.recv n = some (got, r')) :
    r.Leaves got r' := by
  obtain ⟨data, closed, events⟩ := r
  cases events with
  | nil => exact deliver_leaves hn List.suffix_rfl h
  | cons e es =>
    have hes : es <:+ e :: es := List.suffix_cons e es
    cases e with
    | eintr =>
      cases h
      exact ⟨rfl, hes, fun _ => Nat.lt_succ_self _, nofun, nofun⟩
    | error =>
      cases h
      exact ⟨rfl, hes, nofun, fun _ => List.mem_cons_self, nofun⟩
    | chunk k => exact deliver_leaves (by omega) hes h

/-- A call returns when there is something to read or the stream ends. -/
theorem Receiver.recv_isSome {r : Receiver} (n : Nat) (hready : r.closed = true ∨ 0 < r.data.length) :
    (r.recv n).isSome := by
  obtain ⟨data, closed, events⟩ := r
  have hopen : ¬ (data = [] ∧ closed = false) := by
    rintro ⟨rfl, rfl⟩
    simp at hready
  have hdeliver : ∀ (es : List RecvEvent) (k : Nat), (Receiver.deliver ⟨data, closed, es⟩ k).isSome := by
    intro es k
    rw [deliver, if_neg hopen]
    rfl
  cases events with
  | nil => exact hdeliver [] n
  | cons e es =>
    cases e with
    | eintr => rfl
    | error => rfl
    | chunk k => exact hdeliver es (min (k + 1) n)

/-- What a loop for `n` bytes has taken off the stream. -/
structure Receiver.Took (r : Receiver) (n : Nat) (e : Ending) (bs : List UInt8) (r' : Receiver) : Prop where
  data : r.data = bs ++ r'.data
  closed : r'.closed = r.closed
  events : r'.events <:+ r.events
  length : bs.length ≤ n
  full : e = .full ↔ bs.length = n
  error : e = .error → .error ∈ r.events
  eof : e = .eof → r.closed = true ∧ r'.data = []

/-- A call that ends the loop has taken nothing. -/
theorem Receiver.Leaves.took {r r' : Receiver} {got : Received} {n : Nat} {e : Ending} (h : r.Leaves got r')
    (hn : 0 < n) (hdata : r.data = r'.data) (herror : e = .error → got = .error) (heof : e = .eof → got = .bytes [])
    (hfull : e ≠ .full) : r.Took n e [] r' where
  data := hdata
  closed := h.closed
  events := h.events
  length := Nat.zero_le n
  full := iff_of_false hfull (Nat.ne_of_lt hn)
  error := fun he => h.error (herror he)
  eof := fun he => ⟨(h.eof (heof he)).1, hdata ▸ (h.eof (heof he)).2⟩

/-- A call and what the loop takes behind it. -/
theorem Receiver.Leaves.append {r r₁ r' : Receiver} {got : Received} {n : Nat} {e : Ending} {bs cs : List UInt8}
    (h : r.Leaves got r₁) (hdata : r.data = bs ++ r₁.data) (hlen : bs.length ≤ n)
    (hrest : r₁.Took (n - bs.length) e cs r') : r.Took n e (bs ++ cs) r' where
  data := by rw [hdata, hrest.data, List.append_assoc]
  closed := hrest.closed.trans h.closed
  events := hrest.events.trans h.events
  length := by
    have := hrest.length
    rw [List.length_append]
    omega
  full := by
    rw [hrest.full, List.length_append]
    omega
  error := fun he => h.events.subset (hrest.error he)
  eof := fun he => ⟨h.closed ▸ (hrest.eof he).1, (hrest.eof he).2⟩

theorem Receiver.recvLoop_took {fuel : Nat} {r r' : Receiver} {n : Nat} {e : Ending} {bs : List UInt8}
    (h : recvLoop fuel r n = some (e, bs, r')) : r.Took n e bs r' := by
  induction fuel generalizing r n bs with
  | zero => cases h
  | succ fuel ih =>
    cases n with
    | zero =>
      cases h
      exact ⟨rfl, rfl, List.suffix_rfl, le_refl 0, iff_of_true rfl rfl, nofun, nofun⟩
    | succ n =>
      have hn := Nat.succ_pos n
      rw [recvLoop] at h
      split at h
      · cases h
      · -- an interruption
        rename_i r₁ hrecv
        exact (recv_leaves hn hrecv).append (recv_takes hrecv).1 (Nat.zero_le _) (ih h)
      · rename_i r₁ hrecv
        cases h
        exact (recv_leaves hn hrecv).took hn (recv_takes hrecv).1 (fun _ => rfl) nofun nofun
      · rename_i cs r₁ hrecv
        obtain ⟨hdata, hlen⟩ := recv_takes hrecv
        split at h
        · -- the end of the stream
          rename_i hnil
          cases h
          subst hnil
          exact (recv_leaves hn hrecv).took hn hdata nofun (fun _ => rfl) nofun
        · obtain ⟨⟨e', ds, r₂⟩, hloop, he⟩ := Option.map_eq_some_iff.1 h
          cases he
          exact (recv_leaves hn hrecv).append hdata hlen (ih hloop)

/-- The loop ends when there are enough bytes or the stream ends, also when a call fails. -/
theorem Receiver.recvLoop_isSome (fuel : Nat) (r : Receiver) (n : Nat) (hready : r.closed = true ∨ n ≤ r.data.length)
    (hfuel : r.events.length + n < fuel) : (recvLoop fuel r n).isSome := by
  induction fuel generalizing r n with
  | zero => exact absurd hfuel (Nat.not_lt_zero _)
  | succ fuel ih =>
    cases n with
    | zero => rfl
    | succ n =>
      obtain ⟨⟨got, r₁⟩, hrecv⟩ :=
        Option.isSome_iff_exists.1 (r.recv_isSome (n + 1) (hready.imp_right Nat.zero_lt_of_lt))
      obtain ⟨hclosed, hsuffix, hint, -, -⟩ := recv_leaves (Nat.succ_pos n) hrecv
      have hes := hsuffix.length_le
      obtain ⟨hdata, hlen⟩ := recv_takes hrecv
      rw [recvLoop, hrecv]
      cases got with
      | eintr =>
        have hsame : r.data = r₁.data := hdata
        have hless := hint rfl
        refine ih r₁ (n + 1) ?_ (by omega)
        rwa [hclosed, ← hsame]
      | error => rfl
      | bytes bs =>
        have hdata : r.data = bs ++ r₁.data := hdata
        dsimp only
        split
        · rfl
        · rename_i hne
          have hpos := List.length_pos_iff.2 hne
          rw [Option.isSome_map]
          refine ih r₁ (n + 1 - bs.length) ?_ (by omega)
          rw [hclosed]
          refine hready.imp_right fun hn => ?_
          rw [hdata, List.length_append] at hn
          omega

/-- The loop reads its bytes. -/
theorem Receiver.recvLoop_reads (fuel : Nat) (r : Receiver) (n : Nat) (hes : .error ∉ r.events)
    (hfuel : r.events.length + n < fuel) : r.Reads n (recvLoop fuel r n) := by
  cases hloop : recvLoop fuel r n with
  | none =>
    have hstuck : ¬ (r.closed = true ∨ n ≤ r.data.length) := fun hready => by
      have := r.recvLoop_isSome fuel n hready hfuel
      rw [hloop] at this
      cases this
    obtain ⟨hopen, hshort⟩ := not_or.1 hstuck
    exact ⟨r.events, hes, by rw [if_neg hshort, if_neg hopen]⟩
  | some res =>
    obtain ⟨e, bs, data, closed, events⟩ := res
    obtain ⟨hdata, hclosed, hevents, hlen, hfull, herror, heof⟩ := recvLoop_took hloop
    dsimp only at hdata hclosed hevents heof
    refine ⟨events, fun h => hes (hevents.subset h), ?_⟩
    have hlength : r.data.length = bs.length + data.length := by rw [hdata, List.length_append]
    cases e with
    | full =>
      have hbs := hfull.1 rfl
      rw [if_pos (by omega), hdata, List.take_left' hbs, List.drop_left' hbs, hclosed]
    | eof =>
      obtain ⟨hend, rfl⟩ := heof rfl
      have hne : bs.length ≠ n := fun h => by cases hfull.2 h
      rw [List.append_nil] at hdata
      rw [List.length_nil] at hlength
      rw [if_neg (by omega), if_pos hend, hdata, hclosed]
    | error => exact absurd (herror rfl) hes

theorem Receiver.recvn_reads (r : Receiver) (n : Nat) (hes : .error ∉ r.events) : r.Reads n (r.recvn n) :=
  recvLoop_reads _ r n hes (by omega)

/-! ## Sending -/

inductive SendEvent where
  | eintr
  | error
  /-- At most `k` bytes are accepted. -/
  | accept (k : Nat)
  deriving DecidableEq, Repr

/-- The sending end: the bytes it has accepted, and the script. -/
structure Sender where
  sent : List UInt8
  events : List SendEvent
  deriving DecidableEq, Repr

inductive Sent where
  | count (k : Nat)
  | eintr
  | error
  deriving DecidableEq, Repr

/-- `send` of the bytes `bs`. -/
def Sender.send (s : Sender) (bs : List UInt8) : Sent × Sender :=
  match s.events with
  | [] => (.count bs.length, ⟨s.sent ++ bs, []⟩)
  | .eintr :: es => (.eintr, ⟨s.sent, es⟩)
  | .error :: es => (.error, ⟨s.sent, es⟩)
  | .accept k :: es => (.count (min k bs.length), ⟨s.sent ++ bs.take (min k bs.length), es⟩)

end LinuxProgram.Io
