/-
`Readline` of wrap.c. The characters that `my_read` has read ahead are static: they are kept from one
call to the next, and nothing says which descriptor they came from. A `Readline` that finds none of
another descriptor's characters stores the next characters of its own stream, and any other stores
what was read from the other descriptor.
-/
import LinuxProgram.Io.Stream
import LinuxProgram.Machine.Reach
import Mathlib.Tactic

namespace LinuxProgram.Wrap

open LinuxProgram.Io LinuxProgram.Machine

/-! ## The characters read ahead -/

/-- The static data of `my_read`. -/
structure ReadAhead where
  readCnt : Int
  /-- The offset of `read_ptr` in `read_buf`. -/
  readPtr : Nat
  readBuf : List UInt8
  inside : readPtr + readCnt.toNat ≤ readBuf.length

namespace ReadAhead

def zeroed : ReadAhead where
  readCnt := 0
  readPtr := 0
  readBuf := List.replicate 100 0
  inside := Nat.zero_le _

/-- The characters that the next calls return. -/
def unread (b : ReadAhead) : List UInt8 := (b.readBuf.drop b.readPtr).take b.readCnt.toNat

/-- After a `read` that returned `cnt` and wrote nothing. -/
def emptied (b : ReadAhead) (cnt : Int) (h : cnt ≤ 0) : ReadAhead where
  readCnt := cnt
  readPtr := b.readPtr
  readBuf := b.readBuf
  inside := by
    rw [Int.toNat_of_nonpos h]
    exact (Nat.le_add_right _ _).trans b.inside

/-- After a `read` that wrote `bs`. -/
def filled (b : ReadAhead) (bs : List UInt8) : ReadAhead where
  readCnt := bs.length
  readPtr := 0
  readBuf := bs ++ b.readBuf.drop bs.length
  inside := by
    rw [Nat.zero_add, Int.toNat_natCast, List.length_append]
    exact Nat.le_add_right _ _

/-- `*read_ptr`. -/
def char (b : ReadAhead) (h : 0 < b.readCnt) : UInt8 :=
  b.readBuf.get ⟨b.readPtr, by have := b.inside; omega⟩

def advance (b : ReadAhead) (h : 0 < b.readCnt) : ReadAhead where
  readCnt := b.readCnt - 1
  readPtr := b.readPtr + 1
  readBuf := b.readBuf
  inside := by have := b.inside; omega

theorem unread_of_nonpos {b : ReadAhead} (h : b.readCnt ≤ 0) : b.unread = [] := by
  rw [unread, Int.toNat_of_nonpos h, List.take_zero]

theorem unread_filled (b : ReadAhead) (bs : List UInt8) : (b.filled bs).unread = bs := by
  show ((bs ++ b.readBuf.drop bs.length).drop 0).take (bs.length : Int).toNat = bs
  rw [List.drop_zero, Int.toNat_natCast, List.take_left]

theorem unread_advance (b : ReadAhead) (h : 0 < b.readCnt) : b.unread = b.char h :: (b.advance h).unread := by
  have hlt : b.readPtr < b.readBuf.length := by
    have := b.inside
    omega
  have hcnt : b.readCnt.toNat = (b.readCnt - 1).toNat + 1 := by omega
  show (b.readBuf.drop b.readPtr).take b.readCnt.toNat = _
  rw [List.drop_eq_getElem_cons hlt, hcnt, List.take_succ_cons]
  rfl

end ReadAhead

/-! ## The code -/

/-- The process: the static data, the open descriptors, and two records of what happened. -/
structure Process (Fd : Type) where
  ahead : ReadAhead
  files : Fd → Receiver
  /-- The descriptor of the last `read` that filled `read_buf`. -/
  source : Option Fd
  /-- What the `Readline` calls on a descriptor have stored, each character with its source. -/
  stored : Fd → List (Option Fd × UInt8)

/-- What `my_read` returns: 1 and a character, 0 or -1. -/
inductive Rc where
  | char (c : UInt8)
  | eof
  | error
  deriving DecidableEq, Repr

def Rc.chars : Rc → List UInt8
  | .char c => [c]
  | .eof | .error => []

/-- A `Readline` call: its return value, the characters it stored, and whether it wrote the
terminator behind them. -/
structure Line (Fd : Type) where
  ret : Int
  stored : List (Option Fd × UInt8)
  terminated : Bool
  deriving DecidableEq

variable {Fd : Type} [DecidableEq Fd]

def myRead (fd : Fd) (p : Process Fd) : Option (Rc × Process Fd) :=
  if h : 0 < p.ahead.readCnt then
    some (.char (p.ahead.char h), { p with ahead := p.ahead.advance h })
  else
    match Receiver.recvAgain (p.files fd).data (p.files fd).closed 100 (p.files fd).events with
    | none => none
    | some (none, r) =>
      some (.error, { p with ahead := p.ahead.emptied (-1) (by decide), files := Function.update p.files fd r })
    | some (some [], r) =>
      some (.eof, { p with ahead := p.ahead.emptied 0 (by decide), files := Function.update p.files fd r })
    | some (some (c :: cs), r) =>
      have hpos : 0 < (p.ahead.filled (c :: cs)).readCnt := Int.natCast_pos.2 (Nat.succ_pos _)
      some (.char ((p.ahead.filled (c :: cs)).char hpos), { p with
        ahead := (p.ahead.filled (c :: cs)).advance hpos, files := Function.update p.files fd r, source := some fd })

/-- The loop for the `n`-th character, when `k` turns are left. -/
def readlineLoop (fd : Fd) : Nat → Nat → Process Fd → Option (Line Fd × Process Fd)
  | 0, n, p => some (⟨n, [], true⟩, p)
  | k + 1, n, p =>
    match myRead fd p with
    | none => none
    | some (.char c, p') =>
      if c = 10 then some (⟨n, [(p'.source, c)], true⟩, p')
      else (readlineLoop fd k (n + 1) p').map fun (line, q) =>
        ({ line with stored := (p'.source, c) :: line.stored }, q)
    | some (.eof, p') => some (⟨n - 1, [], true⟩, p')
    | some (.error, p') => some (⟨-1, [], false⟩, p')

/-- `Readline(fd, vptr, maxlen)`: `n` runs from 1 to below `maxlen`. -/
def readline (fd : Fd) (maxlen : Nat) (p : Process Fd) : Option (Line Fd × Process Fd) :=
  readlineLoop fd (maxlen - 1) 1 p

/-- The arguments of a `Readline` call. -/
structure Call (Fd : Type) where
  fd : Fd
  maxlen : Nat

/-- One `Readline` call after another. -/
def step (p : Process Fd) (c : Call Fd) : Option (Process Fd) :=
  (readline c.fd c.maxlen p).map fun (line, p') =>
    { p' with stored := Function.update p'.stored c.fd (p'.stored c.fd ++ line.stored) }

/-- A process that has not called `Readline` yet. -/
def start (files : Fd → Receiver) : Process Fd where
  ahead := .zeroed
  files := files
  source := none
  stored := fun _ => []

/-! ## One call -/

/-- The characters of `fd` that no `Readline` has stored: those read ahead and those still to be read. -/
def Process.rest (p : Process Fd) (fd : Fd) : List UInt8 :=
  (if p.source = some fd then p.ahead.unread else []) ++ (p.files fd).data

/-- Nothing is read ahead but characters of `fd`. -/
def Process.Own (p : Process Fd) (fd : Fd) : Prop := 0 < p.ahead.readCnt → p.source = some fd

/-- From `p` to `p'` the characters `bs` have been taken off the stream of `fd`, and nothing else. -/
structure Takes (fd : Fd) (bs : List UInt8) (p p' : Process Fd) : Prop where
  own : p'.Own fd
  rest : p.rest fd = bs ++ p'.rest fd
  other : ∀ {fd'}, fd' ≠ fd → p'.rest fd' = p.rest fd'
  stored : p'.stored = p.stored

variable {fd : Fd} {p p' : Process Fd}

theorem Takes.none (h : p.Own fd) : Takes fd [] p p := ⟨h, rfl, fun _ => rfl, rfl⟩

theorem Takes.trans {bs cs : List UInt8} {q : Process Fd} (h : Takes fd bs p p') (h' : Takes fd cs p' q) :
    Takes fd (bs ++ cs) p q where
  own := h'.own
  rest := by rw [h.rest, h'.rest, List.append_assoc]
  other hne := (h'.other hne).trans (h.other hne)
  stored := h'.stored.trans h.stored

/-- The characters of the others when none are read ahead, or only those of `fd`. -/
theorem Process.rest_other {fd' : Fd} (hne : fd' ≠ fd) (h : p.ahead.unread = [] ∨ p.source = some fd) :
    p.rest fd' = (p.files fd').data := by
  unfold Process.rest
  rcases h with h | h
  · rw [h, ite_self, List.nil_append]
  · rw [if_neg, List.nil_append]
    rw [h, Option.some.injEq]
    exact hne.symm

theorem Process.rest_of_empty (h : p.ahead.unread = []) (fd : Fd) : p.rest fd = (p.files fd).data := by
  rw [Process.rest, h, ite_self, List.nil_append]

/-- A `read` from `fd`, when nothing was read ahead. -/
theorem Takes.read {bs : List UInt8} {r : Receiver} (hnil : p.ahead.unread = [])
    (hfiles : p'.files = Function.update p.files fd r) (hahead : p'.ahead.readCnt ≤ 0 ∨ p'.source = some fd)
    (hrest : (p.files fd).data = bs ++ p'.rest fd) (hstored : p'.stored = p.stored) : Takes fd bs p p' where
  own hpos := hahead.resolve_left (not_le.2 hpos)
  rest := (Process.rest_of_empty hnil fd).trans hrest
  other := by
    intro fd' hne
    rw [Process.rest_other hne (hahead.imp_left ReadAhead.unread_of_nonpos), Process.rest_of_empty hnil, hfiles,
      Function.update_of_ne hne]
  stored := hstored

/-- A `read` that wrote nothing. -/
theorem Takes.readNothing {r : Receiver} {cnt : Int} (hnil : p.ahead.unread = []) (hcnt : cnt ≤ 0)
    (hdata : (p.files fd).data = r.data) :
    Takes fd [] p { p with ahead := p.ahead.emptied cnt hcnt, files := Function.update p.files fd r } := by
  refine .read hnil rfl (.inl hcnt) ?_ rfl
  rw [Process.rest_of_empty (ReadAhead.unread_of_nonpos hcnt), List.nil_append]
  show _ = (Function.update p.files fd r fd).data
  rw [Function.update_self, hdata]

/-- A `my_read` that finds no characters of another descriptor takes the next character of its own. -/
theorem myRead_takes {rc : Rc} (hown : p.Own fd) (h : myRead fd p = some (rc, p')) :
    Takes fd rc.chars p p' ∧ ∀ c, rc = .char c → p'.source = some fd := by
  unfold myRead at h
  split at h
  · rename_i hpos
    cases h
    have hsrc := hown hpos
    refine ⟨⟨fun _ => hsrc, ?_, fun hne => ?_, rfl⟩, fun _ _ => hsrc⟩
    · show (if p.source = some fd then _ else _) ++ _ = _ ++ ((if p.source = some fd then _ else _) ++ _)
      rw [if_pos hsrc, if_pos hsrc, p.ahead.unread_advance hpos]
      rfl
    · rw [@Process.rest_other _ _ _ p _ hne (.inr hsrc)]
      exact Process.rest_other hne (.inr hsrc)
  · rename_i hpos
    have hnil : p.ahead.unread = [] := ReadAhead.unread_of_nonpos (not_lt.1 hpos)
    split at h
    · cases h
    · rename_i r hr
      cases h
      exact ⟨.readNothing hnil _ (Receiver.recvAgain_takes hr).1, by simp⟩
    · rename_i r hr
      cases h
      exact ⟨.readNothing hnil _ (Receiver.recvAgain_takes hr).1, by simp⟩
    · rename_i c cs r hr
      cases h
      refine ⟨.read hnil rfl (.inr rfl) ?_ rfl, fun _ _ => rfl⟩
      rw [(Receiver.recvAgain_takes hr).1, Process.rest, if_pos rfl, ← List.append_assoc]
      show _ = _ ++ (Function.update p.files fd r fd).data
      rw [Function.update_self]
      refine congrArg (· ++ r.data) ?_
      exact (p.ahead.unread_filled (c :: cs)).symm.trans (ReadAhead.unread_advance _ _)

/-- A character that was read ahead, whoever it was read from. -/
theorem myRead_ahead {rc : Rc} (hpos : 0 < p.ahead.readCnt) (h : myRead fd p = some (rc, p')) :
    (∃ c, rc = .char c) ∧ p'.source = p.source ∧ p'.stored = p.stored := by
  rw [myRead, dif_pos hpos] at h
  cases h
  exact ⟨⟨_, rfl⟩, rfl, rfl⟩

/-- The characters that a `Readline` stores are the next ones of its own stream. -/
theorem readlineLoop_takes {k n : Nat} {line : Line Fd} (hown : p.Own fd)
    (h : readlineLoop fd k n p = some (line, p')) :
    Takes fd (line.stored.map Prod.snd) p p' ∧ ∀ x ∈ line.stored, x.1 = some fd := by
  induction k generalizing n line p with
  | zero =>
    cases h
    exact ⟨.none hown, by simp⟩
  | succ k ih =>
    simp only [readlineLoop] at h
    split at h
    · cases h
    · rename_i c q hread
      obtain ⟨htakes, hsrc⟩ := myRead_takes hown hread
      have hsrc := hsrc c rfl
      split at h
      · cases h
        exact ⟨htakes, by simpa using hsrc⟩
      · obtain ⟨⟨line', q'⟩, hloop, he⟩ := Option.map_eq_some_iff.1 h
        cases he
        obtain ⟨htakes', htags⟩ := ih htakes.own hloop
        exact ⟨htakes.trans htakes', List.forall_mem_cons.2 ⟨hsrc, htags⟩⟩
    · rename_i q hread
      cases h
      exact ⟨(myRead_takes hown hread).1, by simp⟩
    · rename_i q hread
      cases h
      exact ⟨(myRead_takes hown hread).1, by simp⟩

/-! ## The runs -/

/-- What the calls on a descriptor have stored was read from it, and is the beginning of its stream. -/
def Apart (files : Fd → Receiver) (p : Process Fd) : Prop :=
  ∀ fd, (∀ x ∈ p.stored fd, x.1 = some fd) ∧ (p.stored fd).map Prod.snd <+: (files fd).data

/-- The call finds no characters that were read ahead from another descriptor; with a `maxlen` below 2
it does not look. -/
def ReadsOwn (p : Process Fd) (c : Call Fd) : Prop := 2 ≤ c.maxlen → p.Own c.fd

/-- Stored characters and characters to come make up the streams. -/
def Divided (files : Fd → Receiver) (p : Process Fd) : Prop :=
  ∀ fd, (∀ x ∈ p.stored fd, x.1 = some fd) ∧ (files fd).data = (p.stored fd).map Prod.snd ++ p.rest fd

variable {files : Fd → Receiver}

theorem Divided.apart (h : Divided files p) : Apart files p :=
  fun fd => ⟨(h fd).1, by rw [(h fd).2]; exact List.prefix_append _ _⟩

theorem divided_start (files : Fd → Receiver) : Divided files (start files) := by
  intro fd
  refine ⟨by simp [start], ?_⟩
  rw [Process.rest_of_empty (ReadAhead.unread_of_nonpos (le_refl 0))]
  rfl

/-- A call that finds no characters of another descriptor. -/
theorem Divided.call {c : Call Fd} (hok : ReadsOwn p c) (h : Divided files p) (hs : step p c = some p') :
    Divided files p' := by
  obtain ⟨⟨line, q⟩, hread, rfl⟩ := Option.map_eq_some_iff.1 hs
  unfold readline at hread
  by_cases hlen : 2 ≤ c.maxlen
  · obtain ⟨htakes, htags⟩ := readlineLoop_takes (hok hlen) hread
    intro fd
    obtain ⟨hmem, hdata⟩ := h fd
    by_cases hfd : fd = c.fd
    · subst hfd
      show (∀ x ∈ Function.update q.stored c.fd _ c.fd, _) ∧
        _ = (Function.update q.stored c.fd _ c.fd).map _ ++ q.rest c.fd
      rw [Function.update_self, htakes.stored, hdata, htakes.rest, List.map_append, List.append_assoc]
      exact ⟨List.forall_mem_append.2 ⟨hmem, htags⟩, rfl⟩
    · show (∀ x ∈ Function.update q.stored c.fd _ fd, _) ∧ _ = (Function.update q.stored c.fd _ fd).map _ ++ q.rest fd
      rw [Function.update_of_ne hfd, htakes.stored, htakes.other hfd]
      exact ⟨hmem, hdata⟩
  · -- the loop does not turn
    rw [show c.maxlen - 1 = 0 by omega] at hread
    cases hread
    show Divided files { p with stored := Function.update p.stored c.fd (p.stored c.fd ++ []) }
    rw [List.append_nil, Function.update_eq_self]
    exact h

/-- A call that finds characters of another descriptor stores the first of them. -/
theorem mixed_of_ahead {c : Call Fd} (hok : ¬ ReadsOwn p c) (hs : step p c = some p') : ¬ Apart files p' := by
  obtain ⟨hlen, hown⟩ := Classical.not_imp.1 hok
  obtain ⟨hpos, hsrc⟩ := Classical.not_imp.1 hown
  obtain ⟨⟨line, q⟩, hread, rfl⟩ := Option.map_eq_some_iff.1 hs
  rw [readline, show c.maxlen - 1 = c.maxlen - 2 + 1 by omega, readlineLoop] at hread
  have hfirst : ∃ ch, (p.source, ch) ∈ line.stored := by
    split at hread
    · cases hread
    · rename_i ch q' hmy
      obtain ⟨-, hsame, -⟩ := myRead_ahead hpos hmy
      refine ⟨ch, ?_⟩
      rw [← hsame]
      split at hread
      · cases hread
        exact List.mem_singleton_self _
      · obtain ⟨⟨line', r⟩, -, he⟩ := Option.map_eq_some_iff.1 hread
        cases he
        exact List.mem_cons_self
    · rename_i q' hmy
      obtain ⟨⟨ch, hrc⟩, -⟩ := myRead_ahead hpos hmy
      cases hrc
    · rename_i q' hmy
      obtain ⟨⟨ch, hrc⟩, -⟩ := myRead_ahead hpos hmy
      cases hrc
  obtain ⟨ch, hmem⟩ := hfirst
  intro hap
  refine hsrc ((hap c.fd).1 (p.source, ch) ?_)
  show _ ∈ Function.update q.stored c.fd _ c.fd
  rw [Function.update_self]
  exact List.mem_append_right _ hmem

/-- `Readline` keeps the descriptors apart exactly in the runs in which no call finds characters that
were read ahead from another descriptor. -/
theorem readline_apart_exact (files : Fd → Receiver) : ExactFor step ReadsOwn (Apart files) (start files) where
  safe p h := by
    have hdiv : Divided files p := ReachWith.invariant h (fun _ _ => trivial) (divided_start files)
      fun u a u' _ hI hok hs => hI.call hok hs
    exact hdiv.apart
  needed t a u _ hs hok := ⟨u, Reach.refl u, mixed_of_ahead hok hs⟩

/-! ## Two descriptors -/

def twoFiles : Bool → Receiver
  | false => ⟨[97, 10, 98, 10], true, []⟩
  | true => ⟨[120, 10], true, []⟩

/-- The second line of the first stream goes to the call on the other descriptor. -/
theorem line_of_other_descriptor : ¬ ∀ (files : Bool → Receiver) (p : Process Bool), Reach step (start files) p →
    Apart files p := by
  intro h
  have hap := h twoFiles _ (reach_after (start twoFiles) [⟨false, 100⟩, ⟨true, 100⟩])
  have hmem : (some false, 98) ∈ (after step (start twoFiles) [⟨false, 100⟩, ⟨true, 100⟩]).stored true := by
    decide +kernel
  cases (hap true).1 _ hmem

end LinuxProgram.Wrap
