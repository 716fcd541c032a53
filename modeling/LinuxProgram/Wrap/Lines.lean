/-
What `Readline` of wrap.c makes of one stream. Successive calls cut it into its lines, with longer lines in
pieces of what a call may store. The value returned is the number of characters stored, except when a call
stops at its limit: there the counter has reached the limit and is returned, one more than was stored.
-/
import LinuxProgram.Wrap.Readline

namespace LinuxProgram.Wrap

open LinuxProgram.Io LinuxProgram.Machine

variable {Fd : Type}

/-! ## What a process can read -/

/-- The characters that the calls of `read` deliver before one of them fails. -/
def untilError : List RecvEvent → List UInt8 → List UInt8
  | [], data => data
  | .eintr :: es, data => untilError es data
  | .error :: _, _ => []
  | .chunk k :: es, data => data.take (min (k + 1) 100) ++ untilError es (data.drop (min (k + 1) 100))

/-- The stream as `Readline` finds it: what was read ahead, whoever it was read from, and what is to be read. -/
def Process.stream (p : Process Fd) (fd : Fd) : List UInt8 := p.ahead.unread ++ (p.files fd).data

/-- The part of the stream that comes before an error. -/
def Process.readable (p : Process Fd) (fd : Fd) : List UInt8 :=
  p.ahead.unread ++ untilError (p.files fd).events (p.files fd).data

/-- The stream ends, and no call of `read` fails. -/
def Process.Ends (p : Process Fd) (fd : Fd) : Prop := (p.files fd).closed = true ∧ .error ∉ (p.files fd).events

/-! ## One read -/

section

variable {data : List UInt8} {closed : Bool} {events : List RecvEvent}

theorem untilError_nil (es : List RecvEvent) : untilError es [] = [] := by
  induction es with
  | nil => rfl
  | cons e es ih =>
    cases e with
    | eintr => exact ih
    | error => rfl
    | chunk k =>
      rw [untilError, List.take_nil, List.drop_nil, ih]
      rfl

theorem deliver_again {es : List RecvEvent} {k : Nat} (hk : 0 < k) :
    (Receiver.deliver ⟨data, closed, es⟩ k = none ∧ data = [] ∧ closed = false) ∨
    (Receiver.deliver ⟨data, closed, es⟩ k = some (.bytes [], ⟨[], closed, es⟩) ∧ data = []) ∨
    (data.take k ≠ [] ∧
      Receiver.deliver ⟨data, closed, es⟩ k = some (.bytes (data.take k), ⟨data.drop k, closed, es⟩)) := by
  unfold Receiver.deliver
  cases data with
  | nil =>
    cases closed with
    | false => exact .inl ⟨rfl, rfl, rfl⟩
    | true =>
      refine .inr (.inl ⟨?_, rfl⟩)
      rw [if_neg (by simp), List.take_nil, List.drop_nil]
  | cons c cs =>
    refine .inr (.inr ⟨by simp; omega, if_neg (by simp)⟩)

/-- What the calls of `read` come to: they wait, one fails, the stream is at its end, or characters come. -/
theorem recvAgain_cases :
    (Receiver.recvAgain data closed 100 events = none ∧ data = [] ∧ closed = false) ∨
    (∃ r, Receiver.recvAgain data closed 100 events = some (none, r) ∧ .error ∈ events ∧ untilError events data = []) ∨
    (∃ r, Receiver.recvAgain data closed 100 events = some (some [], r) ∧ data = [] ∧ r.data = [] ∧ r.closed = closed ∧
      r.events ⊆ events) ∨
    ∃ bs r, bs ≠ [] ∧ Receiver.recvAgain data closed 100 events = some (some bs, r) ∧ data = bs ++ r.data ∧
      untilError events data = bs ++ untilError r.events r.data ∧ r.closed = closed ∧ r.events ⊆ events := by
  induction events with
  | nil =>
    have hrecv : Receiver.recvAgain data closed 100 [] =
      (Receiver.deliver ⟨data, closed, []⟩ 100).map fun x => (x.1.bytes?, x.2) := rfl
    rw [hrecv]
    rcases @deliver_again data closed [] 100 (by decide) with ⟨h, hdata, hclosed⟩ | ⟨h, hdata⟩ | ⟨hne, h⟩
    · rw [h]
      exact .inl ⟨rfl, hdata, hclosed⟩
    · rw [h]
      exact .inr (.inr (.inl ⟨_, rfl, hdata, rfl, rfl, List.Subset.refl _⟩))
    · rw [h]
      exact .inr
        (.inr (.inr ⟨_, _, hne, rfl, (List.take_append_drop 100 data).symm, (List.take_append_drop 100 data).symm,
        rfl, List.Subset.refl _⟩))
  | cons e es ih =>
    cases e with
    | eintr =>
      rcases ih with
        h | ⟨r, h, hmem, hend⟩ | ⟨r, h, hdata, hr, hclosed, hsub⟩ | ⟨bs, r, hne, h, hdata, hend, hclosed, hsub⟩
      · exact .inl h
      · exact .inr (.inl ⟨r, h, List.mem_cons_of_mem _ hmem, hend⟩)
      · exact .inr (.inr (.inl ⟨r, h, hdata, hr, hclosed, List.subset_cons_of_subset _ hsub⟩))
      · exact .inr (.inr (.inr ⟨bs, r, hne, h, hdata, hend, hclosed, List.subset_cons_of_subset _ hsub⟩))
    | error => exact .inr (.inl ⟨_, rfl, List.mem_cons_self, rfl⟩)
    | chunk k =>
      have hrecv : Receiver.recvAgain data closed 100 (.chunk k :: es) =
        (Receiver.deliver ⟨data, closed, es⟩ (min (k + 1) 100)).map fun x => (x.1.bytes?, x.2) := rfl
      rw [hrecv]
      rcases @deliver_again data closed es (min (k + 1) 100) (by omega) with ⟨h, hdata, hclosed⟩ | ⟨h, hdata⟩ | ⟨hne, h⟩
      · rw [h]
        exact .inl ⟨rfl, hdata, hclosed⟩
      · rw [h]
        exact .inr (.inr (.inl ⟨_, rfl, hdata, rfl, rfl, List.subset_cons_self _ _⟩))
      · rw [h]
        exact .inr
          (.inr (.inr ⟨_, _, hne, rfl, (List.take_append_drop _ data).symm, rfl, rfl, List.subset_cons_self _ _⟩))

end

/-! ## One character -/

variable {fd : Fd} {p p' : Process Fd}

/-- The stream of `fd` is no nearer to an error. -/
def Process.Follows (p p' : Process Fd) (fd : Fd) : Prop :=
  (p'.files fd).closed = (p.files fd).closed ∧ (p'.files fd).events ⊆ (p.files fd).events

theorem Process.Follows.refl (p : Process Fd) (fd : Fd) : p.Follows p fd := ⟨rfl, List.Subset.refl _⟩

theorem Process.Follows.trans {q : Process Fd} (h : p.Follows p' fd) (h' : p'.Follows q fd) : p.Follows q fd :=
  ⟨h'.1.trans h.1, List.Subset.trans h'.2 h.2⟩

theorem Process.Ends.follow (h : p.Ends fd) (hf : p.Follows p' fd) : p'.Ends fd :=
  ⟨hf.1.trans h.1, fun he => h.2 (hf.2 he)⟩

variable [DecidableEq Fd]

/-- What `my_read` comes to: it waits, it fails, the stream is at its end, or it returns the next character. -/
theorem myRead_cases (fd : Fd) (p : Process Fd) :
    (myRead fd p = none ∧ p.readable fd = [] ∧ ¬ p.Ends fd) ∨
    (∃ p', myRead fd p = some (.error, p') ∧ p.readable fd = [] ∧ p.stream fd = p'.stream fd ∧ ¬ p.Ends fd) ∨
    (∃ p', myRead fd p = some (.eof, p') ∧ p.readable fd = [] ∧ p.stream fd = [] ∧ p'.stream fd = [] ∧
      p.Follows p' fd) ∨
    ∃ c p', myRead fd p = some (.char c, p') ∧ p.stream fd = c :: p'.stream fd ∧
      p.readable fd = c :: p'.readable fd ∧ p.Follows p' fd := by
  unfold myRead
  by_cases hpos : 0 < p.ahead.readCnt
  · -- a character that was read ahead
    rw [dif_pos hpos]
    refine .inr (.inr (.inr ⟨_, _, rfl, ?_, ?_, .refl p fd⟩))
    · rw [Process.stream, p.ahead.unread_advance hpos]
      rfl
    · rw [Process.readable, p.ahead.unread_advance hpos]
      rfl
  · have hnil : p.ahead.unread = [] := ReadAhead.unread_of_nonpos (not_lt.1 hpos)
    rw [dif_neg hpos]
    unfold Process.stream Process.readable
    rw [hnil, List.nil_append, List.nil_append]
    rcases @recvAgain_cases (p.files fd).data (p.files fd).closed (p.files fd).events with ⟨h, hdata, hclosed⟩ |
      ⟨r, h, hmem, hend⟩ | ⟨r, h, hdata, hr, hclosed, hsub⟩ | ⟨bs, r, hne, h, hdata, hend, hclosed, hsub⟩
    · -- the call waits, so the stream has no end
      refine .inl ⟨by rw [h], by rw [hdata, untilError_nil], ?_⟩
      rintro ⟨hc, -⟩
      rw [hclosed] at hc
      cases hc
    · -- an error, which leaves nothing read ahead
      refine .inr (.inl ⟨_, by rw [h], hend, ?_, fun he => he.2 hmem⟩)
      show _ = (p.ahead.emptied (-1) (by decide)).unread ++ (Function.update p.files fd r fd).data
      rw [Function.update_self, ReadAhead.unread_of_nonpos (show (-1 : Int) ≤ 0 by decide),
        (Receiver.recvAgain_takes h).1]
      rfl
    · -- the end of the stream
      refine .inr (.inr (.inl ⟨_, by rw [h], ?_, hdata, ?_, ?_⟩))
      · rw [hdata, untilError_nil]
      · show (p.ahead.emptied 0 (le_refl 0)).unread ++ (Function.update p.files fd r fd).data = []
        rw [Function.update_self, hr, List.append_nil]
        exact ReadAhead.unread_of_nonpos (le_refl 0)
      · show (Function.update p.files fd r fd).closed = _ ∧ (Function.update p.files fd r fd).events ⊆ _
        rw [Function.update_self]
        exact ⟨hclosed, hsub⟩
    · -- the first of the characters that came; the others are read ahead
      obtain ⟨c, cs, rfl⟩ := List.exists_cons_of_ne_nil hne
      have hahead : ∀ hpos,
        c :: cs = (p.ahead.filled (c :: cs)).char hpos :: ((p.ahead.filled (c :: cs)).advance hpos).unread :=
        fun hpos => (p.ahead.unread_filled (c :: cs)).symm.trans (ReadAhead.unread_advance _ hpos)
      refine .inr (.inr (.inr ⟨_, _, by rw [h], ?_, ?_, ?_⟩))
      · show _ = _ :: (_ ++ (Function.update p.files fd r fd).data)
        rw [Function.update_self, hdata, ← List.cons_append]
        exact congrArg (· ++ r.data) (hahead _)
      · show _ = _ :: (_ ++ untilError (Function.update p.files fd r fd).events (Function.update p.files fd r fd).data)
        rw [Function.update_self, hend, ← List.cons_append]
        exact congrArg (· ++ untilError r.events r.data) (hahead _)
      · show (Function.update p.files fd r fd).closed = _ ∧ (Function.update p.files fd r fd).events ⊆ _
        rw [Function.update_self]
        exact ⟨hclosed, hsub⟩

/-! ## One line -/

/-- The characters that the call stored. -/
def Line.chars (line : Line Fd) : List UInt8 := line.stored.map Prod.snd

/-- How the loop for the `n`-th character stops within `k` turns, with the characters `bs` stored; `readable` is what
could be read, and `rest` what is left of the stream. -/
inductive Stops (k n : Nat) (bs readable rest : List UInt8) (ret : Int) (terminated : Bool) : Prop where
  | newline {cs : List UInt8} (hlen : bs.length ≤ k) (hbs : bs = cs ++ [10]) (hcs : 10 ∉ cs)
      (hret : ret + 1 = n + bs.length)
      (hterm : terminated = true)
  | limit (hlen : bs.length = k) (hbs : 10 ∉ bs) (hret : ret = n + bs.length) (hterm : terminated = true)
  | eof (hlen : bs.length < k) (hbs : 10 ∉ bs) (hreadable : readable = bs) (hrest : rest = [])
      (hret : ret + 1 = n + bs.length) (hterm : terminated = true)
  | error (hlen : bs.length < k) (hreadable : readable = bs) (hret : ret = -1)

/-- A character before the others. -/
theorem Stops.cons {k n : Nat} {c : UInt8} {bs readable rest : List UInt8} {ret : Int} {terminated : Bool} (hc : c ≠ 10)
    (h : Stops k (n + 1) bs readable rest ret terminated) :
    Stops (k + 1) n (c :: bs) (c :: readable) rest ret terminated := by
  have hlength : (c :: bs).length = bs.length + 1 := List.length_cons
  have hmem : ∀ {cs}, 10 ∉ cs → 10 ∉ c :: cs := by
    intro cs hcs
    rw [List.mem_cons, not_or]
    exact ⟨Ne.symm hc, hcs⟩
  cases h with
  | newline hlen hbs hcs hret hterm =>
    exact .newline (by omega) (by rw [hbs, List.cons_append]) (hmem hcs) (by omega) hterm
  | limit hlen hbs hret hterm => exact .limit (by omega) (hmem hbs) (by omega) hterm
  | eof hlen hbs hreadable hrest hret hterm =>
    exact .eof (by omega) (hmem hbs) (by rw [hreadable]) hrest (by omega) hterm
  | error hlen hreadable hret => exact .error (by omega) (by rw [hreadable]) hret

/-- What a call leaves behind. -/
structure Cuts (fd : Fd) (k n : Nat) (p : Process Fd) (line : Line Fd) (p' : Process Fd) : Prop where
  stream : p.stream fd = line.chars ++ p'.stream fd
  readable : line.chars <+: p.readable fd
  stops : Stops k n line.chars (p.readable fd) (p'.stream fd) line.ret line.terminated
  ends : p.Ends fd → p'.Ends fd ∧ line.ret ≠ -1

/-- The loop waits only when less than it asks for can be read, and never for a stream that ends. -/
theorem readlineLoop_cases (fd : Fd) (k n : Nat) (p : Process Fd) (hn : 1 ≤ n) :
    (readlineLoop fd k n p = none ∧ (p.readable fd).length < k ∧ ¬ p.Ends fd) ∨
    ∃ line p', readlineLoop fd k n p = some (line, p') ∧ Cuts fd k n p line p' := by
  induction k generalizing n p with
  | zero =>
    refine .inr ⟨⟨n, [], true⟩, p, rfl, rfl, List.nil_prefix, .limit rfl List.not_mem_nil (by simp [Line.chars]) rfl,
      fun h => ⟨h, ?_⟩⟩
    show (n : Int) ≠ -1
    omega
  | succ k ih =>
    rw [readlineLoop]
    rcases myRead_cases fd p with ⟨h, hread, hends⟩ | ⟨p', h, hread, hstream, hends⟩ | ⟨p', h, hread, hnil, hnil', hf⟩ |
      ⟨c, p', h, hstream, hread, hf⟩
    · refine .inl ⟨by rw [h], ?_, hends⟩
      rw [hread]
      exact Nat.succ_pos k
    · refine .inr ⟨⟨-1, [], false⟩, p', by rw [h], hstream, List.nil_prefix, .error (Nat.succ_pos k) hread rfl,
        fun he => absurd he hends⟩
    · refine .inr ⟨⟨n - 1, [], true⟩, p', by rw [h], ?_, List.nil_prefix,
        .eof (Nat.succ_pos k) List.not_mem_nil hread hnil' ?_ rfl, ?_⟩
      · rw [hnil, hnil']
        rfl
      · show (n : Int) - 1 + 1 = n + 0
        omega
      · intro he
        refine ⟨he.follow hf, ?_⟩
        show (n : Int) - 1 ≠ -1
        omega
    · rw [h]
      dsimp only
      split
      · -- the newline is the last character of the line
        rename_i hc
        subst hc
        refine .inr ⟨⟨n, [(p'.source, 10)], true⟩, p', rfl, hstream, ?_,
          .newline (Nat.le_add_left 1 k) (List.nil_append [10]).symm List.not_mem_nil ?_ rfl, ?_⟩
        · rw [hread]
          exact ⟨_, rfl⟩
        · rfl
        · intro he
          refine ⟨he.follow hf, ?_⟩
          show (n : Int) ≠ -1
          omega
      · rename_i hc
        rcases ih (n + 1) p' (Nat.le_succ_of_le hn) with ⟨hnone, hlen, hends⟩ | ⟨line, q, hsome, hcuts⟩
        · refine .inl ⟨by rw [hnone]; rfl, ?_, fun he => hends (he.follow hf)⟩
          rw [hread, List.length_cons]
          omega
        · refine .inr ⟨{ line with stored := (p'.source, c) :: line.stored }, q, by rw [hsome]; rfl, ?_, ?_, ?_,
            fun he => hcuts.ends (he.follow hf)⟩
          · rw [hstream, hcuts.stream]
            rfl
          · rw [hread]
            exact List.cons_prefix_cons.2 ⟨rfl, hcuts.readable⟩
          · rw [hread]
            exact hcuts.stops.cons hc

/-! ## The value returned -/

variable {line : Line Fd}

/-- The cells from `vptr` on that the call wrote. -/
def Line.cells (line : Line Fd) : List UInt8 := line.chars ++ if line.terminated then [0] else []

/-- The value returned is the number of characters in front of the terminator, and these are the next of the stream. -/
def CountsStored (maxlen : Nat) (stream : List UInt8) (line : Line Fd) : Prop :=
  ∃ k : Nat, line.ret = k ∧ k ≤ maxlen - 1 ∧ line.cells.length = k + 1 ∧ line.cells[k]? = some 0 ∧
    line.cells.take k <+: stream

/-- As many characters as a call may store can be read, and none of them is a newline. -/
def AtLimit (p : Process Fd) (fd : Fd) (maxlen : Nat) : Prop :=
  maxlen - 1 ≤ (p.readable fd).length ∧ 10 ∉ (p.readable fd).take (maxlen - 1)

omit [DecidableEq Fd] in
theorem countsStored_of {maxlen : Nat} {stream : List UInt8} (hterm : line.terminated = true)
    (hret : line.ret + 1 = 1 + line.chars.length) (hlen : line.chars.length ≤ maxlen - 1)
    (hstream : line.chars <+: stream) : CountsStored maxlen stream line := by
  refine ⟨line.chars.length, by omega, hlen, ?_, ?_, ?_⟩
  · rw [Line.cells, hterm, List.length_append]
    rfl
  · rw [Line.cells, hterm, List.getElem?_append_right (le_refl _), Nat.sub_self]
    rfl
  · rw [Line.cells, List.take_left]
    exact hstream

/-- A call counts the characters that it stores exactly when it does not stop at its limit. -/
theorem readline_count_exact (fd : Fd) (p : Process Fd) (maxlen : Nat) :
    (∀ line p', readline fd maxlen p = some (line, p') → line.ret ≠ -1 → CountsStored maxlen (p.stream fd) line) ↔
      ¬ AtLimit p fd maxlen := by
  have hcases := readlineLoop_cases fd (maxlen - 1) 1 p (le_refl 1)
  constructor
  · rintro h ⟨hlen, hnone⟩
    rcases hcases with ⟨-, hshort, -⟩ | ⟨line, p', hsome, hcuts⟩
    · omega
    · cases hcuts.stops with
      | @newline cs hbound hbs hcs hret hterm =>
        have hpre : line.chars <+: (p.readable fd).take (maxlen - 1) :=
          List.prefix_take_iff.2 ⟨hcuts.readable, hbound⟩
        refine hnone (hpre.subset ?_)
        rw [hbs]
        exact List.mem_append_right _ (List.mem_singleton_self 10)
      | limit hbound hbs hret hterm =>
        obtain ⟨k, hk, hle, -⟩ := h line p' hsome (by omega)
        omega
      | eof hbound hbs hreadable hrest hret hterm =>
        rw [hreadable] at hlen
        omega
      | error hbound hreadable hret =>
        rw [hreadable] at hlen
        omega
  · intro hlimit line p' h hret
    rcases hcases with ⟨hnone, -⟩ | ⟨line', q, hsome, hcuts⟩
    · cases hnone.symm.trans h
    · cases hsome.symm.trans h
      have hstream : line.chars <+: p.stream fd := ⟨_, hcuts.stream.symm⟩
      cases hcuts.stops with
      | newline hbound hbs hcs hcount hterm => exact countsStored_of hterm hcount hbound hstream
      | limit hbound hbs hcount hterm =>
        refine absurd ⟨?_, ?_⟩ hlimit
        · rw [← hbound]
          exact hcuts.readable.length_le
        · rwa [← hbound, ← List.prefix_iff_eq_take.1 hcuts.readable]
      | eof hbound hbs hreadable hrest hcount hterm => exact countsStored_of hterm hcount hbound.le hstream
      | error hbound hreadable hcount => exact absurd hcount hret

def longLine (_ : Unit) : Receiver := ⟨[97, 98, 10], true, []⟩

/-- Two characters are stored, and three counted. -/
theorem limit_overcounted : ¬ ∀ (files : Unit → Receiver) (p : Process Unit), Reach step (start files) p →
    ∀ (fd : Unit) (maxlen : Nat), 1 ≤ maxlen → ∀ line p', readline fd maxlen p = some (line, p') → line.ret ≠ -1 →
    CountsStored maxlen (p.stream fd) line := by
  intro h
  have hline : (readline () 3 (start longLine)).map Prod.fst = some ⟨3, [(some (), 97), (some (), 98)], true⟩ := by
    decide +kernel
  obtain ⟨⟨line, p'⟩, hread, rfl⟩ := Option.map_eq_some_iff.1 hline
  obtain ⟨k, hk, hle, -⟩ := h longLine _ (Reach.refl _) () 3 (by decide) _ _ hread (by decide)
  have hk : (3 : Int) = k := hk
  omega

/-! ## The lines of a stream -/

/-- One call after another on a descriptor, with the limits given. -/
def readlines (fd : Fd) : List Nat → Process Fd → Option (List (Line Fd) × Process Fd)
  | [], p => some ([], p)
  | maxlen :: maxlens, p =>
    (readline fd maxlen p).bind fun (line, p') => (readlines fd maxlens p').map fun (lines, q) => (line :: lines, q)

/-- The characters that the calls stored. -/
def runs (lines : List (Line Fd)) : List (List UInt8) := lines.map Line.chars

/-- A newline stands at the end of a run only, and a run without one is as long as the limit allows or reaches the
end of the stream; `upTo` are the characters up to the end of the run, `all` those of the stream. -/
structure IsLine (maxlen : Nat) (run upTo all : List UInt8) : Prop where
  inner : 10 ∉ run.dropLast
  last : run.getLast? = some 10 ∨ run.length = maxlen - 1 ∨ upTo = all

/-- What the calls on a stream that ends come to. -/
structure CutsAll (fd : Fd) (maxlens : List Nat) (p : Process Fd) (lines : List (Line Fd)) (p' : Process Fd) :
    Prop where
  count : lines.length = maxlens.length
  stream : p.stream fd = (runs lines).flatten ++ p'.stream fd
  progress : (p'.stream fd).length ≤ (p.stream fd).length - maxlens.length
  line : ∀ {i maxlen : Nat} {line : Line Fd}, maxlens[i]? = some maxlen → lines[i]? = some line →
    line.terminated = true ∧ IsLine maxlen line.chars (((runs lines).take (i + 1)).flatten) (p.stream fd)

omit [DecidableEq Fd] in
theorem runs_cons (line : Line Fd) (lines : List (Line Fd)) : runs (line :: lines) = line.chars :: runs lines := rfl

/-- One call on a stream that ends. -/
theorem readline_line {maxlen : Nat} (hmax : 2 ≤ maxlen) (hends : p.Ends fd) :
    ∃ line p', readline fd maxlen p = some (line, p') ∧
    p'.Ends fd ∧ p.stream fd = line.chars ++ p'.stream fd ∧ (p'.stream fd).length ≤ (p.stream fd).length - 1 ∧
    line.terminated = true ∧ IsLine maxlen line.chars line.chars (p.stream fd) := by
  rcases readlineLoop_cases fd (maxlen - 1) 1 p (le_refl 1) with ⟨-, -, hopen⟩ | ⟨line, p', hsome, hcuts⟩
  · exact absurd hends hopen
  obtain ⟨hends', hret⟩ := hcuts.ends hends
  have hlength : (p.stream fd).length = line.chars.length + (p'.stream fd).length := by
    rw [hcuts.stream, List.length_append]
  refine ⟨line, p', hsome, hends', hcuts.stream, ?_⟩
  cases hcuts.stops with
  | @newline cs hbound hbs hcs hcount hterm =>
    refine ⟨?_, hterm, ?_, .inl ?_⟩
    · have : line.chars.length = cs.length + 1 := by rw [hbs, List.length_append, List.length_singleton]
      omega
    · rwa [hbs, List.dropLast_concat]
    · rw [hbs, List.getLast?_concat]
  | limit hbound hbs hcount hterm =>
    refine ⟨by omega, hterm, ?_, .inr (.inl hbound)⟩
    exact fun h => hbs (List.mem_of_mem_dropLast h)
  | eof hbound hbs hreadable hrest hcount hterm =>
    refine ⟨?_, hterm, ?_, .inr (.inr ?_)⟩
    · rw [hrest]
      exact Nat.zero_le _
    · exact fun h => hbs (List.mem_of_mem_dropLast h)
    · rw [hcuts.stream, hrest, List.append_nil]
  | error hbound hreadable hcount => exact absurd hcount hret

/-- Successive calls with limits of 2 and more cut a stream that ends into lines. -/
theorem readlines_cuts {maxlens : List Nat} (hmax : ∀ maxlen ∈ maxlens, 2 ≤ maxlen) (hends : p.Ends fd) :
    ∃ lines p', readlines fd maxlens p = some (lines, p') ∧ CutsAll fd maxlens p lines p' := by
  induction maxlens generalizing p with
  | nil =>
    refine ⟨[], p, rfl, rfl, rfl, le_refl _, ?_⟩
    intro i maxlen line hi
    cases hi
  | cons maxlen maxlens ih =>
    obtain ⟨line, p₁, hread, hends₁, hstream, hless, hterm, hline⟩ :=
      readline_line (hmax maxlen List.mem_cons_self) hends
    obtain ⟨lines, p', hlines, hcut⟩ := ih (fun m hm => hmax m (List.mem_cons_of_mem _ hm)) hends₁
    refine ⟨line :: lines, p', ?_, ?_, ?_, ?_, ?_⟩
    · rw [readlines, hread, Option.bind_some]
      dsimp only
      rw [hlines]
      rfl
    · rw [List.length_cons, hcut.count, List.length_cons]
    · rw [hstream, hcut.stream, runs_cons, List.flatten_cons, List.append_assoc]
    · have := hcut.progress
      rw [List.length_cons]
      omega
    · intro i m l hm hl
      cases i with
      | zero =>
        cases hm
        cases hl
        rw [runs_cons, List.take_succ_cons, List.take_zero, List.flatten_cons, List.flatten_nil, List.append_nil]
        exact ⟨hterm, hline⟩
      | succ i =>
        obtain ⟨hterm', hline'⟩ := hcut.line hm hl
        refine ⟨hterm', hline'.inner, hline'.last.imp_right fun h => h.imp_right fun h => ?_⟩
        rw [runs_cons, List.take_succ_cons, List.flatten_cons, h, hstream]

/-- From the beginning of the process, the runs that are stored are the stream itself, cut into lines. -/
theorem readlines_lines (files : Fd → Receiver) (fd : Fd) {maxlens : List Nat} (hmax : ∀ maxlen ∈ maxlens, 2 ≤ maxlen)
    (hclosed : (files fd).closed = true) (herror : .error ∉ (files fd).events) :
    ∃ lines p', readlines fd maxlens (start files) = some (lines, p') ∧ lines.length = maxlens.length ∧
      (runs lines).flatten ++ p'.stream fd = (files fd).data ∧
      ((files fd).data.length ≤ maxlens.length → (runs lines).flatten = (files fd).data) ∧
      ∀ (i maxlen : Nat) (line : Line Fd), maxlens[i]? = some maxlen → lines[i]? = some line → line.terminated = true ∧
        IsLine maxlen line.chars (((runs lines).take (i + 1)).flatten) (files fd).data := by
  have hstream : (start files).stream fd = (files fd).data := by
    rw [Process.stream, ReadAhead.unread_of_nonpos (le_refl 0)]
    rfl
  obtain ⟨lines, p', hlines, hcut⟩ := readlines_cuts (p := start files) hmax ⟨hclosed, herror⟩
  refine ⟨lines, p', hlines, hcut.count, hcut.stream.symm.trans hstream, ?_, ?_⟩
  · intro hlen
    have hprogress := hcut.progress
    rw [hstream, Nat.sub_eq_zero_of_le hlen] at hprogress
    rw [← hstream, hcut.stream, List.length_eq_zero_iff.1 (Nat.le_zero.1 hprogress), List.append_nil]
  · intro i maxlen line hm hl
    rw [← hstream]
    exact hcut.line hm hl

/-- A line of three characters, and a first call that may store two. -/
theorem readlines_lines_longLine : ∃ lines p', readlines () [3, 100] (start longLine) = some (lines, p') ∧
    (runs lines).flatten ++ p'.stream () = [97, 98, 10] := by
  obtain ⟨lines, p', h, -, hstream, -⟩ := @readlines_lines Unit _ longLine () [3, 100] (by decide) rfl (by decide)
  exact ⟨lines, p', h, hstream⟩

end LinuxProgram.Wrap
