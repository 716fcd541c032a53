/-
Two invariants of multithreaded programs that follow from checks on single statements.

Mutual exclusion: when each statement of the program takes and releases the mutexes its locations
say (`Locking`), the holder of a mutex is always the one thread at a location that holds it.

Proof outlines: an assertion on the shared data at each location, true when a thread gets there
and kept by the statements of the other threads, holds in every reachable state
(`ProofOutline`). The second part is only asked of statements at locations that hold no mutex in
common with the assertion, so data protected by a mutex needs no argument there.

Owned data: a relation between a thread's location and the part of the shared data only that
thread changes holds for every thread number, of threads not yet created too (`Owning`).
-/
import LinuxProgram.Machine.Threads

namespace LinuxProgram.Machine

variable {M C S X L : Type}

/-! ## Mutual exclusion -/

/-- The statement at `l` takes and releases mutexes as `holds m l`, the locations that hold `m`,
says; it does not wait on a condition variable with a second mutex held. -/
def Instr.LocksAs (holds : M → L → Bool) (l : L) : Instr M C S X L → Prop
  | .lock m l' => holds m l = false ∧ holds m l' = true ∧ ∀ m', m' ≠ m → holds m' l' = holds m' l
  | .unlock m l' => holds m l = true ∧ holds m l' = false ∧ ∀ m', m' ≠ m → holds m' l' = holds m' l
  | .wait _ m l' => holds m l = true ∧ holds m l' = true ∧ ∀ m', m' ≠ m → holds m' l = false ∧ holds m' l' = false
  | .signal _ l' | .broadcast _ l' => ∀ m, holds m l' = holds m l
  | .act f => ∀ i sh x sh' l' new, f i sh x = some (sh', l', new) →
    (∀ m, holds m l' = holds m l) ∧ ∀ n ∈ new, ∀ m, holds m n = false
  | .halt => True

section LocksAs

variable {holds : M → L → Bool} {l l₁ l₂ : L}

@[simp] theorem locksAs_lock (m : M) : (Instr.lock m l₁ : Instr M C S X L).LocksAs holds l ↔
    holds m l = false ∧ holds m l₁ = true ∧ ∀ m', m' ≠ m → holds m' l₁ = holds m' l := Iff.rfl

@[simp] theorem locksAs_unlock (m : M) : (Instr.unlock m l₁ : Instr M C S X L).LocksAs holds l ↔
    holds m l = true ∧ holds m l₁ = false ∧ ∀ m', m' ≠ m → holds m' l₁ = holds m' l := Iff.rfl

@[simp] theorem locksAs_wait (c : C) (m : M) : (Instr.wait c m l₁ : Instr M C S X L).LocksAs holds l ↔
    holds m l = true ∧ holds m l₁ = true ∧ ∀ m', m' ≠ m → holds m' l = false ∧ holds m' l₁ = false := Iff.rfl

@[simp] theorem locksAs_signal (c : C) : (Instr.signal c l₁ : Instr M C S X L).LocksAs holds l ↔
    ∀ m, holds m l₁ = holds m l := Iff.rfl

@[simp] theorem locksAs_broadcast (c : C) : (Instr.broadcast c l₁ : Instr M C S X L).LocksAs holds l ↔
    ∀ m, holds m l₁ = holds m l := Iff.rfl

@[simp] theorem locksAs_act (f : Nat → S → X → Option (S × L × List L)) :
    (Instr.act f : Instr M C S X L).LocksAs holds l ↔ ∀ i sh x sh' l' new, f i sh x = some (sh', l', new) →
      (∀ m, holds m l' = holds m l) ∧ ∀ n ∈ new, ∀ m, holds m n = false := Iff.rfl

@[simp] theorem locksAs_halt : (Instr.halt : Instr M C S X L).LocksAs holds l := trivial

@[simp] theorem locksAs_update (f : Nat → S → S) (next : S → L) (h : ∀ sh m, holds m (next sh) = holds m l) :
    (Instr.update f next : Instr M C S X L).LocksAs holds l := by
  rintro i sh x sh' l' new hf
  cases hf; exact ⟨h sh, by simp⟩

@[simp] theorem locksAs_assign (f : S → S) (h : ∀ m, holds m l₁ = holds m l) :
    (Instr.assign f l₁ : Instr M C S X L).LocksAs holds l := locksAs_update _ _ fun _ => h

@[simp] theorem locksAs_skip (h : ∀ m, holds m l₁ = holds m l) :
    (Instr.skip l₁ : Instr M C S X L).LocksAs holds l := locksAs_update _ _ fun _ => h

@[simp] theorem locksAs_branch (b : S → Bool) (h₁ : ∀ m, holds m l₁ = holds m l) (h₂ : ∀ m, holds m l₂ = holds m l) :
    (Instr.branch b l₁ l₂ : Instr M C S X L).LocksAs holds l := by
  refine locksAs_update _ _ fun sh m => ?_
  split
  · exact h₁ m
  · exact h₂ m

end LocksAs

/-- Every statement of the program takes and releases mutexes as `holds` says. -/
def Locking (code : L → Instr M C S X L) (holds : M → L → Bool) : Prop := ∀ l, (code l).LocksAs holds l

/-- What `Locking` says about the statement at a location. -/
theorem Locking.at {code : L → Instr M C S X L} {holds : M → L → Bool} (h : Locking code holds) {l : L}
    {c : Instr M C S X L} (hc : code l = c) : c.LocksAs holds l := hc ▸ h l

/-- The thread numbered `j` holds the mutex `m`: it runs at a location that does. -/
def heldAt (holds : M → L → Bool) (ts : List (Thread M C L)) (m : M) (j : Nat) : Prop :=
  ∃ l, ts[j]? = some (.run l) ∧ holds m l = true

/-- The recorded holder of each mutex is the thread that holds it; and a thread that is blocked
or woken goes on after a wait on its mutex. -/
structure MutexInv (code : L → Instr M C S X L) (holds : M → L → Bool) (s : State M C S L) : Prop where
  owner : ∀ m j, s.owner m = some j ↔ heldAt holds s.threads m j
  blocked : ∀ (j : Nat) (c : C) (m : M) (l : L), s.threads[j]? = some (.blocked c m l) → ∃ l₀, code l₀ = .wait c m l
  woken : ∀ (j : Nat) (m : M) (l : L), s.threads[j]? = some (.woken m l) → ∃ l₀ c, code l₀ = .wait c m l

theorem getElem?_set_eq {α : Type} {ts : List α} {i : Nat} {t t' : α} (ht : ts[i]? = some t) (j : Nat) :
    (ts.set i t')[j]? = if i = j then some t' else ts[j]? := by
  have hi : i < ts.length := (List.getElem?_eq_some_iff.1 ht).1
  rw [List.getElem?_set]
  by_cases h : i = j
  · rw [if_pos h, if_pos h, if_pos hi]
  · rw [if_neg h, if_neg h]

/-- Mutual exclusion: two running threads at locations that hold one mutex are the same thread. -/
theorem MutexInv.unique {code : L → Instr M C S X L} {holds : M → L → Bool} {s : State M C S L}
    (h : MutexInv code holds s) {m : M} {i j : Nat} {l l' : L} (hi : s.threads[i]? = some (.run l))
    (hj : s.threads[j]? = some (.run l')) (hl : holds m l = true) (hl' : holds m l' = true) : i = j := by
  have h1 := (h.owner m i).2 ⟨l, hi, hl⟩
  have h2 := (h.owner m j).2 ⟨l', hj, hl'⟩
  rw [h1] at h2; cases h2; rfl

/-- Nobody is at a location that holds a free mutex. -/
theorem MutexInv.free {code : L → Instr M C S X L} {holds : M → L → Bool} {s : State M C S L}
    (h : MutexInv code holds s) {m : M} (hm : s.owner m = none) {i : Nat} {l : L}
    (hi : s.threads[i]? = some (.run l)) : holds m l = false := by
  by_contra hl
  have := (h.owner m i).2 ⟨l, hi, by simpa using hl⟩
  rw [hm] at this; cases this

/-- Replacing one thread keeps the invariant when the holders change with it. -/
theorem MutexInv.set {code : L → Instr M C S X L} {holds : M → L → Bool} {s : State M C S L}
    (h : MutexInv code holds s) {i : Nat} {t' : Thread M C L} {owner : M → Option Nat} {sh : S}
    {ts : List (Thread M C L)} (hts : ∀ j, ts[j]? = if i = j then some t' else s.threads[j]?)
    (hown : ∀ m j, owner m = some j ↔ if i = j then heldAt holds [t'] m 0 else s.owner m = some j)
    (hb : ∀ c m l, t' = .blocked c m l → ∃ l₀, code l₀ = .wait c m l)
    (hw : ∀ m l, t' = .woken m l → ∃ l₀ c, code l₀ = .wait c m l) :
    MutexInv code holds { shared := sh, owner := owner, threads := ts } := by
  refine ⟨fun m j => ?_, fun j c m l hj => ?_, fun j m l hj => ?_⟩
  · rw [hown]
    by_cases hij : i = j
    · simp [heldAt, hts, hij]
    · rw [if_neg hij, h.owner]; simp [heldAt, hts, hij]
  · simp only [hts] at hj
    split at hj
    · cases hj; exact hb c m l rfl
    · exact h.blocked j c m l hj
  · simp only [hts] at hj
    split at hj
    · cases hj; exact hw m l rfl
    · exact h.woken j m l hj

@[simp] theorem heldAt_run {holds : M → L → Bool} {m : M} {l : L} :
    heldAt holds ([.run l] : List (Thread M C L)) m 0 ↔ holds m l = true := by
  simp [heldAt]

@[simp] theorem heldAt_blocked {holds : M → L → Bool} {m m' : M} {c : C} {l : L} :
    ¬ heldAt holds ([.blocked c m' l] : List (Thread M C L)) m 0 := by
  simp [heldAt]

@[simp] theorem heldAt_woken {holds : M → L → Bool} {m m' : M} {l : L} :
    ¬ heldAt holds ([.woken m' l] : List (Thread M C L)) m 0 := by
  simp [heldAt]

section Preserved

variable {code : L → Instr M C S X L} {holds : M → L → Bool}

/-- Waking threads changes no holder. -/
theorem MutexInv.wake {s : State M C S L} (h : MutexInv code holds s) {ts : List (Thread M C L)}
    (hts : ∀ j : Nat, ts[j]? = s.threads[j]? ∨
      ∃ (c : C) (m : M) (l : L), s.threads[j]? = some (.blocked c m l) ∧ ts[j]? = some (.woken m l)) :
    MutexInv code holds { s with threads := ts } := by
  refine ⟨fun m j => ?_, fun j c m l hj => ?_, fun j m l hj => ?_⟩
  · rw [h.owner]
    unfold heldAt
    rcases hts j with e | ⟨c, m', l, h1, h2⟩
    · simp only [e]
    · simp [h1, h2]
  · rcases hts j with e | ⟨c', m', l', h1, h2⟩
    · exact h.blocked j c m l (by simpa only [e] using hj)
    · simp only [h2] at hj; cases hj
  · rcases hts j with e | ⟨c', m', l', h1, h2⟩
    · exact h.woken j m l (by simpa only [e] using hj)
    · simp only [h2, Option.some.injEq, Thread.woken.injEq] at hj
      obtain ⟨rfl, rfl⟩ := hj
      obtain ⟨l₀, hl₀⟩ := h.blocked j c' m' l' h1
      exact ⟨l₀, c', hl₀⟩

theorem wakeAt_cases (ws : List Nat) (ts : List (Thread M C L)) (j : Nat) :
    (wakeAt ws ts)[j]? = ts[j]? ∨
    ∃ (c : C) (m : M) (l : L), ts[j]? = some (.blocked c m l) ∧ (wakeAt ws ts)[j]? = some (.woken m l) := by
  rw [wakeAt_getElem?]
  cases ht : ts[j]? with
  | none => exact .inl rfl
  | some t =>
    by_cases hj : j ∈ ws
    · cases t with
      | blocked c m l => exact .inr ⟨c, m, l, rfl, by simp [hj, Thread.wake]⟩
      | run l => exact .inl (by simp [Thread.wake])
      | woken m l => exact .inl (by simp [Thread.wake])
    · exact .inl (by simp [hj])

/-- In a state in which every mutex is free and every thread runs at a location that holds none,
mutual exclusion holds. -/
theorem MutexInv.start {s : State M C S L} (hown : ∀ m, s.owner m = none)
    (hrun : ∀ t ∈ s.threads, ∃ l, t = .run l ∧ ∀ m, holds m l = false) : MutexInv code holds s := by
  refine ⟨fun m j => ?_, fun j c m l hj => ?_, fun j m l hj => ?_⟩
  · rw [hown]
    constructor
    · intro h; cases h
    · rintro ⟨l, h1, h2⟩
      obtain ⟨l', e, h'⟩ := hrun _ (List.mem_of_getElem? h1)
      cases e; rw [h'] at h2; cases h2
  · obtain ⟨l', e, -⟩ := hrun _ (List.mem_of_getElem? hj); cases e
  · obtain ⟨l', e, -⟩ := hrun _ (List.mem_of_getElem? hj); cases e

/-- A thread that goes on with the mutexes it holds. -/
theorem MutexInv.keep {s : State M C S L} (h : MutexInv code holds s) {i : Nat} {t t' : Thread M C L} (sh : S)
    (ht : s.threads[i]? = some t) (hsame : ∀ m, heldAt holds [t'] m 0 ↔ heldAt holds [t] m 0)
    (hb : ∀ c m l, t' = .blocked c m l → ∃ l₀, code l₀ = .wait c m l)
    (hw : ∀ m l, t' = .woken m l → ∃ l₀ c, code l₀ = .wait c m l) :
    MutexInv code holds { s with shared := sh, threads := s.threads.set i t' } := by
  refine h.set (getElem?_set_eq ht) (fun m j => ?_) hb hw
  split
  · rename_i hij
    subst hij
    rw [h.owner, hsame]
    simp [heldAt, ht]
  · rfl

section Owner

variable [DecidableEq M] {s : State M C S L} {i : Nat} {t t' : Thread M C L} {m : M}

/-- A thread that takes a free mutex. -/
theorem MutexInv.acquire (h : MutexInv code holds s) (ht : s.threads[i]? = some t) (hfree : s.owner m = none)
    (hm : heldAt holds [t'] m 0) (hsame : ∀ m', m' ≠ m → (heldAt holds [t'] m' 0 ↔ heldAt holds [t] m' 0))
    (hb : ∀ c m l, t' = .blocked c m l → ∃ l₀, code l₀ = .wait c m l)
    (hw : ∀ m l, t' = .woken m l → ∃ l₀ c, code l₀ = .wait c m l) :
    MutexInv code holds { s with owner := Function.update s.owner m (some i), threads := s.threads.set i t' } := by
  refine h.set (getElem?_set_eq ht) (fun m' j => ?_) hb hw
  by_cases hmm : m' = m
  · subst hmm
    rw [Function.update_self, Option.some_inj]
    split
    · exact iff_of_true ‹_› hm
    · rename_i hij
      rw [hfree]
      exact iff_of_false hij (by simp)
  · rw [Function.update_of_ne hmm]
    split
    · rename_i hij
      subst hij
      rw [h.owner, hsame m' hmm]
      simp [heldAt, ht]
    · rfl

/-- A thread that releases a mutex it holds. -/
theorem MutexInv.release (h : MutexInv code holds s) (ht : s.threads[i]? = some t) (hheld : heldAt holds [t] m 0)
    (hm : ¬ heldAt holds [t'] m 0) (hsame : ∀ m', m' ≠ m → (heldAt holds [t'] m' 0 ↔ heldAt holds [t] m' 0))
    (hb : ∀ c m l, t' = .blocked c m l → ∃ l₀, code l₀ = .wait c m l)
    (hw : ∀ m l, t' = .woken m l → ∃ l₀ c, code l₀ = .wait c m l) :
    MutexInv code holds { s with owner := Function.update s.owner m none, threads := s.threads.set i t' } := by
  refine h.set (getElem?_set_eq ht) (fun m' j => ?_) hb hw
  by_cases hmm : m' = m
  · subst hmm
    have hi : s.owner m' = some i := by
      rw [h.owner]
      simpa [heldAt, ht] using hheld
    rw [Function.update_self]
    split
    · exact iff_of_false (by simp) hm
    · rename_i hij
      simp [hi, hij]
  · rw [Function.update_of_ne hmm]
    split
    · rename_i hij
      subst hij
      rw [h.owner, hsame m' hmm]
      simp [heldAt, ht]
    · rfl

end Owner

/-- New threads that hold nothing. -/
theorem MutexInv.append {s : State M C S L} (h : MutexInv code holds s) {new : List L}
    (hnew : ∀ n ∈ new, ∀ m, holds m n = false) :
    MutexInv code holds { s with threads := s.threads ++ new.map .run } := by
  have happ : ∀ (j : Nat) (t : Thread M C L), (s.threads ++ new.map (.run : L → Thread M C L))[j]? = some t →
      s.threads[j]? = some t ∨ ∃ n ∈ new, t = Thread.run n := by
    intro j t hj
    rw [List.getElem?_append] at hj
    split at hj
    · exact .inl hj
    · obtain ⟨n, hn, rfl⟩ := List.mem_map.1 (List.mem_of_getElem? hj)
      exact .inr ⟨n, hn, rfl⟩
  refine ⟨fun m j => ?_, fun j c m l hj => ?_, fun j m l hj => ?_⟩
  · rw [h.owner]
    constructor
    · rintro ⟨l, h1, h2⟩
      have hj := (List.getElem?_eq_some_iff.1 h1).1
      exact ⟨l, by rw [List.getElem?_append_left hj]; exact h1, h2⟩
    · rintro ⟨l, h1, h2⟩
      rcases happ j _ h1 with h1 | ⟨n, hn, e⟩
      · exact ⟨l, h1, h2⟩
      · cases e
        rw [hnew _ hn m] at h2
        cases h2
  · rcases happ j _ hj with h1 | ⟨n, hn, e⟩
    · exact h.blocked j c m l h1
    · cases e
  · rcases happ j _ hj with h1 | ⟨n, hn, e⟩
    · exact h.woken j m l h1
    · cases e

variable [DecidableEq C]

theorem wakeAll_cases (c : C) (ts : List (Thread M C L)) (j : Nat) :
    (wakeAll c ts)[j]? = ts[j]? ∨
      ∃ (c' : C) (m : M) (l : L), ts[j]? = some (.blocked c' m l) ∧ (wakeAll c ts)[j]? = some (.woken m l) := by
  rw [wakeAll_getElem?]
  cases ht : ts[j]? with
  | none => exact .inl rfl
  | some t =>
    by_cases hb : t.blockedOn c = true
    · cases t with
      | blocked c' m l => exact .inr ⟨c', m, l, rfl, by rw [Option.map_some, if_pos hb]; rfl⟩
      | run l => exact .inl (by simp [Thread.wake])
      | woken m l => exact .inl (by simp [Thread.wake])
    · exact .inl (by simp [hb])

variable [DecidableEq M]

/-- A step of a program that locks as its locations say keeps mutual exclusion. -/
theorem Locking.mutex_step (hL : Locking code holds) {s s' : State M C S L} {a : Action X}
    (h : MutexInv code holds s) (hs : step code s a = some s') : MutexInv code holds s' := by
  cases step_cases hs with
  | @spurious i c m l ht =>
    obtain ⟨l₀, h₀⟩ := h.blocked i c m l ht
    refine h.keep s.shared ht (fun m' => by simp) (fun _ _ _ e => by cases e) (fun m' l' e => ?_)
    cases e
    exact ⟨l₀, c, h₀⟩
  | @relock i x ws m l ht hm =>
    obtain ⟨l₀, c, h₀⟩ := h.woken i m l ht
    obtain ⟨-, hl, hother⟩ := hL.at h₀
    exact h.acquire ht hm (heldAt_run.2 hl) (fun m' hmm => by simp [(hother m' hmm).2]) (fun _ _ _ e => by cases e)
      (fun _ _ e => by cases e)
  | @lock i x ws m l l' ht hc hm =>
    obtain ⟨-, hl, hother⟩ := hL.at hc
    exact h.acquire ht hm (heldAt_run.2 hl) (fun m' hmm => by simp [hother m' hmm]) (fun _ _ _ e => by cases e)
      (fun _ _ e => by cases e)
  | @unlock i x ws m l l' ht hc =>
    obtain ⟨hl₀, hl, hother⟩ := hL.at hc
    exact h.release ht (heldAt_run.2 hl₀) (by simp [hl]) (fun m' hmm => by simp [hother m' hmm])
      (fun _ _ _ e => by cases e) (fun _ _ e => by cases e)
  | @wait i x ws c m l l' ht hc =>
    obtain ⟨hl₀, hl, hother⟩ := hL.at hc
    refine h.release ht (heldAt_run.2 hl₀) heldAt_blocked (fun m' hmm => by simp [(hother m' hmm).1])
      (fun c' m' l'' e => ?_) (fun _ _ e => by cases e)
    cases e
    exact ⟨l, hc⟩
  | @signal i x ws c l l' ht hc hw =>
    have hi : (wakeAt ws s.threads)[i]? = some (.run l) := by
      rw [wakeAt_getElem?, ht]; simp [Thread.wake]
    have hsame := hL.at hc
    exact (h.wake (wakeAt_cases ws s.threads)).keep s.shared hi (fun m' => by simp [hsame m'])
      (fun _ _ _ e => by cases e) (fun _ _ e => by cases e)
  | @broadcast i x ws c l l' ht hc =>
    have hi : (wakeAll c s.threads)[i]? = some (.run l) := by
      rw [wakeAll_getElem?, ht]; simp [Thread.blockedOn]
    have hsame := hL.at hc
    exact (h.wake (wakeAll_cases c s.threads)).keep s.shared hi (fun m' => by simp [hsame m'])
      (fun _ _ _ e => by cases e) (fun _ _ e => by cases e)
  | @act i x ws l f sh l' new ht hc hf =>
    obtain ⟨hl, hnew⟩ := (hL.at hc) _ _ _ _ _ _ hf
    have hset : MutexInv code holds { s with shared := sh, threads := s.threads.set i (.run l') } :=
      h.keep sh ht (fun m' => by simp [hl]) (fun _ _ _ e => by cases e) (fun _ _ e => by cases e)
    exact hset.append hnew

/-- Mutual exclusion along a run. -/
theorem Locking.mutex (hL : Locking code holds) {s t : State M C S L} (h0 : MutexInv code holds s)
    (h : Reach (step code) s t) : MutexInv code holds t :=
  h.invariant h0 fun _ _ _ hI hs => hL.mutex_step hI hs

end Preserved

/-! ## Proof outlines -/

/-- The statement at `l` respects an outline: `G` on the shared data throughout, `A i l` whenever
thread `i` is at `l`. -/
def Instr.Outlined (holds : M → L → Bool) (G : S → Prop) (A : Nat → L → S → Prop) (l : L) :
    Instr M C S X L → Prop
  | .lock _ l' | .unlock _ l' | .signal _ l' | .broadcast _ l' => ∀ i sh, G sh → A i l sh → A i l' sh
  -- the other threads may do anything before the waiting thread goes on
  | .wait _ _ l' => ∀ i sh, G sh → A i l' sh
  | .act f => ∀ i sh x sh' l' new, f i sh x = some (sh', l', new) → G sh → A i l sh →
    (G sh' ∧ A i l' sh' ∧ ∀ n ∈ new, ∀ j, A j n sh') ∧
    ∀ j l₂, j ≠ i → (∀ m, holds m l = true → holds m l₂ = false) → A j l₂ sh → A j l₂ sh'
  | .halt => True

section Outlined

variable {holds : M → L → Bool} {G : S → Prop} {A : Nat → L → S → Prop} {l l₁ l₂ : L}

@[simp] theorem outlined_lock (m : M) : (Instr.lock m l₁ : Instr M C S X L).Outlined holds G A l ↔
    ∀ i sh, G sh → A i l sh → A i l₁ sh := Iff.rfl

@[simp] theorem outlined_unlock (m : M) : (Instr.unlock m l₁ : Instr M C S X L).Outlined holds G A l ↔
    ∀ i sh, G sh → A i l sh → A i l₁ sh := Iff.rfl

@[simp] theorem outlined_wait (c : C) (m : M) : (Instr.wait c m l₁ : Instr M C S X L).Outlined holds G A l ↔
    ∀ i sh, G sh → A i l₁ sh := Iff.rfl

@[simp] theorem outlined_signal (c : C) : (Instr.signal c l₁ : Instr M C S X L).Outlined holds G A l ↔
    ∀ i sh, G sh → A i l sh → A i l₁ sh := Iff.rfl

@[simp] theorem outlined_broadcast (c : C) : (Instr.broadcast c l₁ : Instr M C S X L).Outlined holds G A l ↔
    ∀ i sh, G sh → A i l sh → A i l₁ sh := Iff.rfl

@[simp] theorem outlined_halt : (Instr.halt : Instr M C S X L).Outlined holds G A l := trivial

theorem outlined_update (f : Nat → S → S) (next : S → L)
    (h : ∀ i sh, G sh → A i l sh → G (f i sh) ∧ A i (next sh) (f i sh))
    (hA : ∀ i sh, G sh → A i l sh → ∀ j l', j ≠ i → (∀ m, holds m l = true → holds m l' = false) →
      A j l' sh → A j l' (f i sh)) :
    (Instr.update f next : Instr M C S X L).Outlined holds G A l := by
  rintro i sh x sh' l' new hf hG' hA'
  cases hf
  obtain ⟨h1, h2⟩ := h i sh hG' hA'
  exact ⟨⟨h1, h2, by simp⟩, hA i sh hG' hA'⟩

@[simp] theorem outlined_skip (h : ∀ i sh, G sh → A i l sh → A i l₁ sh) :
    (Instr.skip l₁ : Instr M C S X L).Outlined holds G A l :=
  outlined_update _ _ (fun i sh hG hA => ⟨hG, h i sh hG hA⟩) fun _ _ _ _ _ _ _ _ h => h

@[simp] theorem outlined_branch (b : S → Bool) (h₁ : ∀ i sh, G sh → A i l sh → b sh = true → A i l₁ sh)
    (h₂ : ∀ i sh, G sh → A i l sh → b sh = false → A i l₂ sh) :
    (Instr.branch b l₁ l₂ : Instr M C S X L).Outlined holds G A l := by
  refine outlined_update _ _ (fun i sh hG hA => ⟨hG, ?_⟩) fun _ _ _ _ _ _ _ _ h => h
  split
  · rename_i hb; exact h₁ i sh hG hA hb
  · rename_i hb; exact h₂ i sh hG hA (by simpa using hb)

end Outlined

/-- A proof outline of the program. -/
def ProofOutline (code : L → Instr M C S X L) (holds : M → L → Bool) (G : S → Prop)
    (A : Nat → L → S → Prop) : Prop := ∀ l, (code l).Outlined holds G A l

theorem ProofOutline.at {code : L → Instr M C S X L} {holds : M → L → Bool} {G : S → Prop}
    {A : Nat → L → S → Prop} (h : ProofOutline code holds G A) {l : L} {c : Instr M C S X L}
    (hc : code l = c) : c.Outlined holds G A l := hc ▸ h l

structure OutlineInv (G : S → Prop) (A : Nat → L → S → Prop) (s : State M C S L) : Prop where
  shared : G s.shared
  run : ∀ (i : Nat) (l : L), s.threads[i]? = some (.run l) → A i l s.shared

/-- A running thread in the list after a wakeup was running before it. -/
theorem run_of_wake {s : State M C S L} {ts : List (Thread M C L)}
    (hts : ∀ j : Nat, ts[j]? = s.threads[j]? ∨
      ∃ (c : C) (m : M) (l : L), s.threads[j]? = some (.blocked c m l) ∧ ts[j]? = some (.woken m l))
    {j : Nat} {l : L} (h : ts[j]? = some (.run l)) : s.threads[j]? = some (.run l) := by
  rcases hts j with e | ⟨c, m, l', -, h2⟩
  · rw [← e]; exact h
  · rw [h2] at h; cases h

section Valid

variable [DecidableEq M] [DecidableEq C] {code : L → Instr M C S X L} {holds : M → L → Bool}
  {G : S → Prop} {A : Nat → L → S → Prop}

theorem ProofOutline.step_valid (hO : ProofOutline code holds G A) {s s' : State M C S L} {a : Action X}
    (hm : MutexInv code holds s) (h : OutlineInv G A s) (hs : step code s a = some s') : OutlineInv G A s' := by
  -- a step that keeps the shared data and moves thread `i` to `l'`
  have hmove : ∀ {i : Nat} {ts : List (Thread M C L)} {t' : Thread M C L} {own : M → Option Nat},
      (∀ j : Nat, ∀ l, ts[j]? = some (.run l) → i = j ∧ t' = .run l ∨ s.threads[j]? = some (.run l)) →
      (∀ l, t' = .run l → A i l s.shared) → OutlineInv G A { shared := s.shared, owner := own, threads := ts } := by
    intro i ts t' own hts ht'
    refine ⟨h.shared, fun j l hj => ?_⟩
    rcases hts j l hj with ⟨rfl, e⟩ | hj
    · exact ht' l e
    · exact h.run j l hj
  have hset : ∀ {i : Nat} {t t' : Thread M C L}, s.threads[i]? = some t → ∀ (j : Nat) (l : L),
      (s.threads.set i t')[j]? = some (.run l) → i = j ∧ t' = .run l ∨ s.threads[j]? = some (.run l) := by
    intro i t t' ht j l hj
    rw [getElem?_set_eq ht] at hj
    split at hj
    · rename_i hij; cases hj; exact .inl ⟨hij, rfl⟩
    · exact .inr hj
  cases step_cases hs with
  | spurious ht => exact hmove (hset ht) fun _ e => by cases e
  | @relock i x ws m l ht hfree =>
    refine hmove (hset ht) fun l' e => ?_
    cases e
    obtain ⟨l₀, c, h₀⟩ := hm.woken i m l ht
    exact hO.at h₀ _ _ h.shared
  | @lock i x ws m l l' ht hc hfree =>
    exact hmove (hset ht) fun _ e => by cases e; exact hO.at hc _ _ h.shared (h.run i l ht)
  | @unlock i x ws m l l' ht hc =>
    exact hmove (hset ht) fun _ e => by cases e; exact hO.at hc _ _ h.shared (h.run i l ht)
  | wait ht hc => exact hmove (hset ht) fun _ e => by cases e
  | @signal i x ws c l l' ht hc hw =>
    refine @hmove i _ (.run l') _ (fun j l₂ hj => ?_)
      fun _ e => by cases e; exact hO.at hc _ _ h.shared (h.run i l ht)
    have hi : (wakeAt ws s.threads)[i]? = some (.run l) := by
      rw [wakeAt_getElem?, ht]; simp [Thread.wake]
    rw [getElem?_set_eq hi] at hj
    split at hj
    · rename_i hij; cases hj; exact .inl ⟨hij, rfl⟩
    · exact .inr (run_of_wake (wakeAt_cases ws s.threads) hj)
  | @broadcast i x ws c l l' ht hc =>
    refine @hmove i _ (.run l') _ (fun j l₂ hj => ?_)
      fun _ e => by cases e; exact hO.at hc _ _ h.shared (h.run i l ht)
    have hi : (wakeAll c s.threads)[i]? = some (.run l) := by
      rw [wakeAll_getElem?, ht]; simp [Thread.blockedOn]
    rw [getElem?_set_eq hi] at hj
    split at hj
    · rename_i hij; cases hj; exact .inl ⟨hij, rfl⟩
    · exact .inr (run_of_wake (wakeAll_cases c s.threads) hj)
  | @act i x ws l f sh l' new ht hc hf =>
    obtain ⟨⟨hG, hA, hnew⟩, hframe⟩ := hO.at hc _ _ _ _ _ _ hf h.shared (h.run i l ht)
    refine ⟨hG, fun j l₂ hj => ?_⟩
    simp only [List.getElem?_append] at hj
    split at hj
    · rcases hset ht j l₂ hj with ⟨rfl, e⟩ | hj'
      · cases e; exact hA
      · by_cases hij : j = i
        · subst hij
          rw [getElem?_set_eq ht, if_pos rfl] at hj
          cases hj; exact hA
        · refine hframe j l₂ hij (fun m hml => ?_) (h.run j l₂ hj')
          -- both locations holding `m` would make them one thread
          by_contra hml₂
          exact hij (hm.unique ht hj' hml (by simpa using hml₂)).symm
    · obtain ⟨n, hn, e⟩ := List.mem_map.1 (List.mem_of_getElem? hj)
      cases e; exact hnew _ hn j

/-- The assertions of a proof outline hold in every state of a run. -/
theorem ProofOutline.valid (hO : ProofOutline code holds G A) (hL : Locking code holds) {s t : State M C S L}
    (hm : MutexInv code holds s) (h0 : OutlineInv G A s) (h : Reach (step code) s t) : OutlineInv G A t :=
  ReachWith.invariant h (fun _ hu => hL.mutex hm hu) h0
    fun _ _ _ hm' hI _ hs => hO.step_valid hm' hI hs

end Valid

/-! ## Owned data -/

/-- The statement at `l` keeps `A i` of its own thread `i`, leaves `A j` of the others alone, and
starts threads whose `A` follows from that of no thread. -/
def Instr.OwnedAs (A : Nat → Option L → S → Prop) (l : L) : Instr M C S X L → Prop
  | .lock _ l' | .unlock _ l' | .signal _ l' | .broadcast _ l' | .wait _ _ l' =>
    ∀ i sh, A i (some l) sh → A i (some l') sh
  | .act f => ∀ i sh x sh' l' new, f i sh x = some (sh', l', new) →
    (A i (some l) sh → A i (some l') sh') ∧ (∀ j o, j ≠ i → A j o sh → A j o sh') ∧
    ∀ n ∈ new, ∀ j, A j none sh' → A j (some n) sh'
  | .halt => True

def Owning (code : L → Instr M C S X L) (A : Nat → Option L → S → Prop) : Prop := ∀ l, (code l).OwnedAs A l

theorem Owning.at {code : L → Instr M C S X L} {A : Nat → Option L → S → Prop} (h : Owning code A) {l : L}
    {c : Instr M C S X L} (hc : code l = c) : c.OwnedAs A l := hc ▸ h l

section Owned

variable {A : Nat → Option L → S → Prop} {l l₁ l₂ : L}

theorem ownedAs_update (f : Nat → S → S) (next : S → L)
    (h : ∀ i sh, A i (some l) sh → A i (some (next sh)) (f i sh))
    (hA : ∀ i sh j o, j ≠ i → A j o sh → A j o (f i sh)) :
    (Instr.update f next : Instr M C S X L).OwnedAs A l := by
  rintro i sh x sh' l' new hf
  cases hf
  exact ⟨h i sh, hA i sh, by simp⟩

end Owned

/-- As `OwnedAs`, for statements that are only executed under `P`. -/
def Instr.OwnedUnder (P : State M C S L → Nat → L → Prop) (A : Nat → Option L → S → Prop) (l : L) :
    Instr M C S X L → Prop
  | .lock _ l' | .unlock _ l' | .signal _ l' | .broadcast _ l' | .wait _ _ l' =>
    ∀ i sh, A i (some l) sh → A i (some l') sh
  | .act f => ∀ i s x sh' l' new, f i s.shared x = some (sh', l', new) → P s i l →
    (A i (some l) s.shared → A i (some l') sh') ∧ (∀ j, j ≠ i → A j s.locs[j]? s.shared → A j s.locs[j]? sh') ∧
    ∀ n ∈ new, ∀ j, A j none sh' → A j (some n) sh'
  | .halt => True

def OwningUnder (code : L → Instr M C S X L) (P : State M C S L → Nat → L → Prop) (A : Nat → Option L → S → Prop) :
    Prop := ∀ l, (code l).OwnedUnder P A l

theorem OwningUnder.at {code : L → Instr M C S X L} {P : State M C S L → Nat → L → Prop} {A : Nat → Option L → S → Prop}
    (h : OwningUnder code P A) {l : L} {c : Instr M C S X L} (hc : code l = c) : c.OwnedUnder P A l := hc ▸ h l

/-- The statement that the step executes is executed under `P`. -/
def Executes (P : State M C S L → Nat → L → Prop) (s : State M C S L) (a : Action X) : Prop :=
  ∀ i x ws l, a = .exec i x ws → s.threads[i]? = some (.run l) → P s i l

section OwnedUnder

variable {P : State M C S L → Nat → L → Prop} {A : Nat → Option L → S → Prop} {l : L}

theorem ownedUnder_update (f : Nat → S → S) (next : S → L)
    (h : ∀ i s, P s i l → A i (some l) s.shared → A i (some (next s.shared)) (f i s.shared))
    (hA : ∀ i s, P s i l → ∀ j, j ≠ i → A j s.locs[j]? s.shared → A j s.locs[j]? (f i s.shared)) :
    (Instr.update f next : Instr M C S X L).OwnedUnder P A l := by
  rintro i s x sh' l' new hf hP
  cases hf
  exact ⟨h i s hP, hA i s hP, by simp⟩

/-- What is owned needs no condition on the statements. -/
theorem Instr.OwnedAs.under {c : Instr M C S X L} (h : c.OwnedAs A l) : c.OwnedUnder P A l := by
  cases c with
  | act f =>
    intro i s x sh' l' new hf _
    obtain ⟨h1, h2, h3⟩ := h i s.shared x sh' l' new hf
    exact ⟨h1, fun j => h2 j _, h3⟩
  | _ => exact h

variable [DecidableEq M] [DecidableEq C] {code : L → Instr M C S X L}

/-- A step whose statement is executed under `P` keeps what is owned. -/
theorem OwningUnder.step_valid (hA : OwningUnder code P A) {u u' : State M C S L} {a : Action X} (hP : Executes P u a)
    (hI : ∀ i, A i u.locs[i]? u.shared) (hs : step code u a = some u') (i : Nat) : A i u'.locs[i]? u'.shared := by
  rcases step_locs hs with ⟨h1, h2⟩ | ⟨k, l, l', ht, hc, h1, h2⟩ | ⟨k, x, l, f, l', new, ⟨ws, rfl⟩, ht, hc, hf, h2⟩
  · rw [h1, h2]; exact hI i
  · have hl : u.locs[k]? = some l := by simp [State.locs, ht, Thread.loc]
    rw [h1, h2, getElem?_set_eq hl]
    split
    · rename_i hki
      subst hki
      have hk := hI k
      rw [hl] at hk
      cases hcode : code l <;> rw [hcode] at hc <;> cases hc <;> exact hA.at hcode k _ hk
    · exact hI i
  · have hl : u.locs[k]? = some l := by simp [State.locs, ht, Thread.loc]
    obtain ⟨hown, hother, hnew⟩ := hA.at hc _ _ _ _ _ _ hf (hP k x ws l rfl ht)
    have hset : A i (u.locs.set k l')[i]? u'.shared := by
      rw [getElem?_set_eq hl]
      split
      · rename_i hki
        subst hki
        have hk := hI k
        rw [hl] at hk
        exact hown hk
      · rename_i hki; exact hother i (Ne.symm hki) (hI i)
    rw [h2, List.getElem?_append]
    split
    · exact hset
    · rename_i hlen
      rw [List.getElem?_eq_none (by omega)] at hset
      cases hn : new[i - (u.locs.set k l').length]? with
      | none => exact hset
      | some n => exact hnew n (List.mem_of_getElem? hn) i hset

/-- Owned data along a run whose statements are executed under `P`. -/
theorem OwningUnder.valid (hA : OwningUnder code P A) {s t : State M C S L} {ok : State M C S L → Action X → Prop}
    (hP : ∀ u a, Reach (step code) s u → ok u a → Executes P u a) (h0 : ∀ i, A i s.locs[i]? s.shared)
    (h : ReachWith (step code) ok s t) : ∀ i, A i t.locs[i]? t.shared :=
  ReachWith.invariant (I := fun u => ∀ i, A i u.locs[i]? u.shared) h (fun _ hu => hu) h0
    fun u a _ hu hI hok hs => hA.step_valid (hP u a hu hok) hI hs

/-- Owned data along a run. -/
theorem Owning.valid (hA : Owning code A) {s t : State M C S L} (h0 : ∀ i, A i s.locs[i]? s.shared)
    (h : Reach (step code) s t) : ∀ i, A i t.locs[i]? t.shared :=
  OwningUnder.valid (P := fun _ _ _ => True) (fun l => (hA l).under) (fun _ _ _ _ _ _ _ _ _ _ => trivial) h0 h

end OwnedUnder

end LinuxProgram.Machine
