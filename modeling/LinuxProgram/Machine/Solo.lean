/-
Runs in which one thread moves alone: one rule for each kind of statement, composed in the order of the
thread's statements. They show that a state is reachable without naming the states on the way.
-/
import LinuxProgram.Machine.Threads

namespace LinuxProgram.Machine

variable {M C S X L : Type} [DecidableEq M] [DecidableEq C]

/-- Thread `i` comes to `l` alone, from the state `s`; then `sh` are the shared data and `own` the holders
of the mutexes. The other threads that run stay where they are. -/
def Solo (code : L → Instr M C S X L) (i : Nat) (s : State M C S L) (sh : S) (own : M → Option Nat) (l : L) : Prop :=
  ∃ u, Reach (step code) s u ∧ u.shared = sh ∧ u.owner = own ∧ u.threads[i]? = some (.run l) ∧
    ∀ (j : Nat) l', j ≠ i → s.threads[j]? = some (.run l') → u.threads[j]? = some (.run l')

section Solo

variable {code : L → Instr M C S X L} {i : Nat} {s : State M C S L} {sh : S} {own : M → Option Nat} {l l' : L}
    {m : M} {c : C}

theorem Solo.start (code : L → Instr M C S X L) (ht : s.threads[i]? = some (.run l)) :
    Solo code i s s.shared s.owner l :=
  ⟨s, Reach.refl s, rfl, rfl, ht, fun _ _ _ h => h⟩

/-- A step of one thread leaves the others that run where they are. -/
theorem run_kept {u u' : State M C S L} {x : X} {ws : List Nat} {j : Nat} (hs : step code u (.exec i x ws) = some u')
    (hij : j ≠ i) (hj : u.threads[j]? = some (.run l)) : u'.threads[j]? = some (.run l) := by
  obtain ⟨t', ht', hstep⟩ := step_thread hs hj
  cases hstep with
  | passive _ _ hr => rw [ht', hr l rfl]
  | wait ha hc hsh | next ha hc hsh | act ha hc hf =>
    cases ha
    exact absurd rfl hij

/-- A step of the thread, whichever state it is taken in. -/
theorem Solo.step {sh' : S} {own' : M → Option Nat} (h : Solo code i s sh own l)
    (hs : ∀ u : State M C S L, u.shared = sh → u.owner = own → u.threads[i]? = some (.run l) →
      ∃ x ws u', Machine.step code u (.exec i x ws) = some u' ∧ u'.shared = sh' ∧ u'.owner = own' ∧
        u'.threads[i]? = some (.run l')) : Solo code i s sh' own' l' := by
  obtain ⟨u, hr, hsh, hown, ht, hothers⟩ := h
  obtain ⟨x, ws, u', hs, hsh', hown', ht'⟩ := hs u hsh hown ht
  exact ⟨u', hr.snoc hs, hsh', hown', ht', fun j k hj hk => run_kept hs hj (hothers j k hj hk)⟩

variable [Inhabited X]

theorem Solo.lock (h : Solo code i s sh own l) (hc : code l = .lock m l') (hfree : own m = none) :
    Solo code i s sh (Function.update own m (some i)) l' := by
  refine h.step fun u hsh hown ht => ⟨default, [],
    { u with owner := Function.update u.owner m (some i), threads := u.threads.set i (.run l') }, ?_, hsh, ?_,
    set_getElem?_self ht _⟩
  · rw [step_run ht, hc]
    exact if_pos (by rw [hown]; exact hfree)
  · show Function.update u.owner m (some i) = _
    rw [hown]

/-- A mutex that was free before is given back. -/
theorem Solo.unlock (h : Solo code i s sh (Function.update own m (some i)) l) (hc : code l = .unlock m l')
    (hfree : own m = none) : Solo code i s sh own l' := by
  refine h.step fun u hsh hown ht => ⟨default, [],
    { u with owner := Function.update u.owner m none, threads := u.threads.set i (.run l') }, ?_, hsh, ?_,
    set_getElem?_self ht _⟩
  · rw [step_run ht, hc]
    rfl
  · show Function.update u.owner m none = own
    rw [hown, Function.update_idem, ← hfree, Function.update_eq_self]

theorem Solo.signal (h : Solo code i s sh own l) (hc : code l = .signal c l') : Solo code i s sh own l' := by
  refine h.step fun u hsh hown ht => ?_
  obtain ⟨ws, hws⟩ := exists_signalOk c u.threads
  refine ⟨default, ws, { u with threads := (wakeAt ws u.threads).set i (.run l') }, ?_, hsh, hown,
    List.getElem?_set_self ?_⟩
  · rw [step_run ht, hc]
    exact if_pos hws
  · rw [wakeAt_length]
    exact (List.getElem?_eq_some_iff.1 ht).1

theorem Solo.broadcast (h : Solo code i s sh own l) (hc : code l = .broadcast c l') : Solo code i s sh own l' := by
  refine h.step fun u hsh hown ht => ⟨default, [],
    { u with threads := (wakeAll c u.threads).set i (.run l') }, ?_, hsh, hown, List.getElem?_set_self ?_⟩
  · rw [step_run ht, hc]
    rfl
  · rw [wakeAll_length]
    exact (List.getElem?_eq_some_iff.1 ht).1

/-- A wait that ends spuriously, with the mutex free in between. -/
theorem Solo.wait (h : Solo code i s sh (Function.update own m (some i)) l) (hc : code l = .wait c m l') :
    Solo code i s sh (Function.update own m (some i)) l' := by
  obtain ⟨u, hr, hsh, hown, ht, hothers⟩ := h
  let v₁ : State M C S L :=
    { u with owner := Function.update u.owner m none, threads := u.threads.set i (.blocked c m l') }
  let v₂ : State M C S L := { v₁ with threads := v₁.threads.set i (.woken m l') }
  let v₃ : State M C S L :=
    { v₂ with owner := Function.update v₂.owner m (some i), threads := v₂.threads.set i (.run l') }
  have ht₁ : v₁.threads[i]? = some (.blocked c m l') := set_getElem?_self ht _
  have ht₂ : v₂.threads[i]? = some (.woken m l') := set_getElem?_self ht₁ _
  have h₁ : Machine.step code u (.exec i default []) = some v₁ := by
    rw [step_run ht, hc]
    rfl
  have h₃ : Machine.step code v₂ (.exec i default []) = some v₃ := by
    simp only [Machine.step, ht₂, State.acquire]
    exact if_pos (Function.update_self ..)
  refine ⟨v₃, ((hr.snoc h₁).snoc (step_spurious ht₁)).snoc h₃, hsh, ?_, set_getElem?_self ht₂ _, fun j k hj hk => ?_⟩
  · show Function.update (Function.update u.owner m none) m (some i) = _
    rw [Function.update_idem, hown, Function.update_idem]
  · have hkept := hothers j k hj hk
    show ((((u.threads.set i _).set i _).set i _) : List (Thread M C L))[j]? = _
    rw [List.getElem?_set_ne hj.symm, List.getElem?_set_ne hj.symm, List.getElem?_set_ne hj.symm]
    exact hkept

omit [Inhabited X] in
theorem Solo.act {f : Nat → S → X → Option (S × L × List L)} {x : X} {sh' : S} {new : List L}
    (h : Solo code i s sh own l) (hc : code l = .act f) (hf : f i sh x = some (sh', l', new)) :
    Solo code i s sh' own l' := by
  refine h.step fun u hsh hown ht => ⟨x, [],
    { u with shared := sh', threads := u.threads.set i (.run l') ++ new.map Thread.run }, ?_, rfl, hown, ?_⟩
  · rw [step_run ht, hc]
    simp only [State.exec, hsh, hf, Option.map_some]
  · have hlen := (List.getElem?_eq_some_iff.1 ht).1
    exact (List.getElem?_append_left (by simpa using hlen)).trans (set_getElem?_self ht _)

theorem Solo.update {f : Nat → S → S} {next : S → L} (h : Solo code i s sh own l) (hc : code l = .update f next) :
    Solo code i s (f i sh) own (next sh) :=
  h.act (x := default) hc rfl

theorem Solo.branch {b : S → Bool} {l₁ l₂ : L} {v : Bool} (h : Solo code i s sh own l) (hc : code l = .branch b l₁ l₂)
    (hb : b sh = v) : Solo code i s sh own (if v then l₁ else l₂) := by
  have := h.update hc
  simp only [hb] at this
  exact this

end Solo

end LinuxProgram.Machine
