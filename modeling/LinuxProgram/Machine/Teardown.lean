/-
When the owner of a shared object may destroy it. Some threads use the object until they have
finished; one statement closes it. No statement on the closed object is left to execute exactly if
every thread has finished when the object is closed: finished threads stay finished, no thread is
started on a closed object, and a thread that has not finished gets to use it again.
-/
import LinuxProgram.Machine.Outline

namespace LinuxProgram.Machine

variable {M C S X L : Type} [DecidableEq M] [DecidableEq C]

/-- The threads of a program against an object that is `gone` from some point on: the statements
that use it, the one that closes it, and the locations at which a thread has finished with it. -/
structure Teardown (code : L → Instr M C S X L) (gone : S → Prop) (closes uses finished : L → Bool) : Prop where
  /-- A thread that has finished does not use the object. -/
  unused : ∀ l, finished l = true → uses l = false
  next : ∀ l l', finished l = true → (code l).next = some l' → finished l' = true
  act : ∀ l, finished l = true →
    (code l).Acts fun _ _ sh' l' new => finished l' = true ∧ (gone sh' → ∀ n ∈ new, finished n = true)
  /-- Only the closing statement makes the object go, and nothing brings it back. -/
  gone : ∀ l, (code l).Acts fun _ sh sh' _ _ => (gone sh' → gone sh ∨ closes l = true) ∧ (gone sh → gone sh') ∧
    (closes l = true → gone sh')
  closer : ∀ l, closes l = true → finished l = true ∧ ∃ f, code l = .act f

/-- No statement that uses the object is left to execute once it is gone. -/
def Untouched (gone : S → Prop) (uses : L → Bool) (s : State M C S L) : Prop :=
  gone s.shared → ∀ t ∈ s.threads, t.isBlocked = false → uses t.loc = false

/-- The object is closed only when every thread has finished with it. -/
def ClosesLast (closes finished : L → Bool) (s : State M C S L) : Action X → Prop
  | .exec i _ _ => ∀ l, s.threads[i]? = some (.run l) → closes l = true → ∀ t ∈ s.threads, finished t.loc = true
  | .spurious _ => True

section Exact

variable {code : L → Instr M C S X L} {gone : S → Prop} {closes uses finished : L → Bool}

/-- Once the object is gone every thread stays finished. -/
theorem Teardown.finished_step (hT : Teardown code gone closes uses finished) {s s' : State M C S L} {a : Action X}
    (hs : step code s a = some s') (h : ∀ t ∈ s.threads, finished t.loc = true) (hg : gone s'.shared) :
    ∀ t ∈ s'.threads, finished t.loc = true := by
  intro t' ht'
  obtain ⟨j, hj'⟩ := List.mem_iff_getElem?.1 ht'
  rcases step_thread_back hs hj' with ⟨t, hj, hstep⟩ | ⟨i, x, l, f, l', new, n, hi, hc, hf, hn, rfl⟩
  · have ht := h t (List.mem_of_getElem? hj)
    cases hstep with
    | passive hl _ _ => rw [hl]; exact ht
    | @wait l x ws c m l' ha hc hsh => exact hT.next l l' ht (by rw [hc]; rfl)
    | next ha hc hsh => exact hT.next _ _ ht hc
    | act ha hc hf => exact ((hT.act _ ht).of hc hf).1
  · exact ((hT.act l (h _ (List.mem_of_getElem? hi))).of hc hf).2 hg n hn

/-- A thread at this location gets to a statement that uses the object by assignments of its own. -/
inductive GetsToUse (code : L → Instr M C S X L) (uses : L → Bool) : L → Prop where
  | here {l} (h : uses l = true) : GetsToUse code uses l
  | step {l} (f : Nat → S → S) (next : S → L) (hc : code l = .update f next)
      (h : ∀ sh, GetsToUse code uses (next sh)) : GetsToUse code uses l

theorem Teardown.reach_use [Inhabited X] (hT : Teardown code gone closes uses finished) {j : Nat} {l : L}
    (h : GetsToUse code uses l) : ∀ {s : State M C S L}, s.threads[j]? = some (.run l) → gone s.shared →
    ∃ v, Reach (step code) s v ∧ gone v.shared ∧ ∃ t ∈ v.threads, t.isBlocked = false ∧ uses t.loc = true := by
  induction h with
  | here h => exact fun {s} hj hg => ⟨s, Reach.refl s, hg, _, List.mem_of_getElem? hj, rfl, h⟩
  | @step l f next hc _ ih =>
    intro s hj hg
    have hs := step_update hj hc default []
    have hg' : gone (f j s.shared) := ((hT.gone l).of hc (x := default) rfl).2.1 hg
    obtain ⟨v, hv, hgv, hu⟩ := ih s.shared (s := { s with
      shared := f j s.shared, threads := s.threads.set j (.run (next s.shared)) }) (set_getElem?_self hj _) hg'
    exact ⟨v, Reach.cons hs hv, hgv, hu⟩

/-- An object is closed safely exactly in the runs in which every thread has finished with it by
then, if a thread that has not finished gets to use it, and so does a thread after a wait. -/
theorem Teardown.exact [Inhabited X] {holds : M → L → Bool} (hT : Teardown code gone closes uses finished)
    (hget : ∀ l, finished l = false → GetsToUse code uses l)
    (hwait : ∀ l c m l', code l = .wait c m l' → uses l' = true) {s₀ : State M C S L} (h0 : ¬ gone s₀.shared)
    (hm : ∀ s, Reach (step code) s₀ s → MutexInv code holds s) :
    ExactFor (step code) (ClosesLast closes finished) (Untouched gone uses) s₀ := by
  constructor
  · intro t h
    have hfin : gone t.shared → ∀ t' ∈ t.threads, finished t'.loc = true := by
      refine ReachWith.invariant (I := fun u => gone u.shared → ∀ t' ∈ u.threads, finished t'.loc = true)
        (J := fun _ => True) h (fun _ _ => trivial) (fun hg => absurd hg h0) ?_
      intro u a u' _ hI hok hs hg'
      refine hT.finished_step hs ?_ hg'
      rcases step_shared hs with e | ⟨i, x, ws, l, f, l', new, rfl, hi, hc, hf, -⟩
      · rw [e] at hg'; exact hI hg'
      · rcases ((hT.gone _).of hc hf).1 hg' with hg | hclose
        · exact hI hg
        · exact hok l hi hclose
    exact fun hg t' ht' _ => hT.unused _ (hfin hg t' ht')
  · intro t a u hr hs hok
    cases a with
    | spurious i => exact absurd trivial hok
    | exec i x ws =>
      simp only [ClosesLast, not_forall] at hok
      obtain ⟨l, hi, hclose, t₁, ht₁, hfin⟩ := hok
      obtain ⟨hl, f, hc⟩ := hT.closer l hclose
      obtain ⟨j, hj⟩ := List.mem_iff_getElem?.1 ht₁
      have hgone : gone u.shared := by
        rw [step_run hi, hc] at hs
        simp only [State.exec, Option.map_eq_some_iff] at hs
        obtain ⟨r, hf, rfl⟩ := hs
        exact ((hT.gone _).of hc hf).2.2 hclose
      obtain ⟨t₂, hj₂, hstep⟩ := step_thread hs hj
      -- the closing step does not touch the thread that has not finished
      have hloc : finished t₂.loc = false := by
        cases hstep with
        | passive hl' _ _ => rw [hl']; simpa using hfin
        | wait ha | next ha | act ha =>
          cases ha
          rw [hi] at hj; cases hj
          exact absurd hl hfin
      obtain ⟨v, hv, hgv, t', ht', hb, hu⟩ : ∃ v, Reach (step code) u v ∧ gone v.shared ∧
          ∃ t ∈ v.threads, t.isBlocked = false ∧ uses t.loc = true := by
        have hmu := hm u (hr.snoc hs)
        cases t₂ with
        | run l₂ => exact hT.reach_use (hget l₂ hloc) hj₂ hgone
        | woken m l₂ =>
          obtain ⟨l₀, c, hw⟩ := hmu.woken j m l₂ hj₂
          exact ⟨u, Reach.refl u, hgone, _, List.mem_of_getElem? hj₂, rfl, hwait _ _ _ _ hw⟩
        | blocked c m l₂ =>
          obtain ⟨l₀, hw⟩ := hmu.blocked j c m l₂ hj₂
          exact ⟨_, (Reach.refl u).snoc (step_spurious hj₂), hgone, _,
            List.mem_of_getElem? (set_getElem?_self hj₂ _), rfl, hwait _ _ _ _ hw⟩
      refine ⟨v, hv, fun hP => ?_⟩
      rw [hP hgv t' ht' hb] at hu; cases hu

end Exact

end LinuxProgram.Machine
