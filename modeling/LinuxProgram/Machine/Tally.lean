/-
Invariants that add up over the threads. Each control location has a weight in a commutative
monoid: a number to count threads, a multiset for what a thread has in hand. A relation between
the shared data and the total weight of the threads' locations is kept by a run when each
statement keeps it for its own change of the total, whatever the other threads weigh.
-/
import LinuxProgram.Machine.Outline
import Mathlib.Algebra.Order.BigOperators.Group.List

namespace LinuxProgram.Machine

variable {M C S X L N : Type} [AddCommMonoid N]

/-- The total weight of a list of locations. -/
def tally (w : L → N) (ls : List L) : N := (ls.map w).sum

@[simp] theorem tally_nil (w : L → N) : tally w [] = 0 := rfl

@[simp] theorem tally_cons (w : L → N) (l : L) (ls : List L) : tally w (l :: ls) = w l + tally w ls := by
  simp [tally]

@[simp] theorem tally_append (w : L → N) (ls ls' : List L) : tally w (ls ++ ls') = tally w ls + tally w ls' := by
  simp [tally]

/-- The total is the weight of one location and that of the others, which stays when the one
location changes. -/
theorem tally_split (w : L → N) : ∀ {ls : List L} {k : Nat} {l : L}, ls[k]? = some l →
    ∃ n, tally w ls = n + w l ∧ ∀ l', tally w (ls.set k l') = n + w l'
  | [], _, _, h => by cases h
  | l₀ :: ls, 0, l, h => by
    cases h
    exact ⟨tally w ls, by rw [tally_cons, add_comm], fun l' => by rw [List.set_cons_zero, tally_cons, add_comm]⟩
  | l₀ :: ls, k + 1, l, h => by
    have h' : ls[k]? = some l := by simpa using h
    obtain ⟨n, h1, h2⟩ := tally_split w h'
    refine ⟨w l₀ + n, ?_, fun l' => ?_⟩
    · rw [tally_cons, h1, add_assoc]
    · rw [List.set_cons_succ, tally_cons, h2, add_assoc]

/-! ## The rule -/

/-- The statement at `l` keeps `I`, a relation between the shared data and the total weight, when
it is executed under the condition `K`; `n` is what the other threads weigh. -/
def Instr.Tallied (w : L → N) (K : L → S → N → X → Prop) (I : S → N → Prop) (l : L) : Instr M C S X L → Prop
  | .lock _ l' | .unlock _ l' | .wait _ _ l' | .signal _ l' | .broadcast _ l' => w l' = w l
  | .act f => ∀ i sh x sh' l' new n, f i sh x = some (sh', l', new) → K l sh (n + w l) x → I sh (n + w l) →
    I sh' (n + w l' + tally w new)
  | .halt => True

def Tallying (code : L → Instr M C S X L) (w : L → N) (K : L → S → N → X → Prop) (I : S → N → Prop) : Prop :=
  ∀ l, (code l).Tallied w K I l

/-- The condition that nothing is asked of a statement. -/
def Always : L → S → N → X → Prop := fun _ _ _ _ => True

/-- The step condition of a run whose statements are executed under `K`. -/
def ExecMeets (w : L → N) (K : L → S → N → X → Prop) (s : State M C S L) : Action X → Prop
  | .exec i x _ => ∀ l, s.threads[i]? = some (.run l) → K l s.shared (tally w s.locs) x
  | .spurious _ => True

theorem Tallying.at {code : L → Instr M C S X L} {w : L → N} {K : L → S → N → X → Prop} {I : S → N → Prop}
    (h : Tallying code w K I) {l : L} {c : Instr M C S X L} (hc : code l = c) : c.Tallied w K I l := hc ▸ h l

section Tallied

variable {w : L → N} {K : L → S → N → X → Prop} {I : S → N → Prop} {l l₁ l₂ : L}

theorem tallied_update (f : Nat → S → S) (next : S → L)
    (h : ∀ i sh n, I sh (n + w l) → I (f i sh) (n + w (next sh))) :
    (Instr.update f next : Instr M C S X L).Tallied w K I l := by
  rintro i sh x sh' l' new n hf - hI
  cases hf
  simpa using h i sh n hI

/-- A statement that keeps `I` and the weight of its thread. -/
theorem tallied_same (f : Nat → S → S) (next : S → L) (hw : ∀ sh, w (next sh) = w l)
    (h : ∀ i sh n, I sh n → I (f i sh) n) : (Instr.update f next : Instr M C S X L).Tallied w K I l := by
  refine tallied_update _ _ fun i sh n hI => ?_
  rw [hw]
  exact h i sh _ hI

theorem tallied_skip (hw : w l₁ = w l) : (Instr.skip l₁ : Instr M C S X L).Tallied w K I l :=
  tallied_same _ _ (fun _ => hw) fun _ _ _ h => h

theorem tallied_branch (b : S → Bool) (h₁ : w l₁ = w l) (h₂ : w l₂ = w l) :
    (Instr.branch b l₁ l₂ : Instr M C S X L).Tallied w K I l := by
  refine tallied_same _ _ (fun sh => ?_) fun _ _ _ h => h
  split
  · exact h₁
  · exact h₂

/-- One step keeps the relation. -/
theorem Tallying.step_valid [DecidableEq M] [DecidableEq C] {code : L → Instr M C S X L} (hT : Tallying code w K I)
    {s s' : State M C S L} {a : Action X} (hK : ExecMeets w K s a) (h : I s.shared (tally w s.locs))
    (hs : step code s a = some s') : I s'.shared (tally w s'.locs) := by
  rcases step_locs hs with ⟨h1, h2⟩ | ⟨k, l, l', ht, hc, h1, h2⟩ | ⟨k, x, l, f, l', new, ha, ht, hc, hf, h2⟩
  · rw [h1, h2]; exact h
  · obtain ⟨n, e₁, e₂⟩ := tally_split w (show s.locs[k]? = some l by simp [State.locs, ht, Thread.loc])
    have hw : w l' = w l := by
      cases hcode : code l <;> rw [hcode] at hc <;> cases hc <;> exact hT.at hcode
    rw [h1, h2, e₂, hw, ← e₁]; exact h
  · obtain ⟨n, e₁, e₂⟩ := tally_split w (show s.locs[k]? = some l by simp [State.locs, ht, Thread.loc])
    obtain ⟨ws, rfl⟩ := ha
    rw [h2, tally_append, e₂]
    refine hT.at hc _ _ _ _ _ _ n hf ?_ ?_
    · rw [← e₁]; exact hK l ht
    · rw [← e₁]; exact h

/-- The relation holds along a run whose statements are executed under `K`. -/
theorem Tallying.valid [DecidableEq M] [DecidableEq C] {code : L → Instr M C S X L} (hT : Tallying code w K I)
    {s t : State M C S L} (h0 : I s.shared (tally w s.locs)) (h : ReachWith (step code) (ExecMeets w K) s t) :
    I t.shared (tally w t.locs) :=
  ReachWith.invariant (I := fun u => I u.shared (tally w u.locs)) (J := fun _ => True) h (fun _ _ => trivial) h0
    fun _ _ _ _ hI hK hs => hT.step_valid hK hI hs

/-- The relation holds along every run if nothing is asked of its statements. -/
theorem Tallying.always [DecidableEq M] [DecidableEq C] {code : L → Instr M C S X L} (hT : Tallying code w Always I)
    {s t : State M C S L} (h0 : I s.shared (tally w s.locs)) (h : Reach (step code) s t) :
    I t.shared (tally w t.locs) :=
  h.invariant (I := fun u => I u.shared (tally w u.locs)) h0 fun u a _ hI hs =>
    hT.step_valid (by cases a <;> simp [ExecMeets, Always]) hI hs

end Tallied

/-! ## Counting -/

section Count

variable {w : L → Int}

/-- A location that occurs weighs at most the total. -/
theorem le_tally (hw : ∀ l, 0 ≤ w l) {ls : List L} {l : L} (h : l ∈ ls) : w l ≤ tally w ls := by
  refine List.single_le_sum (fun n hn => ?_) _ (List.mem_map_of_mem h)
  obtain ⟨l', -, rfl⟩ := List.mem_map.1 hn
  exact hw l'

/-- A positive total is due to some location of positive weight. -/
theorem exists_of_tally_pos : ∀ ls : List L, 0 < tally w ls → ∃ l ∈ ls, 0 < w l
  | [], h => by simp at h
  | l :: ls, h => by
    by_cases hl : 0 < w l
    · exact ⟨l, List.mem_cons_self, hl⟩
    · rw [tally_cons] at h
      have hls : 0 < tally w ls := by omega
      obtain ⟨l', hl', hw'⟩ := exists_of_tally_pos ls hls
      exact ⟨l', List.mem_cons_of_mem _ hl', hw'⟩

end Count

end LinuxProgram.Machine
