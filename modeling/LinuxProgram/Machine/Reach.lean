/-
Runs of an executable labelled step function: the states reached by all runs and by the runs
whose steps meet a condition, the rule that carries an invariant along a run, and what it means
for a condition on steps to be exactly what a state property needs.
-/
import Mathlib.Logic.Relation

namespace LinuxProgram.Machine

section Reach

variable {σ α : Type}

/-- One step of `step` that meets `ok` in the state before it. -/
def StepWith (step : σ → α → Option σ) (ok : σ → α → Prop) (s s' : σ) : Prop :=
  ∃ a, step s a = some s' ∧ ok s a

/-- `t` is reached from `s` by a run all of whose steps meet `ok`. -/
def ReachWith (step : σ → α → Option σ) (ok : σ → α → Prop) : σ → σ → Prop :=
  Relation.ReflTransGen (StepWith step ok)

/-- `t` is reached from `s` by some run. -/
def Reach (step : σ → α → Option σ) : σ → σ → Prop := ReachWith step fun _ _ => True

/-- The state after a list of actions, if each of them is enabled in turn. -/
def runActions (step : σ → α → Option σ) : σ → List α → Option σ
  | s, [] => some s
  | s, a :: as => (step s a).bind fun s' => runActions step s' as

variable {step : σ → α → Option σ} {ok : σ → α → Prop}

theorem ReachWith.refl (s : σ) : ReachWith step ok s s := Relation.ReflTransGen.refl

theorem ReachWith.snoc {s t u : σ} {a : α} (h : ReachWith step ok s t) (hs : step t a = some u)
    (ha : ok t a) : ReachWith step ok s u :=
  Relation.ReflTransGen.tail h ⟨a, hs, ha⟩

theorem ReachWith.trans {s t u : σ} (h1 : ReachWith step ok s t) (h2 : ReachWith step ok t u) :
    ReachWith step ok s u :=
  Relation.ReflTransGen.trans h1 h2

theorem ReachWith.reach {s t : σ} (h : ReachWith step ok s t) : Reach step s t :=
  Relation.ReflTransGen.mono (fun _ _ ⟨a, ha, _⟩ => ⟨a, ha, trivial⟩) _ _ h

theorem ReachWith.mono {ok' : σ → α → Prop} {s t : σ} (h : ReachWith step ok s t) (himp : ∀ u a, ok u a → ok' u a) :
    ReachWith step ok' s t :=
  Relation.ReflTransGen.mono (fun u _ ⟨a, ha, hok⟩ => ⟨a, ha, himp u a hok⟩) _ _ h

theorem Reach.refl (s : σ) : Reach step s s := Relation.ReflTransGen.refl

theorem Reach.snoc {s t u : σ} {a : α} (h : Reach step s t) (hs : step t a = some u) :
    Reach step s u :=
  ReachWith.snoc h hs trivial

theorem Reach.cons {s t u : σ} {a : α} (hs : step s a = some t) (h : Reach step t u) :
    Reach step s u :=
  Relation.ReflTransGen.head ⟨a, hs, trivial⟩ h

theorem Reach.trans {s t u : σ} (h1 : Reach step s t) (h2 : Reach step t u) : Reach step s u :=
  Relation.ReflTransGen.trans h1 h2

/-- A run given by its actions reaches its last state. -/
theorem reach_of_runActions : ∀ (as : List α) {s t : σ}, runActions step s as = some t → Reach step s t
  | [], s, t, h => by cases h; exact Reach.refl _
  | a :: as, s, t, h => by
    obtain ⟨u, hu, h⟩ := Option.bind_eq_some_iff.1 h
    exact Reach.cons hu (reach_of_runActions as h)

/-- The state after a list of actions; the first state if one of them is disabled. -/
def after (step : σ → α → Option σ) (s : σ) (as : List α) : σ := (runActions step s as).getD s

theorem reach_after (s : σ) (as : List α) : Reach step s (after step s as) := by
  unfold after
  cases h : runActions step s as with
  | none => exact Reach.refl s
  | some t => exact reach_of_runActions as h

/-- The steps that meet `ok`. -/
def stepIf (step : σ → α → Option σ) (ok : σ → α → Prop) [∀ s a, Decidable (ok s a)] (s : σ) (a : α) : Option σ :=
  if ok s a then step s a else none

theorem ReachWith.of_stepIf [∀ s a, Decidable (ok s a)] {s t : σ} (h : Reach (stepIf step ok) s t) :
    ReachWith step ok s t := by
  induction h with
  | refl => exact ReachWith.refl s
  | tail _ hs ih =>
    obtain ⟨a, ha, -⟩ := hs
    unfold stepIf at ha
    split at ha
    · rename_i hok
      exact ih.snoc ha hok
    · cases ha

/-- A predicate that each step keeps, in the states where `J` is already known, holds along the
run. -/
theorem ReachWith.invariant {I J : σ → Prop} {s t : σ} (h : ReachWith step ok s t)
    (hJ : ∀ u, Reach step s u → J u) (h0 : I s)
    (hstep : ∀ u a u', J u → I u → ok u a → step u a = some u' → I u') : I t := by
  induction h with
  | refl => exact h0
  | tail hr hs ih =>
    obtain ⟨a, ha, hok⟩ := hs
    exact hstep _ a _ (hJ _ (ReachWith.reach hr)) ih hok ha

theorem Reach.invariant {I : σ → Prop} {s t : σ} (h : Reach step s t) (h0 : I s)
    (hstep : ∀ u a u', I u → step u a = some u' → I u') : I t :=
  ReachWith.invariant (J := fun _ => True) h (fun _ _ => trivial) h0
    fun u a u' _ hI _ hs => hstep u a u' hI hs

/-- The step condition `ok` is exactly what `P` needs on the runs from `s`: `P` holds in every
state of a run whose steps all meet `ok`, and a step of a run that does not meet `ok` can be
continued to a state in which `P` fails. -/
structure ExactFor (step : σ → α → Option σ) (ok : σ → α → Prop) (P : σ → Prop) (s : σ) : Prop where
  safe : ∀ t, ReachWith step ok s t → P t
  needed : ∀ t a u, Reach step s t → step t a = some u → ¬ ok t a → ∃ v, Reach step u v ∧ ¬ P v

end Reach

end LinuxProgram.Machine
