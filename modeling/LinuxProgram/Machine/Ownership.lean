/-
Resources with at most one owner: what a step that gives a resource to a party, takes one from it or moves one to
another party makes of the rule that every owned resource is there and has one owner.
-/
import Mathlib.Logic.Function.Basic
import Mathlib.Tactic

namespace LinuxProgram.Machine

variable {K O : Type}

/-- What is owned is there, and has one owner. -/
structure Exclusive (owns : K → O → Prop) (there : K → Prop) : Prop where
  there : ∀ k o, owns k o → there k
  unique : ∀ k o o', owns k o → owns k o' → o = o'

namespace Exclusive

variable {owns owns' : K → O → Prop} {there there' : K → Prop}

theorem of_none (h : ∀ k o, ¬ owns k o) : Exclusive owns there :=
  ⟨fun k o ho => absurd ho (h k o), fun k o _ ho _ => absurd ho (h k o)⟩

theorem mono (h : Exclusive owns there) (howns : ∀ k o, owns' k o → owns k o) (hthere : ∀ k, there k → there' k) :
    Exclusive owns' there' :=
  ⟨fun k o ho => hthere k (h.there k o (howns k o ho)),
    fun k o o' ho ho' => h.unique k o o' (howns k o ho) (howns k o' ho')⟩

/-- A party gets a resource that was not there before. -/
theorem give (h : Exclusive owns there) (k₀ : K) (o₀ : O) (hnew : ¬ there k₀)
    (howns : ∀ k o, owns' k o → owns k o ∨ k = k₀ ∧ o = o₀) (hthere : ∀ k, there k ∨ k = k₀ → there' k) :
    Exclusive owns' there' := by
  constructor
  · intro k o ho
    rcases howns k o ho with ho | ⟨rfl, -⟩
    · exact hthere k (.inl (h.there k o ho))
    · exact hthere k (.inr rfl)
  · intro k o o' ho ho'
    rcases howns k o ho with ho | ⟨rfl, rfl⟩
    · rcases howns k o' ho' with ho' | ⟨rfl, -⟩
      · exact h.unique k o o' ho ho'
      · exact absurd (h.there k o ho) hnew
    · rcases howns k o' ho' with ho' | ⟨-, rfl⟩
      · exact absurd (h.there k o' ho') hnew
      · rfl

/-- A party gives a resource up. -/
theorem take (h : Exclusive owns there) {k₀ : K} {o₀ : O} (hold : owns k₀ o₀)
    (howns : ∀ k o, owns' k o → owns k o ∧ o ≠ o₀) (hthere : ∀ k, k ≠ k₀ → there k → there' k) :
    Exclusive owns' there' := by
  constructor
  · intro k o ho
    obtain ⟨ho, hne⟩ := howns k o ho
    refine hthere k ?_ (h.there k o ho)
    rintro rfl
    exact hne (h.unique k o o₀ ho hold)
  · intro k o o' ho ho'
    exact h.unique k o o' (howns k o ho).1 (howns k o' ho').1

/-- Parties change places. -/
theorem move (h : Exclusive owns there) (σ : Equiv.Perm O) (howns : ∀ k o, owns' k o → owns k (σ o))
    (hthere : ∀ k, there k → there' k) : Exclusive owns' there' := by
  constructor
  · exact fun k o ho => hthere k (h.there k _ (howns k o ho))
  · exact fun k o o' ho ho' => σ.injective (h.unique k _ _ (howns k o ho) (howns k o' ho'))

end Exclusive

end LinuxProgram.Machine
