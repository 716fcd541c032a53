/-
Relative walks in a tree. A walk that stays, goes up one level or down one level never gets above the
level where it starts exactly if no part of it from the start on goes up more often than down.
-/
import Mathlib.Data.List.Infix
import Mathlib.Tactic

namespace LinuxProgram.Data

inductive Move where
  | stay
  | up
  | down
  deriving DecidableEq, Repr

/-- The level after a move, if it is not above the start. -/
def Move.level : Move → Nat → Option Nat
  | .stay, d => some d
  | .down, d => some (d + 1)
  | .up, 0 => none
  | .up, d + 1 => some d

/-- The level after a walk, if it never gets above the start. -/
def descend : Nat → List Move → Option Nat
  | d, [] => some d
  | d, m :: ms => (m.level d).bind fun d' => descend d' ms

theorem forall_prefix_cons {α : Type} {P : List α → Prop} {a : α} {l : List α} :
    (∀ pre, pre <+: a :: l → P pre) ↔ P [] ∧ ∀ pre, pre <+: l → P (a :: pre) := by
  constructor
  · intro h
    exact ⟨h [] (List.nil_prefix), fun pre hpre => h (a :: pre) (List.cons_prefix_cons.2 ⟨rfl, hpre⟩)⟩
  · rintro ⟨hnil, hcons⟩ pre hpre
    cases pre with
    | nil => exact hnil
    | cons b pre =>
      obtain ⟨rfl, hrest⟩ := List.cons_prefix_cons.1 hpre
      exact hcons pre hrest

theorem descend_isSome_iff (d : Nat) (ms : List Move) :
    (descend d ms).isSome = true ↔ ∀ pre, pre <+: ms → pre.count .up ≤ d + pre.count .down := by
  induction ms generalizing d with
  | nil =>
    refine ⟨fun _ pre hpre => ?_, fun _ => rfl⟩
    rw [List.prefix_nil.1 hpre]
    exact Nat.zero_le _
  | cons m ms ih =>
    rw [forall_prefix_cons]
    cases m with
    | stay =>
      refine (ih d).trans ⟨fun h => ⟨Nat.zero_le _, fun pre hpre => ?_⟩, fun h pre hpre => ?_⟩
      · simpa using h pre hpre
      · simpa using h.2 pre hpre
    | down =>
      refine (ih (d + 1)).trans ⟨fun h => ⟨Nat.zero_le _, fun pre hpre => ?_⟩, fun h pre hpre => ?_⟩
      · have := h pre hpre
        simp
        omega
      · have := h.2 pre hpre
        simp at this
        omega
    | up =>
      cases d with
      | zero =>
        refine iff_of_false (by simp [descend, Move.level]) fun h => ?_
        have := h.2 [] List.nil_prefix
        simp at this
      | succ d =>
        refine (ih d).trans ⟨fun h => ⟨Nat.zero_le _, fun pre hpre => ?_⟩, fun h pre hpre => ?_⟩
        · have := h pre hpre
          simp
          omega
        · have := h.2 pre hpre
          simp at this
          omega

end LinuxProgram.Data
