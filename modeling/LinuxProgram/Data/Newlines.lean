/-
Line ends. A carriage return ends a line, and so does the pair of a carriage return and a line feed;
normalised text has a line feed for either.
-/
import Mathlib.Data.List.Basic
import Mathlib.Tactic

namespace LinuxProgram.Data

/-- The text with every CR LF pair and every other CR replaced by one LF. -/
def normalise : List UInt8 → List UInt8
  | [] => []
  | 13 :: 10 :: rest => 10 :: normalise rest
  | 13 :: rest => 10 :: normalise rest
  | b :: rest => b :: normalise rest

/-- Between the two parts of a text stands no CR LF pair. -/
def Unpaired (s t : List UInt8) : Prop := ¬ (s.getLast? = some 13 ∧ t.head? = some 10)

theorem normalise_ne_nil {s : List UInt8} (h : s ≠ []) : normalise s ≠ [] := by
  fun_cases normalise s with
  | case1 => exact absurd rfl h
  | case2 => exact List.cons_ne_nil _ _
  | case3 => exact List.cons_ne_nil _ _
  | case4 => exact List.cons_ne_nil _ _

theorem normalise_cons {b : UInt8} (hb : b ≠ 13) (rest : List UInt8) : normalise (b :: rest) = b :: normalise rest := by
  rw [normalise.eq_4]
  · rintro r rfl
    exact absurd rfl hb
  · rintro rfl
    exact absurd rfl hb

/-- A carriage return that no line feed follows. -/
theorem normalise_cr {rest : List UInt8} (h : rest.head? ≠ some 10) :
    normalise (13 :: rest) = 10 :: normalise rest := by
  rw [normalise.eq_3]
  rintro r rfl
  exact absurd rfl h

/-- Text that is cut, but not between the two bytes of a pair. -/
theorem normalise_append {s t : List UInt8} (h : Unpaired s t) : normalise (s ++ t) = normalise s ++ normalise t := by
  fun_induction normalise s with
  | case1 => rfl
  | case2 rest ih =>
    rw [List.cons_append, List.cons_append, normalise, ih, List.cons_append]
    rintro ⟨hlast, hhead⟩
    refine h ⟨?_, hhead⟩
    rw [List.getLast?_cons, List.getLast?_cons, hlast]
    rfl
  | case3 rest hne ih =>
    have hhead : (rest ++ t).head? ≠ some 10 := by
      cases rest with
      | nil => exact fun ht => h ⟨rfl, ht⟩
      | cons b rest =>
        rintro ht
        cases ht
        exact hne rest rfl
    rw [List.cons_append, normalise_cr hhead, ih, List.cons_append]
    rintro ⟨hlast, ht⟩
    refine h ⟨?_, ht⟩
    rw [List.getLast?_cons, hlast]
    rfl
  | case4 b rest hne hne' ih =>
    have hb : b ≠ 13 := fun hb => hne' hb
    rw [List.cons_append, normalise_cons hb, ih, List.cons_append]
    rintro ⟨hlast, ht⟩
    refine h ⟨?_, ht⟩
    rw [List.getLast?_cons, hlast]
    rfl

end LinuxProgram.Data
