/-
C strings in byte buffers: the bytes before the first NUL.
-/
import Mathlib.Data.List.TakeWhile
import Mathlib.Tactic

namespace LinuxProgram.Data

/-- The string a buffer holds. -/
def cstr (bs : List UInt8) : List UInt8 := bs.takeWhile (· ≠ 0)

@[simp] theorem cstr_nil : cstr [] = [] := rfl

theorem cstr_length_le (bs : List UInt8) : (cstr bs).length ≤ bs.length :=
  (List.takeWhile_prefix _).length_le

/-- A string without a NUL in front of a buffer is part of the string the buffer holds. -/
theorem cstr_append {s : List UInt8} (hs : 0 ∉ s) (bs : List UInt8) : cstr (s ++ bs) = s ++ cstr bs := by
  unfold cstr
  refine List.takeWhile_append_of_pos fun b hb => ?_
  rw [decide_eq_true_eq]
  rintro rfl
  exact hs hb

theorem cstr_eq_self {s : List UInt8} (hs : 0 ∉ s) : cstr s = s := by
  have := cstr_append hs []
  rwa [List.append_nil, cstr_nil, List.append_nil] at this

theorem cstr_eq_self_iff {s : List UInt8} : cstr s = s ↔ 0 ∉ s := by
  refine ⟨fun h hmem => ?_, cstr_eq_self⟩
  rw [← h] at hmem
  have := List.mem_takeWhile_imp hmem
  simp at this

/-- `strrchr`: the string from the last `c` on. -/
def strrchr (c : UInt8) : List UInt8 → Option (List UInt8)
  | [] => none
  | b :: bs =>
    match strrchr c bs with
    | some s => some s
    | none => if b = c then some (b :: bs) else none

end LinuxProgram.Data
