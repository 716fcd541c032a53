/-
A ring of `cap` slots read as a queue: the contents of the `size` slots from `front` on, taken
modulo `cap`. Writing the slot behind the last one appends to the contents, and moving `front` on
by one drops the first element.
-/
import Mathlib.Data.List.Basic
import Mathlib.Logic.Function.Basic
import Mathlib.Tactic

namespace LinuxProgram.Data

variable {α : Type}

/-- The contents of the ring. -/
def window (slots : Nat → α) (cap front size : Nat) : List α :=
  (List.range size).map fun i => slots ((front + i) % cap)

@[simp] theorem window_zero (slots : Nat → α) (cap front : Nat) : window slots cap front 0 = [] := rfl

theorem window_mod (slots : Nat → α) (cap front size : Nat) :
    window slots cap (front % cap) size = window slots cap front size := by
  simp [window]

/-- Two positions of a window no longer than the ring are different slots. -/
theorem slot_injective {cap front i j : Nat} (hi : i < cap) (hj : j < cap)
    (h : (front + i) % cap = (front + j) % cap) : i = j := by
  have key : ∀ {a b : Nat}, a < b → b < cap → (front + a) % cap ≠ (front + b) % cap := by
    intro a b hab hb he
    have hd : cap ∣ (front + b) - (front + a) := Nat.dvd_of_mod_eq_zero (Nat.sub_mod_eq_zero_of_mod_eq he.symm)
    have := Nat.eq_zero_of_dvd_of_lt hd (by omega)
    omega
  rcases Nat.lt_trichotomy i j with hij | hij | hij
  · exact absurd h (key hij hj)
  · exact hij
  · exact absurd h.symm (key hij hi)

/-- Writing the slot behind the contents appends. -/
theorem window_push {slots : Nat → α} {cap front size : Nat} (hs : size < cap) (x : α) :
    window (Function.update slots ((front + size) % cap) x) cap front (size + 1) =
      window slots cap front size ++ [x] := by
  unfold window
  rw [List.range_succ, List.map_append, List.map_singleton, Function.update_self]
  congr 1
  apply List.map_congr_left
  intro i hi
  rw [List.mem_range] at hi
  rw [Function.update_of_ne]
  intro h
  have := slot_injective (by omega) hs h
  omega

/-- The first element is in the slot `front`, and the rest is the window one further on. -/
theorem window_pop (slots : Nat → α) (cap front size : Nat) :
    window slots cap front (size + 1) = slots (front % cap) :: window slots cap (front + 1) size := by
  unfold window
  rw [List.range_succ_eq_map, List.map_cons, List.map_map, Nat.add_zero]
  congr 1
  apply List.map_congr_left
  intro i _
  simp only [Function.comp]
  congr 2
  omega

end LinuxProgram.Data
