/-
Byte memory. A cell that the program may use holds a byte, the others hold nothing: a load or a store
that meets one of these fails. What runs on a memory with few cells in use stays inside them.
-/
import LinuxProgram.Data.CStr
import Mathlib.Logic.Function.Basic

namespace LinuxProgram.Data

abbrev Memory := Nat → Option UInt8

namespace Memory

def load (m : Memory) (a : Nat) : Option UInt8 := m a

def store (m : Memory) (a : Nat) (c : UInt8) : Option Memory :=
  (m a).map fun _ => Function.update m a (some c)

/-- Bytes stored one behind the other. -/
def stores (m : Memory) (a : Nat) : List UInt8 → Option Memory
  | [] => some m
  | c :: cs => (m.store a c).bind fun m' => stores m' (a + 1) cs

/-- The `n` bytes from `a` on. -/
def loads (m : Memory) (a : Nat) : Nat → Option (List UInt8)
  | 0 => some []
  | n + 1 => (m.load a).bind fun c => (loads m (a + 1) n).map fun cs => c :: cs

/-- The string from `a` on, when its terminator is among the next `n` cells. -/
def string (m : Memory) : Nat → Nat → Option (List UInt8)
  | 0, _ => none
  | n + 1, a => (m.load a).bind fun c => if c = 0 then some [] else (string m n (a + 1)).map fun cs => c :: cs

/-- A memory of `size` cells, with anything in them. -/
def block (junk : Nat → UInt8) (size : Nat) : Memory := fun i => if i < size then some (junk i) else none

/-! ## What a memory holds -/

/-- The bytes stand in the cells from `a` on. -/
def Holds (m : Memory) (a : Nat) : List UInt8 → Prop
  | [] => True
  | c :: cs => m a = some c ∧ Holds m (a + 1) cs

/-- The `n` cells from `a` on may be used. -/
def Usable (m : Memory) (a n : Nat) : Prop := ∀ i, a ≤ i → i < a + n → (m i).isSome

/-- The memory with other bytes in the cells from `a` on. -/
def write (m : Memory) (a : Nat) : List UInt8 → Memory
  | [] => m
  | c :: cs => write (Function.update m a (some c)) (a + 1) cs

variable {m : Memory} {a b n : Nat} {c : UInt8} {cs ds : List UInt8}

theorem holds_append : Holds m a (cs ++ ds) ↔ Holds m a cs ∧ Holds m (a + cs.length) ds := by
  induction cs generalizing a with
  | nil => simp [Holds]
  | cons c cs ih =>
    rw [List.cons_append, Holds, Holds, ih, and_assoc, List.length_cons,
      show a + 1 + cs.length = a + (cs.length + 1) by omega]

/-- Memories that agree on the cells hold the same bytes there. -/
theorem Holds.congr {m' : Memory} (h : Holds m a cs) (heq : ∀ i, a ≤ i → i < a + cs.length → m' i = m i) :
    Holds m' a cs := by
  induction cs generalizing a with
  | nil => trivial
  | cons c cs ih =>
    rw [List.length_cons] at heq
    constructor
    · rw [heq a (le_refl a) (by omega)]
      exact h.1
    · exact ih h.2 fun i hi hlt => heq i (by omega) (by omega)

theorem Holds.usable (h : Holds m a cs) : Usable m a cs.length := by
  induction cs generalizing a with
  | nil =>
    intro i hi hlt
    exact absurd hlt (not_lt.2 hi)
  | cons c cs ih =>
    intro i hi hlt
    rcases eq_or_lt_of_le hi with rfl | hi
    · rw [h.1, Option.isSome_some]
    · exact ih h.2 i hi (by rw [List.length_cons] at hlt; omega)

theorem Usable.mono (h : Usable m a n) {k : Nat} (hab : a ≤ b) (hk : b + k ≤ a + n) : Usable m b k :=
  fun i hi hlt => h i (hab.trans hi) (hlt.trans_le hk)

/-! ## Storing -/

theorem update_of_usable (h : Usable m a n) : Usable (Function.update m b (some c)) a n := by
  intro i hi hlt
  by_cases hib : i = b
  · rw [hib, Function.update_self, Option.isSome_some]
  · rw [Function.update_of_ne hib]
    exact h i hi hlt

theorem store_eq (h : Usable m a (n + 1)) : m.store a c = some (Function.update m a (some c)) := by
  obtain ⟨d, hd⟩ := Option.isSome_iff_exists.1 (h a (le_refl a) (by omega))
  rw [store, hd, Option.map_some]

theorem stores_eq (h : Usable m a cs.length) : m.stores a cs = some (m.write a cs) := by
  induction cs generalizing m a with
  | nil => rfl
  | cons c cs ih =>
    rw [stores, store_eq h, Option.bind_some]
    exact ih (update_of_usable (h.mono (Nat.le_succ a) (by rw [List.length_cons]; omega)))

theorem write_append : m.write a (cs ++ ds) = (m.write a cs).write (a + cs.length) ds := by
  induction cs generalizing m a with
  | nil => rfl
  | cons c cs ih =>
    rw [List.cons_append, write, ih, List.length_cons, write, show a + 1 + cs.length = a + (cs.length + 1) by omega]

/-- Cells outside. -/
theorem write_of_outside {i : Nat} (h : i < a ∨ a + cs.length ≤ i) : m.write a cs i = m i := by
  induction cs generalizing m a with
  | nil => rfl
  | cons c cs ih =>
    rw [List.length_cons] at h
    rw [write, ih (by omega), Function.update_of_ne (by omega)]

theorem holds_write : Holds (m.write a cs) a cs := by
  induction cs generalizing m a with
  | nil => trivial
  | cons c cs ih =>
    constructor
    · rw [write, write_of_outside (.inl (Nat.lt_succ_self a)), Function.update_self]
    · exact ih

theorem Usable.write (h : Usable m a n) : Usable (m.write b cs) a n := by
  induction cs generalizing m b with
  | nil => exact h
  | cons c cs ih => exact ih (update_of_usable h)

/-- Bytes that another write does not reach. -/
theorem Holds.write (h : Holds m a cs) (hout : a + cs.length ≤ b ∨ b + ds.length ≤ a) : Holds (m.write b ds) a cs :=
  h.congr fun _ hi hlt => write_of_outside (by omega)

theorem write_inside {i : Nat} (h : i < cs.length) : m.write a cs (a + i) = cs[i]? := by
  induction cs generalizing m a i with
  | nil => cases h
  | cons c cs ih =>
    cases i with
    | zero =>
      have h : Holds (m.write a (c :: cs)) a (c :: cs) := holds_write
      exact h.1
    | succ i =>
      rw [write, show a + (i + 1) = a + 1 + i by omega, ih (Nat.lt_of_succ_lt_succ h)]
      rfl

/-- Bytes that are written over. -/
theorem write_over {es : List UInt8} (h : ds.length ≤ es.length) :
    (m.write a (cs ++ ds)).write (a + cs.length) es = m.write a (cs ++ es) := by
  rw [write_append, write_append]
  generalize m.write a cs = m', a + cs.length = b
  funext i
  by_cases hi : b ≤ i ∧ i < b + es.length
  · obtain ⟨k, rfl⟩ := Nat.exists_eq_add_of_le hi.1
    rw [write_inside (by omega), write_inside (by omega)]
  · rw [write_of_outside (by omega), write_of_outside (by omega), write_of_outside (by omega)]

theorem Holds.loads (h : Holds m a cs) : m.loads a cs.length = some cs := by
  induction cs generalizing a with
  | nil => rfl
  | cons c cs ih => rw [List.length_cons, Memory.loads, load, h.1, Option.bind_some, ih h.2, Option.map_some]

/-- The bytes up to the first NUL, or to the terminator behind them. -/
theorem Holds.string (h : Holds m a (cs ++ [0])) (hlen : cs.length < n) : m.string n a = some (cstr cs) := by
  induction cs generalizing a n with
  | nil =>
    obtain ⟨k, rfl⟩ := Nat.exists_eq_succ_of_ne_zero (Nat.ne_of_gt hlen)
    rw [Memory.string, load, h.1, Option.bind_some, if_pos rfl]
    rfl
  | cons c cs ih =>
    obtain ⟨k, rfl⟩ := Nat.exists_eq_succ_of_ne_zero (Nat.ne_of_gt (Nat.zero_lt_of_lt hlen))
    rw [Memory.string, load, h.1, Option.bind_some, cstr, List.takeWhile_cons]
    by_cases hc : c = 0
    · rw [if_pos hc, if_neg (by simp [hc])]
    · rw [if_neg hc, if_pos (by simp [hc]), ih h.2 (Nat.lt_of_succ_lt_succ hlen)]
      rfl

theorem block_usable (junk : Nat → UInt8) (size : Nat) : Usable (block junk size) 0 size := by
  intro i _ hlt
  rw [block, if_pos (by omega)]
  rfl

end Memory

end LinuxProgram.Data
