/-
Numbers in groups of seven bits, the lowest group first, with the high bit set in every byte but the last.
-/
import LinuxProgram.Data.Fields
import Mathlib.Tactic

namespace LinuxProgram.Data

/-- The number in at most `k + 1` bytes. -/
def varint : Nat → Nat → List UInt8
  | 0, n => [UInt8.ofNat n]
  | k + 1, n => if n < 128 then [UInt8.ofNat n] else UInt8.ofNat (n % 128 + 128) :: varint k (n / 128)

/-- A number of at most `k + 1` bytes. -/
def readVarint : Nat → Reader UInt8 Nat
  | _, [] => none
  | 0, b :: s => if b < 128 then some (b.toNat, s) else none
  | k + 1, b :: s =>
    if b < 128 then some (b.toNat, s)
    else (readVarint k s).map fun x => (b.toNat % 128 + 128 * x.1, x.2)

theorem varint_lt (k : Nat) {n : Nat} (h : n < 128) : varint k n = [UInt8.ofNat n] := by
  cases k with
  | zero => rfl
  | succ k => rw [varint, if_pos h]

theorem readVarint_takes {k n : Nat} (h : n < 128 ^ (k + 1)) : (readVarint k).Takes (varint k n) n := by
  induction k generalizing n with
  | zero =>
    intro rest
    have hn : n < 128 := by simpa using h
    have hb : (UInt8.ofNat n).toNat = n := by
      rw [UInt8.toNat_ofNat']
      omega
    have hlt : UInt8.ofNat n < 128 := by
      rw [UInt8.lt_iff_toNat_lt, hb]
      exact hn
    rw [varint, List.singleton_append, readVarint, if_pos hlt, hb]
  | succ k ih =>
    intro rest
    rw [varint]
    split
    · rename_i hn
      have hb : (UInt8.ofNat n).toNat = n := by
        rw [UInt8.toNat_ofNat']
        omega
      have hlt : UInt8.ofNat n < 128 := by
        rw [UInt8.lt_iff_toNat_lt, hb]
        exact hn
      rw [List.singleton_append, readVarint, if_pos hlt, hb]
    · rename_i hn
      have hb : (UInt8.ofNat (n % 128 + 128)).toNat = n % 128 + 128 := by
        rw [UInt8.toNat_ofNat']
        omega
      have hlt : ¬ UInt8.ofNat (n % 128 + 128) < 128 := by
        rw [UInt8.lt_iff_toNat_lt, hb]
        exact Nat.not_lt.2 (Nat.le_add_left _ _)
      have hrest : n / 128 < 128 ^ (k + 1) := by
        rw [Nat.div_lt_iff_lt_mul (by decide), ← pow_succ]
        exact h
      rw [List.cons_append, readVarint, if_neg hlt, ih hrest rest, Option.map_some, hb]
      congr 2
      omega

/-- At least a byte is read, and the bytes that were read are read the same way before anything else. -/
theorem readVarint_eq {k : Nat} {s t : List UInt8} {n : Nat} (h : readVarint k s = some (n, t)) :
    ∃ w, s = w ++ t ∧ 0 < w.length ∧ (readVarint k).Takes w n := by
  induction k generalizing s n with
  | zero =>
    cases s with
    | nil => cases h
    | cons b s =>
      rw [readVarint] at h
      split at h
      · rename_i hlt
        cases h
        refine ⟨[b], rfl, Nat.one_pos, fun rest => ?_⟩
        rw [List.singleton_append, readVarint, if_pos hlt]
      · cases h
  | succ k ih =>
    cases s with
    | nil => cases h
    | cons b s =>
      rw [readVarint] at h
      split at h
      · rename_i hlt
        cases h
        refine ⟨[b], rfl, Nat.one_pos, fun rest => ?_⟩
        rw [List.singleton_append, readVarint, if_pos hlt]
      · rename_i hlt
        obtain ⟨x, hx, hxe⟩ := Option.map_eq_some_iff.1 h
        cases hxe
        obtain ⟨w, rfl, -, htakes⟩ := ih hx
        refine ⟨b :: w, rfl, Nat.succ_pos _, fun rest => ?_⟩
        rw [List.cons_append, readVarint, if_neg hlt, htakes rest]
        rfl

theorem readVarint_stable (k : Nat) : (readVarint k).Stable := by
  intro s n t h
  obtain ⟨w, hs, -, hw⟩ := readVarint_eq h
  exact ⟨w, hs, hw⟩

theorem readVarint_shortens {k : Nat} {s t : List UInt8} {n : Nat} (h : readVarint k s = some (n, t)) :
    t.length < s.length := by
  obtain ⟨w, rfl, hpos, -⟩ := readVarint_eq h
  rw [List.length_append]
  omega

end LinuxProgram.Data
