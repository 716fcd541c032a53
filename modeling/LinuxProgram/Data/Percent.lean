/-
Percent-encoded text: what a text with escapes stands for. The relation says which bytes are an escape
and which stand for themselves; it relates every text to exactly one.
-/
import Mathlib.Tactic

namespace LinuxProgram.Data

theorem forall_byte {P : UInt8 → Prop} (h : ∀ n < 256, P (UInt8.ofNat n)) (c : UInt8) : P c := by
  have := h c.toNat c.toNat_lt
  rwa [UInt8.ofNat_toNat] at this

/-- The value of a hexadecimal digit, of either case. -/
def hexValue? (c : UInt8) : Option Nat :=
  if 48 ≤ c.toNat ∧ c.toNat ≤ 57 then some (c.toNat - 48)
  else if 65 ≤ c.toNat ∧ c.toNat ≤ 70 then some (c.toNat - 55)
  else if 97 ≤ c.toNat ∧ c.toNat ≤ 102 then some (c.toNat - 87)
  else none

/-- The text begins with a percent sign and two hexadecimal digits. -/
def BeginsEscape (s : List UInt8) : Prop :=
  ∃ a b rest, s = 37 :: a :: b :: rest ∧ (hexValue? a).isSome ∧ (hexValue? b).isSome

/-- From the left, an escape stands for the byte of its two digits and any other byte for itself. -/
inductive PercentDecodes : List UInt8 → List UInt8 → Prop where
  | nil : PercentDecodes [] []
  | escape {a b : UInt8} {hi lo : Nat} {s t : List UInt8} (ha : hexValue? a = some hi) (hb : hexValue? b = some lo)
      (h : PercentDecodes s t) : PercentDecodes (37 :: a :: b :: s) (UInt8.ofNat (hi * 16 + lo) :: t)
  | copy {c : UInt8} {s t : List UInt8} (hc : ¬ BeginsEscape (c :: s)) (h : PercentDecodes s t) :
      PercentDecodes (c :: s) (c :: t)

theorem PercentDecodes.unique {s t t' : List UInt8} (h : PercentDecodes s t) (h' : PercentDecodes s t') : t = t' := by
  induction h generalizing t' with
  | nil =>
    cases h'
    rfl
  | escape ha hb _ ih =>
    cases h' with
    | escape ha' hb' h' =>
      cases ha.symm.trans ha'
      cases hb.symm.trans hb'
      rw [ih h']
    | copy hc _ => exact absurd ⟨_, _, _, rfl, by rw [ha]; rfl, by rw [hb]; rfl⟩ hc
  | copy hc _ ih =>
    cases h' with
    | escape ha hb _ => exact absurd ⟨_, _, _, rfl, by rw [ha]; rfl, by rw [hb]; rfl⟩ hc
    | copy _ h' => rw [ih h']

end LinuxProgram.Data
