/-
Text as bytes: string constants and decimal numbers, and what a reader gets back from a number.
-/
import Mathlib.Data.Nat.Digits.Defs
import Mathlib.Tactic

namespace LinuxProgram.Data

/-! ## ASCII -/

def code (c : Char) : UInt8 := UInt8.ofNat c.toNat

/-- The bytes of a string constant. -/
def str (s : String) : List UInt8 := s.toList.map code

def crlf : List UInt8 := [13, 10]

/-- No control character. -/
def Printable (s : List UInt8) : Prop := ∀ b ∈ s, 32 ≤ b

instance (s : List UInt8) : Decidable (Printable s) := List.decidableBAll (fun b => 32 ≤ b) s

theorem Printable.append {s t : List UInt8} (hs : Printable s) (ht : Printable t) : Printable (s ++ t) := by
  intro b hb
  rcases List.mem_append.1 hb with h | h
  · exact hs b h
  · exact ht b h

theorem Printable.ite {s t : List UInt8} {c : Prop} [Decidable c] (hs : Printable s) (ht : Printable t) :
    Printable (if c then s else t) := by
  split
  · exact hs
  · exact ht

theorem Printable.notMem {s : List UInt8} (hs : Printable s) {b : UInt8} (hb : b < 32) : b ∉ s := by
  intro h
  exact absurd (hs b h) (UInt8.not_le.2 hb)

/-! ## Decimal numbers -/

def decNat (n : Nat) : List UInt8 := (Nat.toDigits 10 n).map code

/-- `%d` and `%ld`. -/
def dec (n : Int) : List UInt8 :=
  if n < 0 then code '-' :: decNat n.natAbs else decNat n.natAbs

def Digits (s : List UInt8) : Prop := ∀ b ∈ s, 48 ≤ b ∧ b ≤ 57

instance (s : List UInt8) : Decidable (Digits s) := List.decidableBAll (fun b => 48 ≤ b ∧ b ≤ 57) s

/-- The number that a list of digits stands for. -/
def decimal? (s : List UInt8) : Option Nat :=
  if s ≠ [] ∧ Digits s then some (Nat.ofDigitChars 10 (s.map fun b => Char.ofNat b.toNat) 0)
  else none

theorem code_of_mem_toDigits {n : Nat} {c : Char} (h : c ∈ Nat.toDigits 10 n) :
    48 ≤ code c ∧ code c ≤ 57 ∧ Char.ofNat (code c).toNat = c := by
  have hd : c.isDigit = true := Nat.isDigit_of_mem_toDigits (by decide) (by decide) h
  have hn : 48 ≤ c.toNat ∧ c.toNat ≤ 57 := by simpa [Char.isDigit, UInt32.le_iff_toNat_le] using hd
  have hcode : (code c).toNat = c.toNat := by
    rw [code, UInt8.toNat_ofNat']
    omega
  refine ⟨?_, ?_, ?_⟩
  · rw [UInt8.le_iff_toNat_le, hcode]; exact hn.1
  · rw [UInt8.le_iff_toNat_le, hcode]; exact hn.2
  · rw [hcode, Char.ofNat_toNat]

theorem mem_decNat {n : Nat} {b : UInt8} (h : b ∈ decNat n) : 48 ≤ b ∧ b ≤ 57 := by
  obtain ⟨c, hc, rfl⟩ := List.mem_map.1 h
  obtain ⟨hle, hge, -⟩ := code_of_mem_toDigits hc
  exact ⟨hle, hge⟩

theorem decNat_printable (n : Nat) : Printable (decNat n) := fun _ hb =>
  UInt8.le_trans (show (32 : UInt8) ≤ 48 by decide) (mem_decNat hb).1

theorem dec_printable (n : Int) : Printable (dec n) := by
  unfold dec
  split
  · intro b hb
    rcases List.mem_cons.1 hb with rfl | hb
    · decide
    · exact decNat_printable _ b hb
  · exact decNat_printable _

/-- A number is read back from its digits. -/
theorem decimal?_decNat (n : Nat) : decimal? (decNat n) = some n := by
  have hne : decNat n ≠ [] := by
    rw [decNat, ne_eq, List.map_eq_nil_iff]
    exact Nat.toDigits_ne_nil
  have hchars : (decNat n).map (fun b => Char.ofNat b.toNat) = Nat.toDigits 10 n := by
    rw [decNat, List.map_map]
    exact (List.map_congr_left fun c hc => (code_of_mem_toDigits hc).2.2).trans (List.map_id _)
  rw [decimal?, if_pos ⟨hne, fun b => mem_decNat⟩, hchars, Nat.ofDigitChars_toDigits (by decide) (by decide)]

theorem dec_natCast (n : Nat) : dec n = decNat n := by
  rw [dec, if_neg (by omega), Int.natAbs_natCast]

end LinuxProgram.Data
