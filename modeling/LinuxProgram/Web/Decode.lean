/-
`strdecode` of pub.c on memory. The servers decode a string in place: the write position never passes
the read position, so every byte is read before it is written over, and the bytes that are written are
those that decoding into a separate buffer writes.
-/
import LinuxProgram.Data.Memory
import LinuxProgram.Data.Percent
import LinuxProgram.Web.Pub

namespace LinuxProgram.Web

open LinuxProgram.Data

/-! ## The code -/

/-- `from[0] == '%' && isxdigit(from[1]) && isxdigit(from[2])`, where `c` is `from[0]`: a byte is
loaded only when the test of the one before it holds. -/
def isEscape (m : Memory) (src : Nat) (c : UInt8) : Option Bool :=
  if c = code '%' then
    (m.load (src + 1)).bind fun a => if isxdigit a then (m.load (src + 2)).map isxdigit else some false
  else some false

/-- `hexit(from[1])*16 + hexit(from[2])`. -/
def escapeValue (m : Memory) (src : Nat) : Option UInt8 :=
  (m.load (src + 1)).bind fun a => (m.load (src + 2)).map fun b => hexit a * 16 + hexit b

/-- `strdecode(to, from)`, for at most as many turns as there is fuel. -/
def strdecodeAt : Nat → Memory → Nat → Nat → Option Memory
  | 0, _, _, _ => none
  | fuel + 1, m, dst, src =>
    (m.load src).bind fun c =>
      if c = 0 then m.store dst 0
      else (isEscape m src c).bind fun escape =>
        if escape then
          (escapeValue m src).bind fun v => (m.store dst v).bind fun m' => strdecodeAt fuel m' (dst + 1) (src + 2 + 1)
        else (m.store dst c).bind fun m' => strdecodeAt fuel m' (dst + 1) (src + 1)

/-! ## What decoding is -/

/-- `isxdigit` finds the hexadecimal digits, and `hexit` their values. -/
theorem hexit_value (c : UInt8) :
    isxdigit c = (hexValue? c).isSome ∧ ∀ n, hexValue? c = some n → hexit c = UInt8.ofNat n := by
  have hall : isxdigit c = (hexValue? c).isSome ∧ ((hexValue? c).all fun v => hexit c = UInt8.ofNat v) = true := by
    revert c
    exact forall_byte (by decide +kernel)
  obtain ⟨hdigit, hvalue⟩ := hall
  refine ⟨hdigit, fun n hn => ?_⟩
  rw [hn, Option.all_some, decide_eq_true_eq] at hvalue
  exact hvalue

theorem beginsEscape_iff {a b : UInt8} {rest : List UInt8} :
    BeginsEscape (37 :: a :: b :: rest) ↔ (isxdigit a && isxdigit b) = true := by
  rw [Bool.and_eq_true, (hexit_value a).1, (hexit_value b).1]
  constructor
  · rintro ⟨_, _, _, he, h⟩
    cases he
    exact h
  · intro h
    exact ⟨a, b, rest, rfl, h⟩

/-- What is written for a string is what the string stands for. -/
theorem strdecode_decodes (s : List UInt8) : PercentDecodes s (strdecode s) := by
  fun_induction strdecode s with
  | case1 => exact .nil
  | case2 a b rest h ih =>
    rw [Bool.and_eq_true, (hexit_value a).1, (hexit_value b).1] at h
    obtain ⟨hi, ha⟩ := Option.isSome_iff_exists.1 h.1
    obtain ⟨lo, hb⟩ := Option.isSome_iff_exists.1 h.2
    rw [(hexit_value a).2 hi ha, (hexit_value b).2 lo hb]
    have := PercentDecodes.escape ha hb ih
    rwa [UInt8.ofNat_add, UInt8.ofNat_mul] at this
  | case3 a b rest h ih => exact .copy (fun he => h (beginsEscape_iff.1 he)) ih
  | case4 c rest hne ih =>
    refine .copy ?_ ih
    rintro ⟨a, b, rest', he, -⟩
    cases he
    exact hne a b rest' rfl rfl

/-! ## Decoding in memory -/

variable {m : Memory} {dst src : Nat} {s : List UInt8}

/-- The writer is not in front of the reader, or it is past the end of the string. -/
def Apart (dst src len : Nat) : Prop := dst ≤ src ∨ src + len < dst

/-- A store leaves the bytes still to be read as they are. -/
theorem Apart.holds {read rest : List UInt8} {v : UInt8} (h : Apart dst src (read ++ rest).length) (hread : read ≠ [])
    (hs : m.Holds src (read ++ rest ++ [0])) :
    Memory.Holds (Function.update m dst (some v)) (src + read.length) (rest ++ [0]) := by
  have hpos : 0 < read.length := List.length_pos_iff.2 hread
  rw [List.append_assoc, Memory.holds_append] at hs
  refine hs.2.congr fun i hi hlt => Function.update_of_ne ?_ _ _
  rw [Apart, List.length_append] at h
  rw [List.length_append, List.length_singleton] at hlt
  omega

theorem isEscape_escape {a b : UInt8} {rest : List UInt8} (hs : m.Holds src (37 :: a :: b :: rest)) :
    isEscape m src 37 = some (isxdigit a && isxdigit b) := by
  obtain ⟨-, ha, hb, -⟩ := hs
  unfold isEscape Memory.load
  rw [if_pos (by decide), ha, Option.bind_some]
  cases isxdigit a with
  | false => rfl
  | true =>
    rw [if_pos rfl, hb]
    rfl

/-- Near its end a string has no escape: the terminator is not a digit. -/
theorem isEscape_copy {c : UInt8} {rest : List UInt8} (hne : ∀ a b s', c = 37 → rest = a :: b :: s' → False)
    (hs : m.Holds src (c :: rest ++ [0])) : isEscape m src c = some false := by
  have hzero : isxdigit 0 = false := by decide
  unfold isEscape Memory.load
  split
  · rename_i hc
    rcases rest with _ | ⟨a, _ | ⟨b, s'⟩⟩
    · rw [hs.2.1, Option.bind_some, hzero]
      rfl
    · rw [hs.2.1, Option.bind_some, hs.2.2.1, Option.map_some, hzero]
      exact ite_self _
    · exact (hne a b s' hc rfl).elim
  · rfl

/-- A turn of the loop writes one byte, and the rest of the string is still to be read. -/
theorem strdecodeAt_turn {r rest : List UInt8} {v : UInt8} {fuel : Nat}
    (hturn : strdecodeAt (fuel + 1) m dst src =
      (m.store dst v).bind fun m' => strdecodeAt fuel m' (dst + 1) (src + r.length))
    (hread : r ≠ []) (hs : m.Holds src (r ++ rest ++ [0])) (hap : Apart dst src (r ++ rest).length)
    (hdst : m.Usable dst ((strdecode rest).length + 1 + 1))
    (ih : ∀ {m' : Memory} {dst' src' : Nat}, m'.Holds src' (rest ++ [0]) →
      m'.Usable dst' ((strdecode rest).length + 1) →
      Apart dst' src' rest.length → strdecodeAt fuel m' dst' src' = some (m'.write dst' (strdecode rest ++ [0]))) :
    strdecodeAt (fuel + 1) m dst src = some (m.write dst (v :: strdecode rest ++ [0])) := by
  have hpos : 0 < r.length := List.length_pos_iff.2 hread
  rw [hturn, Memory.store_eq hdst, Option.bind_some]
  refine ih (hap.holds hread hs) ?_ ?_
  · exact Memory.update_of_usable (hdst.mono (Nat.le_succ dst) (by omega))
  · rw [Apart, List.length_append] at hap
    unfold Apart
    omega

theorem strdecodeAt_escape {a b : UInt8} {rest : List UInt8} (h : (isxdigit a && isxdigit b) = true)
    (hs : m.Holds src (37 :: a :: b :: rest)) (fuel : Nat) : strdecodeAt (fuel + 1) m dst src =
      (m.store dst (hexit a * 16 + hexit b)).bind fun m' => strdecodeAt fuel m' (dst + 1)
      (src + [37, a, b].length) := by
  rw [strdecodeAt, Memory.load, hs.1, Option.bind_some, if_neg (by decide), isEscape_escape hs, h, Option.bind_some,
    if_pos rfl, escapeValue, Memory.load, hs.2.1, Option.bind_some, Memory.load, hs.2.2.1]
  rfl

theorem strdecodeAt_copy {c : UInt8} (hc : c ≠ 0) (h : isEscape m src c = some false) (hs : m src = some c)
    (fuel : Nat) : strdecodeAt (fuel + 1) m dst src =
      (m.store dst c).bind fun m' => strdecodeAt fuel m' (dst + 1) (src + [c].length) := by
  rw [strdecodeAt, Memory.load, hs, Option.bind_some, if_neg hc, h, Option.bind_some, if_neg Bool.false_ne_true]
  rfl

/-- `strdecode` ends, and what it has done is to write the decoded string and its terminator. -/
theorem strdecodeAt_eq (h0 : 0 ∉ s) (hs : m.Holds src (s ++ [0])) (hdst : m.Usable dst ((strdecode s).length + 1))
    (hap : Apart dst src s.length) {fuel : Nat} (hfuel : s.length < fuel) :
    strdecodeAt fuel m dst src = some (m.write dst (strdecode s ++ [0])) := by
  obtain ⟨fuel, rfl⟩ := Nat.exists_eq_succ_of_ne_zero (Nat.ne_zero_of_lt hfuel)
  fun_induction strdecode s generalizing m dst src fuel with
  | case1 =>
    rw [strdecodeAt, Memory.load, hs.1, Option.bind_some, if_pos rfl]
    exact Memory.store_eq hdst
  | case2 a b rest h ih =>
    simp only [List.mem_cons, not_or, List.length_cons] at h0 hfuel
    obtain ⟨fuel, rfl⟩ := Nat.exists_eq_succ_of_ne_zero (show fuel ≠ 0 by omega)
    refine strdecodeAt_turn (strdecodeAt_escape h hs _) (List.cons_ne_nil _ _) hs hap hdst ?_
    intro m' dst' src' hs' hdst' hap'
    exact ih h0.2.2.2 hs' hdst' hap' fuel (by omega)
  | case3 a b rest h ih =>
    simp only [List.mem_cons, not_or, List.length_cons] at h0 hfuel
    obtain ⟨fuel, rfl⟩ := Nat.exists_eq_succ_of_ne_zero (show fuel ≠ 0 by omega)
    have hcopy : isEscape m src 37 = some false := by
      rw [isEscape_escape hs]
      exact congrArg some (Bool.eq_false_iff.2 h)
    refine strdecodeAt_turn (r := [37]) (strdecodeAt_copy (by decide) hcopy hs.1 _)
      (List.cons_ne_nil _ _) hs hap hdst ?_
    intro m' dst' src' hs' hdst' hap'
    exact ih (by simp only [List.mem_cons, not_or]; exact h0.2) hs' hdst' hap' fuel
      (by simp only [List.length_cons]; omega)
  | case4 c rest hne ih =>
    simp only [List.mem_cons, not_or, List.length_cons] at h0 hfuel
    obtain ⟨fuel, rfl⟩ := Nat.exists_eq_succ_of_ne_zero (show fuel ≠ 0 by omega)
    refine strdecodeAt_turn (r := [c]) (strdecodeAt_copy (Ne.symm h0.1) (isEscape_copy hne hs) hs.1 _)
      (List.cons_ne_nil _ _) hs hap hdst ?_
    intro m' dst' src' hs' hdst' hap'
    exact ih h0.2 hs' hdst' hap' fuel (by omega)

/-! ## In place -/

/-- The cells of a string and its terminator are enough for decoding it in place. The bytes written are those
written into any separate buffer: what the string stands for, and one terminator. -/
theorem strdecode_in_place {s : List UInt8} (h0 : 0 ∉ s) {fuel : Nat} (hfuel : s.length < fuel) :
    ∃ out, PercentDecodes s out ∧ out.length ≤ s.length ∧
      (∀ (m : Memory) (p : Nat), m.Holds p (s ++ [0]) → strdecodeAt fuel m p p = some (m.write p (out ++ [0]))) ∧
      ∀ (m : Memory) (p t : Nat), m.Holds p (s ++ [0]) → m.Usable t (out.length + 1) →
        t + out.length < p ∨ p + s.length < t → strdecodeAt fuel m t p = some (m.write t (out ++ [0])) := by
  have hlen := strdecode_length_le s
  refine ⟨strdecode s, strdecode_decodes s, hlen, ?_, ?_⟩
  · intro m p hs
    refine strdecodeAt_eq h0 hs (hs.usable.mono (le_refl p) ?_) (.inl (le_refl p)) hfuel
    rw [List.length_append, List.length_singleton]
    omega
  · intro m p t hs ht hap
    exact strdecodeAt_eq h0 hs ht (hap.imp_left fun h => by omega) hfuel

def escapedAtEnd : List UInt8 := str "a%20%25%4"

theorem strdecode_in_place_escapedAtEnd : ∃ out, PercentDecodes escapedAtEnd out ∧
    strdecodeAt 10 (Memory.write (fun _ => none) 0 (escapedAtEnd ++ [0])) 0 0 =
      some (Memory.write (Memory.write (fun _ => none) 0 (escapedAtEnd ++ [0])) 0 (out ++ [0])) := by
  obtain ⟨out, hdec, -, hplace, -⟩ := @strdecode_in_place escapedAtEnd (by decide) 10 (by decide)
  exact ⟨out, hdec, hplace _ 0 Memory.holds_write⟩

end LinuxProgram.Web
