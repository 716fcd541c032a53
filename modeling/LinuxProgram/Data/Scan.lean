/-
The conversions of `sscanf` that read sets of characters, on the bytes of an array. A scan that finds
neither its end nor a NUL leaves the array, and has no result.
-/
import LinuxProgram.Data.CStr

namespace LinuxProgram.Data

def isspace (c : UInt8) : Bool := c == 32 || (9 ≤ c && c ≤ 13)

/-- `%[^...]`: what it stores, and where the next conversion goes on. -/
def scanUntil (stop : List UInt8) : List UInt8 → Option (List UInt8 × List UInt8)
  | [] => none
  | c :: rest =>
    if c = 0 ∨ c ∈ stop then some ([], c :: rest)
    else (scanUntil stop rest).map fun (tok, s) => (c :: tok, s)

/-- White space in the format. -/
def skipSpaces : List UInt8 → Option (List UInt8)
  | [] => none
  | c :: rest => if isspace c then skipSpaces rest else some (c :: rest)

/-- A NUL ends the string, and a byte of the set the conversion. -/
def Unstopped (stop tok : List UInt8) : Prop := ∀ b ∈ tok, ¬ (b = 0 ∨ b ∈ stop)

instance (stop tok : List UInt8) : Decidable (Unstopped stop tok) :=
  List.decidableBAll (fun b => ¬ (b = 0 ∨ b ∈ stop)) tok

variable {stop tok : List UInt8}

theorem Unstopped.of_prefix {tok' : List UInt8} (h : Unstopped stop tok) (hp : tok' <+: tok) : Unstopped stop tok' :=
  fun b hb => h b (hp.subset hb)

theorem scanUntil_stop (h : Unstopped stop tok) {c : UInt8} (hc : c = 0 ∨ c ∈ stop) (rest : List UInt8) :
    scanUntil stop (tok ++ c :: rest) = some (tok, c :: rest) := by
  induction tok with
  | nil => exact if_pos hc
  | cons b tok ih =>
    have hb := h b List.mem_cons_self
    rw [List.cons_append, scanUntil, if_neg hb, ih fun b' hb' => h b' (List.mem_cons_of_mem _ hb')]
    rfl

/-- Without an end the scan leaves the array. -/
theorem scanUntil_off (h : Unstopped stop tok) : scanUntil stop tok = none := by
  induction tok with
  | nil => rfl
  | cons b tok ih =>
    have hb := h b List.mem_cons_self
    rw [scanUntil, if_neg hb, ih fun b' hb' => h b' (List.mem_cons_of_mem _ hb')]
    rfl

theorem skipSpaces_cons {c : UInt8} (hc : isspace c = false) (rest : List UInt8) :
    skipSpaces (32 :: c :: rest) = some (c :: rest) := by
  rw [skipSpaces, if_pos (by decide), skipSpaces, hc, if_neg Bool.false_ne_true]

/-! ## Words -/

/-- The bytes in front of a NUL or a byte of the set. -/
def word (stop text : List UInt8) : List UInt8 := text.takeWhile fun b => !decide (b = 0 ∨ b ∈ stop)

/-- The text behind its first word. -/
def behind (stop text : List UInt8) : List UInt8 := text.dropWhile fun b => !decide (b = 0 ∨ b ∈ stop)

theorem word_append_behind (stop text : List UInt8) : word stop text ++ behind stop text = text :=
  List.takeWhile_append_dropWhile

theorem word_unstopped (stop text : List UInt8) : Unstopped stop (word stop text) := by
  intro b hb
  have := List.mem_takeWhile_imp hb
  rwa [Bool.not_eq_true', decide_eq_false_iff_not] at this

theorem length_word_lt {stop text : List UInt8} (h : behind stop text ≠ []) :
    (word stop text).length < text.length := by
  have := congrArg List.length (word_append_behind stop text)
  have := List.length_pos_of_ne_nil h
  rw [List.length_append] at *
  omega

theorem word_cons_of_stop {c : UInt8} (hc : c = 0 ∨ c ∈ stop) (text : List UInt8) :
    word stop (c :: text) = [] ∧ behind stop (c :: text) = c :: text := by
  have hstop : (!decide (c = 0 ∨ c ∈ stop)) = false := by rw [decide_eq_true hc]; rfl
  rw [word, behind, List.takeWhile_cons, List.dropWhile_cons, hstop]
  exact ⟨rfl, rfl⟩

theorem word_cons_of_not {c : UInt8} (hc : ¬ (c = 0 ∨ c ∈ stop)) (text : List UInt8) :
    word stop (c :: text) = c :: word stop text ∧ behind stop (c :: text) = behind stop text := by
  have hgo : (!decide (c = 0 ∨ c ∈ stop)) = true := by rw [decide_eq_false hc]; rfl
  rw [word, behind, List.takeWhile_cons, List.dropWhile_cons, hgo]
  exact ⟨rfl, rfl⟩

theorem zero_mem_behind {stop text : List UInt8} (h : 0 ∈ text) : 0 ∈ behind stop text := by
  rw [← word_append_behind stop text, List.mem_append] at h
  exact h.resolve_left fun hw => word_unstopped stop text 0 hw (.inl rfl)

theorem zero_mem_dropWhile_isspace {text : List UInt8} (h : 0 ∈ text) : 0 ∈ text.dropWhile isspace := by
  rw [← List.takeWhile_append_dropWhile (p := isspace) (l := text), List.mem_append] at h
  refine h.resolve_left fun hw => ?_
  have hspace := List.mem_takeWhile_imp hw
  exact absurd hspace (by decide)

/-- A text in an array that it does not fill up ends with NULs. -/
theorem scanUntil_zeros (stop text : List UInt8) (z : Nat) : scanUntil stop (text ++ List.replicate z 0) =
    if behind stop text = [] ∧ z = 0 then none else some (word stop text, behind stop text ++ List.replicate z 0) := by
  induction text with
  | nil => cases z <;> rfl
  | cons c text ih =>
    rw [List.cons_append, scanUntil]
    by_cases hc : c = 0 ∨ c ∈ stop
    · obtain ⟨hword, hbehind⟩ := word_cons_of_stop hc text
      rw [if_pos hc, hword, hbehind, if_neg (by simp)]
      rfl
    · obtain ⟨hword, hbehind⟩ := word_cons_of_not hc text
      rw [if_neg hc, ih, hword, hbehind]
      by_cases hend : behind stop text = [] ∧ z = 0
      · rw [if_pos hend, if_pos hend]
        rfl
      · rw [if_neg hend, if_neg hend]
        rfl

theorem skipSpaces_zeros (text : List UInt8) (z : Nat) : skipSpaces (text ++ List.replicate z 0) =
    if text.dropWhile isspace = [] ∧ z = 0 then none else some (text.dropWhile isspace ++ List.replicate z 0) := by
  induction text with
  | nil => cases z <;> rfl
  | cons c text ih =>
    rw [List.cons_append, skipSpaces, List.dropWhile_cons]
    by_cases hc : isspace c = true
    · rw [if_pos hc, if_pos hc, ih]
    · rw [if_neg hc, if_neg hc, if_neg (by simp)]
      rfl

/-- White space and a conversion: nothing is behind a text that the white space uses up. -/
theorem skipSpaces_scanUntil_zeros (stop text : List UInt8) (z : Nat) :
    (skipSpaces (text ++ List.replicate z 0)).bind (scanUntil stop) =
      if behind stop (text.dropWhile isspace) = [] ∧ z = 0 then none
      else some (word stop (text.dropWhile isspace), behind stop (text.dropWhile isspace) ++ List.replicate z 0) := by
  rw [skipSpaces_zeros]
  by_cases hend : text.dropWhile isspace = [] ∧ z = 0
  · rw [if_pos hend, hend.1]
    exact (if_pos ⟨rfl, hend.2⟩).symm
  · rw [if_neg hend]
    exact scanUntil_zeros stop _ z

/-! ## The beginning of a text -/

/-- The array holds the first `k` bytes of a text and ends with them. -/
theorem scanUntil_take (h : Unstopped stop tok) {c : UInt8} (hc : c = 0 ∨ c ∈ stop) (rest : List UInt8) (k : Nat) :
    scanUntil stop ((tok ++ c :: rest).take k) =
      if tok.length < k then some (tok, (c :: rest).take (k - tok.length)) else none := by
  rw [List.take_append]
  split
  · rename_i hk
    obtain ⟨j, hj⟩ : ∃ j, k - tok.length = j + 1 := ⟨k - tok.length - 1, by omega⟩
    rw [List.take_of_length_le (le_of_lt hk), hj, List.take_succ_cons]
    exact scanUntil_stop h hc (rest.take j)
  · rename_i hk
    rw [Nat.sub_eq_zero_of_le (not_lt.1 hk), List.take_zero, List.append_nil]
    exact scanUntil_off (h.of_prefix (List.take_prefix k tok))

/-- The array holds the first `k` bytes of a text and then NULs. -/
theorem scanUntil_take_zeros (h : Unstopped stop tok) {c : UInt8} (hc : c = 0 ∨ c ∈ stop) (rest : List UInt8)
    (k z : Nat) : scanUntil stop ((tok ++ c :: rest).take k ++ List.replicate (z + 1) 0) =
      some (tok.take k, (c :: rest).take (k - tok.length) ++ List.replicate (z + 1) 0) := by
  rw [List.take_append, List.append_assoc]
  rcases Nat.lt_or_ge tok.length k with hk | hk
  · obtain ⟨j, hj⟩ : ∃ j, k - tok.length = j + 1 := ⟨k - tok.length - 1, by omega⟩
    rw [List.take_of_length_le (le_of_lt hk), hj, List.take_succ_cons]
    exact scanUntil_stop h hc _
  · rw [Nat.sub_eq_zero_of_le hk, List.take_zero, List.nil_append]
    exact scanUntil_stop (h.of_prefix (List.take_prefix k tok)) (.inl rfl) _

theorem skipSpaces_take {c : UInt8} (hc : isspace c = false) (rest : List UInt8) (k : Nat) :
    skipSpaces ((32 :: c :: rest).take (k + 1)) = if 0 < k then some ((c :: rest).take k) else none := by
  cases k with
  | zero => rfl
  | succ k => exact skipSpaces_cons hc (rest.take k)

theorem skipSpaces_take_zeros {c : UInt8} (hc : isspace c = false) (rest : List UInt8) (k z : Nat) :
    skipSpaces ((32 :: c :: rest).take k ++ List.replicate (z + 1) 0) =
      some ((c :: rest).take (k - 1) ++ List.replicate (z + 1) 0) := by
  rcases k with _ | _ | k
  · rfl
  · rfl
  · exact skipSpaces_cons hc (rest.take k ++ List.replicate (z + 1) 0)

end LinuxProgram.Data
