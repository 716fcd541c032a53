/-
`strencode` of pub.c. It stops while an escape and the terminator still fit, so what it leaves in a
buffer of any size is the encoding of a prefix of the string, and `strdecode` gives the prefix back.
-/
import LinuxProgram.Data.Word
import LinuxProgram.Web.Decode

namespace LinuxProgram.Web

open LinuxProgram.Data

/-! ## The code -/

def isalnum (c : UInt8) : Bool :=
  (code '0' ≤ c && c ≤ code '9') || (code 'A' ≤ c && c ≤ code 'Z') || (code 'a' ≤ c && c ≤ code 'z')

/-- `isalnum(*from) || strchr("/_.-~", *from) != (char*)0`. -/
def unreserved (c : UInt8) : Bool := isalnum c || (str "/_.-~").contains c

/-- A digit of `%02x`. -/
def hexDigit (n : Nat) : UInt8 := if n < 10 then code '0' + UInt8.ofNat n else code 'a' + UInt8.ofNat (n - 10)

/-- What `sprintf(to, "%%%02x", (int) *from & 0xff)` prints. -/
def percentHex (c : UInt8) : List UInt8 := [code '%', hexDigit (c.toNat / 16), hexDigit (c.toNat % 16)]

/-- The loop of `strencode`, for at most as many turns as there is fuel. -/
def strencodeLoop (tosize : Nat) : Nat → Memory → Nat → Nat → Int → Option Memory
  | 0, _, _, _, _ => none
  | fuel + 1, m, dst, src, tolen =>
    (m.load src).bind fun c =>
      if c ≠ 0 ∧ toSize (wrap32 (tolen + 4)) < tosize then
        if unreserved c then
          (m.store dst c).bind fun m' => strencodeLoop tosize fuel m' (dst + 1) (src + 1) (wrap32 (tolen + 1))
        else
          (m.stores dst (percentHex c ++ [0])).bind fun m' =>
            strencodeLoop tosize fuel m' (dst + 3) (src + 1) (wrap32 (tolen + 3))
      else m.store dst 0

/-- `strencode(to, tosize, from)`. -/
def strencodeAt (fuel : Nat) (m : Memory) (dst tosize src : Nat) : Option Memory :=
  strencodeLoop tosize fuel m dst src 0

/-! ## The encoding of a string -/

def encodeByte (c : UInt8) : List UInt8 := if unreserved c then [c] else percentHex c

def encode (s : List UInt8) : List UInt8 := s.flatMap encodeByte

theorem unreserved_ne {c : UInt8} (h : unreserved c = true) : c ≠ 37 ∧ c ≠ 0 := by
  have hall : ∀ c, unreserved c = true → c ≠ 37 ∧ c ≠ 0 := forall_byte (by decide +kernel)
  exact hall c h

/-- The digits of a byte, with their values. -/
theorem percentHex_digits (c : UInt8) : ∃ a b, percentHex c = [37, a, b] ∧ hexValue? a = some (c.toNat / 16) ∧
    hexValue? b = some (c.toNat % 16) := by
  have hdigit : ∀ n < 16, hexValue? (hexDigit n) = some n := by decide +kernel
  have hlt := c.toNat_lt
  exact ⟨_, _, rfl, hdigit _ (by omega), hdigit _ (by omega)⟩

theorem hexDigit_ne {a : UInt8} {n : Nat} (h : hexValue? a = some n) : a ≠ 37 ∧ a ≠ 0 := by
  constructor
  · rintro rfl
    cases h
  · rintro rfl
    cases h

theorem encodeByte_length (c : UInt8) : 1 ≤ (encodeByte c).length ∧ (encodeByte c).length ≤ 3 := by
  unfold encodeByte
  split
  · exact ⟨le_refl 1, Nat.le_add_left 1 2⟩
  · exact ⟨Nat.le_add_left 1 2, le_refl 3⟩

theorem zero_notMem_encode (s : List UInt8) : 0 ∉ encode s := by
  intro h
  obtain ⟨c, -, hc⟩ := List.mem_flatMap.1 h
  unfold encodeByte at hc
  split at hc
  · rename_i hu
    exact (unreserved_ne hu).2 (List.mem_singleton.1 hc).symm
  · obtain ⟨a, b, he, ha, hb⟩ := percentHex_digits c
    rw [he] at hc
    simp only [List.mem_cons, List.not_mem_nil, or_false] at hc
    rcases hc with hc | hc | hc
    · cases hc
    · exact (hexDigit_ne ha).2 hc.symm
    · exact (hexDigit_ne hb).2 hc.symm

/-- An encoded byte in front of a text stands for the byte. -/
theorem encodeByte_decodes (c : UInt8) {s t : List UInt8} (h : PercentDecodes s t) :
    PercentDecodes (encodeByte c ++ s) (c :: t) := by
  unfold encodeByte
  split
  · rename_i hu
    refine .copy ?_ h
    rintro ⟨a, b, rest, he, -⟩
    cases he
    exact (unreserved_ne hu).1 rfl
  · obtain ⟨a, b, he, ha, hb⟩ := percentHex_digits c
    have hval : UInt8.ofNat (c.toNat / 16 * 16 + c.toNat % 16) = c := by
      rw [Nat.div_add_mod', UInt8.ofNat_toNat]
    rw [he]
    have := PercentDecodes.escape ha hb h
    rwa [hval] at this

theorem encode_decodes (s : List UInt8) : PercentDecodes (encode s) s := by
  induction s with
  | nil => exact .nil
  | cons c s ih => exact encodeByte_decodes c ih

theorem strdecode_encode (s : List UInt8) : strdecode (encode s) = s :=
  (strdecode_decodes (encode s)).unique (encode_decodes s)

/-- Every percent sign of the text has its two digits. -/
def Whole (s : List UInt8) : Prop := ∀ u v, s = u ++ 37 :: v → BeginsEscape (37 :: v)

/-- A percent sign in an encoded byte is its first, and an escape. -/
theorem encodeByte_percent {c : UInt8} {u w : List UInt8} (h : encodeByte c = u ++ 37 :: w) (s : List UInt8) :
    BeginsEscape (37 :: w ++ s) := by
  unfold encodeByte at h
  split at h
  · rename_i hu
    obtain ⟨rfl, he⟩ | ⟨u', rfl, he⟩ := List.cons_eq_append_iff.1 h
    · cases he
      exact absurd rfl (unreserved_ne hu).1
    · exact absurd he (by simp)
  · obtain ⟨a, b, he, ha, hb⟩ := percentHex_digits c
    rw [he] at h
    rcases u with _ | ⟨_, _ | ⟨_, _ | ⟨_, _⟩⟩⟩
    · cases h
      exact ⟨a, b, s, rfl, by rw [ha]; rfl, by rw [hb]; rfl⟩
    · cases h
      exact absurd rfl (hexDigit_ne ha).1
    · cases h
      exact absurd rfl (hexDigit_ne hb).1
    · exact absurd h (by simp)

theorem whole_encode (s : List UInt8) : Whole (encode s) := by
  induction s with
  | nil =>
    intro u v h
    exact absurd h (by simp [encode])
  | cons c s ih =>
    intro u v h
    rw [encode, List.flatMap_cons] at h
    rcases List.append_eq_append_iff.1 h with ⟨u', -, hrest⟩ | ⟨w, hbyte, hrest⟩
    · exact ih u' v hrest
    · cases w with
      | nil => exact ih [] v hrest.symm
      | cons d w =>
        cases hrest
        exact encodeByte_percent hbyte (encode s)

/-! ## Truncation -/

/-- The prefix of a string that is encoded behind `tolen` bytes: up to the first byte for which an escape
and the terminator might not fit. -/
def fitting (tosize : Nat) : Nat → List UInt8 → List UInt8
  | _, [] => []
  | tolen, c :: s => if tolen + 4 < tosize then c :: fitting tosize (tolen + (encodeByte c).length) s else []

theorem fitting_prefix (tosize tolen : Nat) (s : List UInt8) : fitting tosize tolen s <+: s := by
  fun_induction fitting tosize tolen s with
  | case1 => exact List.prefix_refl []
  | case2 tolen c s h ih => exact List.cons_prefix_cons.2 ⟨rfl, ih⟩
  | case3 => exact List.nil_prefix

theorem encode_cons (c : UInt8) (s : List UInt8) : encode (c :: s) = encodeByte c ++ encode s := List.flatMap_cons

theorem encode_fitting_lt {tosize tolen : Nat} (h : tolen < tosize) (s : List UInt8) :
    tolen + (encode (fitting tosize tolen s)).length < tosize := by
  fun_induction fitting tosize tolen s with
  | case1 => exact h
  | case2 tolen c s hroom ih =>
    have := ih (by have := encodeByte_length c; omega)
    rw [encode_cons, List.length_append]
    omega
  | case3 => exact h

theorem fitting_eq_self {tosize tolen : Nat} {s : List UInt8} (h : tolen + 3 * s.length + 2 ≤ tosize) :
    fitting tosize tolen s = s := by
  fun_induction fitting tosize tolen s with
  | case1 => rfl
  | case2 tolen c s hroom ih =>
    have := encodeByte_length c
    rw [List.length_cons] at h
    rw [ih (by omega)]
  | case3 tolen c s hroom =>
    rw [List.length_cons] at h
    omega

/-! ## Encoding in memory -/

variable {m : Memory} {dst src tosize : Nat} {s : List UInt8}

/-- The cells that `strencode` may write do not meet those of the string. -/
def Clear (dst room src len : Nat) : Prop := dst + room ≤ src ∨ src + len < dst

theorem Clear.holds {room : Nat} {c : UInt8} {cs : List UInt8} (h : Clear dst room src (c :: s).length)
    (hcs : cs.length ≤ room) (hs : m.Holds src (c :: s ++ [0])) :
    Memory.Holds (m.write dst cs) (src + 1) (s ++ [0]) := by
  rw [Clear, List.length_cons] at h
  have hlen : (s ++ [0]).length = s.length + 1 := List.length_append
  exact Memory.Holds.write hs.2 (by omega)

theorem guard_eq {tolen : Nat} (h : tolen < 2 ^ 31 - 4) : toSize (wrap32 ((tolen : Int) + 4)) = tolen + 4 := by
  rw [wrap32_eq (by omega) (by omega)]
  exact toSize_natCast (n := tolen + 4) (by omega)

/-- A turn of the loop writes one encoded byte, and perhaps the terminator of `sprintf` behind it. -/
theorem strencodeLoop_turn {tolen fuel : Nat} {c : UInt8} (hs : m src = some c) (hc : c ≠ 0)
    (hbound : tolen < 2 ^ 31 - 4) (hguard : tolen + 4 < tosize) (hdst : m.Usable dst (tosize - tolen)) :
    ∃ end', end'.length ≤ 1 ∧ strencodeLoop tosize (fuel + 1) m dst src tolen =
      strencodeLoop tosize fuel (m.write dst (encodeByte c ++ end')) (dst + (encodeByte c).length) (src + 1)
        (tolen + (encodeByte c).length : Nat) := by
  rw [strencodeLoop, Memory.load, hs, Option.bind_some, if_pos ⟨hc, by rwa [guard_eq hbound]⟩]
  unfold encodeByte
  split
  · refine ⟨[], Nat.zero_le 1, ?_⟩
    rw [Memory.store_eq (hdst.mono (k := tosize - tolen - 1 + 1) (le_refl dst) (by omega)), Option.bind_some,
      wrap32_eq (by omega) (by omega)]
    rfl
  · refine ⟨[0], le_refl 1, ?_⟩
    rw [Memory.stores_eq (hdst.mono (le_refl dst) (by show dst + 4 ≤ _; omega)), Option.bind_some,
      wrap32_eq (by omega) (by omega)]
    rfl

/-- `*to = '\0'`. -/
theorem store_terminator {tolen : Nat} (hdst : m.Usable dst (tosize - tolen)) (hroom : tolen < tosize) :
    m.store dst 0 = some (m.write dst [0]) :=
  Memory.store_eq (hdst.mono (k := 0 + 1) (le_refl dst) (by omega))

/-- What the loop has yet to do when `tolen` bytes are written. -/
theorem strencodeLoop_eq {tolen fuel : Nat} (hs : m.Holds src (s ++ [0])) (h0 : 0 ∉ s)
    (hdst : m.Usable dst (tosize - tolen)) (hclear : Clear dst (tosize - tolen) src s.length)
    (hroom : tolen < tosize) (hbound : tolen + 3 * s.length < 2 ^ 31 - 4) (hfuel : s.length < fuel) :
    strencodeLoop tosize fuel m dst src tolen = some (m.write dst (encode (fitting tosize tolen s) ++ [0])) := by
  obtain ⟨fuel, rfl⟩ := Nat.exists_eq_succ_of_ne_zero (Nat.ne_zero_of_lt hfuel)
  induction s generalizing m dst src tolen fuel with
  | nil =>
    rw [strencodeLoop, Memory.load, hs.1, Option.bind_some, if_neg (by simp)]
    exact store_terminator hdst hroom
  | cons c s ih =>
    simp only [List.mem_cons, not_or, List.length_cons] at h0 hbound hfuel
    unfold fitting
    split
    · rename_i hguard
      obtain ⟨end', hend, hturn⟩ :=
        @strencodeLoop_turn m dst src tosize tolen fuel c hs.1 (Ne.symm h0.1) (by omega) hguard hdst
      obtain ⟨hone, hthree⟩ := encodeByte_length c
      obtain ⟨fuel, rfl⟩ := Nat.exists_eq_succ_of_ne_zero (show fuel ≠ 0 by omega)
      have hcells : (encodeByte c ++ end').length ≤ tosize - tolen := by
        rw [List.length_append]
        omega
      rw [hturn, ih (hclear.holds hcells hs) h0.2 (hdst.write.mono (Nat.le_add_right _ _) (by omega)) ?_ (by omega)
        (by omega) fuel (by omega)]
      · rw [encode_cons, Memory.write_over (by rw [List.length_append, List.length_singleton]; omega),
          List.append_assoc]
      · simp only [Clear, List.length_cons] at *
        omega
    · rename_i hguard
      rw [strencodeLoop, Memory.load, hs.1, Option.bind_some, if_neg]
      · exact store_terminator hdst hroom
      · rw [guard_eq (by omega)]
        exact fun h => hguard h.2

/-! ## Round trip -/

/-- In a buffer of `tosize` cells `strencode` leaves the encoding of a prefix of the string, of the whole
string when the buffer is large enough, and `strdecode` gives the prefix back. -/
theorem strencode_strdecode (h0 : 0 ∉ s) (hlen : s.length < 2 ^ 29) (hsize : 1 ≤ tosize) :
    ∃ p, p <+: s ∧ (3 * s.length + 2 ≤ tosize → p = s) ∧
      (encode p).length < tosize ∧ 0 ∉ encode p ∧ Whole (encode p) ∧ PercentDecodes (encode p) p ∧
      (∀ (m : Memory) (dst src fuel : Nat), m.Holds src (s ++ [0]) → m.Usable dst tosize →
        dst + tosize ≤ src ∨ src + s.length < dst → s.length < fuel →
        strencodeAt fuel m dst tosize src = some (m.write dst (encode p ++ [0]))) ∧
      ∀ (m : Memory) (dst src fuel : Nat), m.Holds src (encode p ++ [0]) → m.Usable dst (p.length + 1) →
        dst ≤ src ∨ src + (encode p).length < dst → (encode p).length < fuel →
        strdecodeAt fuel m dst src = some (m.write dst (p ++ [0])) := by
  have hcells : (encode (fitting tosize 0 s)).length < tosize := by
    have := encode_fitting_lt hsize s
    omega
  refine ⟨fitting tosize 0 s, fitting_prefix tosize 0 s, ?_, hcells, zero_notMem_encode _, whole_encode _,
    encode_decodes _, ?_, ?_⟩
  · intro h
    exact fitting_eq_self (by omega)
  · intro m dst src fuel hs hdst hclear hfuel
    exact @strencodeLoop_eq m dst src tosize s 0 fuel hs h0 hdst hclear hsize (by omega) hfuel
  · intro m dst src fuel hs hdst hap hfuel
    have h := strdecodeAt_eq (zero_notMem_encode _) hs (by rwa [strdecode_encode]) hap hfuel
    rwa [strdecode_encode] at h

def spaced : List UInt8 := str "a b%"

/-- The last byte does not fit. -/
theorem strencode_strdecode_spaced : ∃ p, p <+: spaced ∧ PercentDecodes (encode p) p ∧
    strencodeAt 5 (Memory.write (fun _ => none) 0 (List.replicate 9 7 ++ spaced ++ [0])) 0 9 9 =
      some (Memory.write (Memory.write (fun _ => none) 0 (List.replicate 9 7 ++ spaced ++ [0])) 0
        (encode p ++ [0])) := by
  obtain ⟨p, hp, -, -, -, -, hdec, henc, -⟩ := @strencode_strdecode 9 spaced (by decide) (by decide) (by decide)
  have hholds : Memory.Holds (Memory.write (fun _ => none) 0 (List.replicate 9 7 ++ spaced ++ [0])) 0
      (List.replicate 9 7 ++ spaced ++ [0]) := Memory.holds_write
  have hused := hholds.usable
  rw [List.append_assoc, Memory.holds_append] at hholds
  exact ⟨p, hp, hdec, henc _ 0 9 5 hholds.2 (hused.mono (le_refl 0) (by decide)) (.inl (le_refl 9)) (by decide)⟩

end LinuxProgram.Web
