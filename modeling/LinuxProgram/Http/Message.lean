/-
What the receiver of an HTTP message makes of its bytes: a head of lines that ends with an empty
line, the fields of the head, and the length of the body that the fields declare.
-/
import LinuxProgram.Data.Text
import Mathlib.Data.List.TakeWhile

namespace LinuxProgram.Http

open LinuxProgram.Data

/-! ## Reading a message -/

/-- The lines of the head behind the bytes `line` of the current one, and the body. -/
def headFrom (line : List UInt8) : List UInt8 → Option (List (List UInt8) × List UInt8)
  | 13 :: 10 :: rest =>
    if line = [] then some ([], rest)
    else (headFrom [] rest).map fun (lines, body) => (line :: lines, body)
  | b :: rest => headFrom (line ++ [b]) rest
  | [] => none

/-- The lines of the head and the body. -/
def parseHead (msg : List UInt8) : Option (List (List UInt8) × List UInt8) := headFrom [] msg

def toLower (b : UInt8) : UInt8 := if 65 ≤ b ∧ b ≤ 90 then b + 32 else b

/-- The name of a field, in lower case. -/
def fieldName (line : List UInt8) : List UInt8 := (line.takeWhile (· ≠ 58)).map toLower

/-- The value of a field, without leading blanks. -/
def fieldValue (line : List UInt8) : List UInt8 := ((line.dropWhile (· ≠ 58)).drop 1).dropWhile (· = 32)

/-- The values of all `Content-Length` fields. -/
def contentLengths (fields : List (List UInt8)) : List (Option Nat) :=
  (fields.filter fun l => fieldName l = str "content-length").map fun l => decimal? (fieldValue l)

/-- The message declares the length of its body, once. -/
def delimited (msg : List UInt8) : Bool :=
  match parseHead msg with
  | some (_ :: fields, body) => contentLengths fields == [some body.length]
  | _ => false

/-! ## Writing a message -/

theorem headFrom_line {line s rest : List UInt8} (hs : Printable s) (hne : line ++ s ≠ []) :
    headFrom line (s ++ crlf ++ rest) =
      (headFrom [] rest).map fun (lines, body) => ((line ++ s) :: lines, body) := by
  induction s generalizing line with
  | nil =>
    rw [List.append_nil] at hne ⊢
    show headFrom line (13 :: 10 :: rest) = _
    rw [headFrom, if_neg hne]
  | cons b s ih =>
    have hb : b ≠ 13 := by
      rintro rfl
      exact absurd (hs 13 (List.mem_cons_self ..)) (by decide)
    have hstep : headFrom line (b :: (s ++ crlf ++ rest)) = headFrom (line ++ [b]) (s ++ crlf ++ rest) := by
      rw [headFrom.eq_2]
      rintro r rfl
      exact absurd rfl hb
    rw [List.cons_append, List.cons_append, hstep, ih (fun c hc => hs c (List.mem_cons_of_mem b hc)) (by simp),
      List.append_assoc, List.singleton_append]

/-- A message that is written line by line is read line by line. -/
theorem parseHead_lines {lines : List (List UInt8)} (h : ∀ l ∈ lines, Printable l ∧ l ≠ []) (body : List UInt8) :
    parseHead ((lines.map (· ++ crlf)).flatten ++ crlf ++ body) = some (lines, body) := by
  induction lines with
  | nil => rfl
  | cons l lines ih =>
    have hl := h l (List.mem_cons_self ..)
    have := ih fun l' hl' => h l' (List.mem_cons_of_mem l hl')
    rw [parseHead] at this
    rw [parseHead, List.map_cons, List.flatten_cons, List.append_assoc, List.append_assoc,
      headFrom_line hl.1 (by rw [List.nil_append]; exact hl.2), ← List.append_assoc, this]
    rfl

theorem fieldName_field {name : List UInt8} (h : 58 ∉ name) (value : List UInt8) :
    fieldName (name ++ 58 :: value) = name.map toLower := by
  rw [fieldName, List.takeWhile_append_of_pos, List.takeWhile_cons_of_neg (by decide), List.append_nil]
  intro b hb
  rw [decide_eq_true_eq]
  rintro rfl
  exact h hb

theorem fieldValue_field {name : List UInt8} (h : 58 ∉ name) (value : List UInt8) :
    fieldValue (name ++ 58 :: value) = value.dropWhile (· = 32) := by
  rw [fieldValue, List.dropWhile_append_of_pos, List.dropWhile_cons_of_neg (by decide), List.drop_one, List.tail_cons]
  intro b hb
  rw [decide_eq_true_eq]
  rintro rfl
  exact h hb

/-- A number behind a `Content-Length:`. -/
theorem contentLengths_decNat (n : Nat) : contentLengths [str "Content-Length:" ++ decNat n] = [some n] := by
  have hcolon : str "Content-Length:" = str "Content-Length" ++ [58] := by decide
  have hline : str "Content-Length:" ++ decNat n = str "Content-Length" ++ 58 :: decNat n := by
    rw [hcolon, List.append_assoc, List.singleton_append]
  have hname : fieldName (str "Content-Length:" ++ decNat n) = str "content-length" := by
    rw [hline, fieldName_field (by decide)]
    decide
  have hvalue : fieldValue (str "Content-Length:" ++ decNat n) = decNat n := by
    rw [hline, fieldValue_field (by decide), List.dropWhile_eq_self_iff]
    intro hl h
    have hdigit := (mem_decNat (List.getElem_mem hl)).1
    rw [decide_eq_true_eq] at h
    rw [h] at hdigit
    exact absurd hdigit (by decide)
  simp only [contentLengths, List.filter_cons, hname, decide_true, if_true, List.filter_nil, List.map_cons,
    List.map_nil, hvalue, decimal?_decNat]

theorem contentLengths_cons {line : List UInt8} (h : fieldName line ≠ str "content-length")
    (fields : List (List UInt8)) : contentLengths (line :: fields) = contentLengths fields := by
  rw [contentLengths, List.filter_cons_of_neg (by simpa using h)]
  rfl

end LinuxProgram.Http
