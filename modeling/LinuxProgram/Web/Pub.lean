/-
The helpers of `pub.c` that both web servers use: the media type of a file name and the decoding of
a request path. Strings are the bytes before the terminator.
-/
import LinuxProgram.Data.CStr
import LinuxProgram.Data.Text

namespace LinuxProgram.Web

open LinuxProgram.Data

/-! ## Media types -/

/-- `get_mime_type`. -/
def getMimeType (name : List UInt8) : List UInt8 :=
  match strrchr (code '.') name with
  | none => str "text/plain; charset=utf-8"
  | some dot =>
    if dot = str ".html" ∨ dot = str ".htm" then str "text/html; charset=utf-8"
    else if dot = str ".jpg" ∨ dot = str ".jpeg" then str "image/jpeg"
    else if dot = str ".gif" then str "image/gif"
    else if dot = str ".png" then str "image/png"
    else if dot = str ".css" then str "text/css"
    else if dot = str ".au" then str "audio/basic"
    else if dot = str ".wav" then str "audio/wav"
    else if dot = str ".avi" then str "video/x-msvideo"
    else if dot = str ".mov" ∨ dot = str ".qt" then str "video/quicktime"
    else if dot = str ".mpeg" ∨ dot = str ".mpe" then str "video/mpeg"
    else if dot = str ".vrml" ∨ dot = str ".wrl" then str "model/vrml"
    else if dot = str ".midi" ∨ dot = str ".mid" then str "audio/midi"
    else if dot = str ".mp3" then str "audio/mpeg"
    else if dot = str ".ogg" then str "application/ogg"
    else if dot = str ".pac" then str "application/x-ns-proxy-autoconfig"
    else str "text/plain; charset=utf-8"

/-- A media type can stand in a header line. -/
theorem getMimeType_printable (name : List UInt8) : Printable (getMimeType name) := by
  unfold getMimeType
  split
  · decide
  · repeat refine Printable.ite (by decide) ?_
    decide

/-! ## Decoding -/

def isxdigit (c : UInt8) : Bool :=
  (code '0' ≤ c && c ≤ code '9') || (code 'a' ≤ c && c ≤ code 'f') || (code 'A' ≤ c && c ≤ code 'F')

def hexit (c : UInt8) : UInt8 :=
  if code '0' ≤ c ∧ c ≤ code '9' then c - code '0'
  else if code 'a' ≤ c ∧ c ≤ code 'f' then c - code 'a' + 10
  else if code 'A' ≤ c ∧ c ≤ code 'F' then c - code 'A' + 10
  else 0

/-- `strdecode`: the bytes written before the terminator. The write position never passes the read
position, so they are the same when the string is decoded in place. -/
def strdecode : List UInt8 → List UInt8
  | [] => []
  | 37 :: a :: b :: rest =>
    if isxdigit a && isxdigit b then (hexit a * 16 + hexit b) :: strdecode rest
    else 37 :: strdecode (a :: b :: rest)
  | c :: rest => c :: strdecode rest

theorem strdecode_length_le (s : List UInt8) : (strdecode s).length ≤ s.length := by
  fun_induction strdecode s with
  | case1 => exact le_refl 0
  | case2 a b rest h ih => simp only [List.length_cons]; omega
  | case3 a b rest h ih => simp only [List.length_cons] at *; omega
  | case4 c rest hne ih => simp only [List.length_cons]; omega

/-- `strdecode(path, path)` on an array that holds a string. -/
def strdecodeInPlace (path : List UInt8) : List UInt8 :=
  let decoded := strdecode (cstr path)
  decoded ++ 0 :: path.drop (decoded.length + 1)

end LinuxProgram.Web
