/-
The document root. Both servers pass on what the target spells behind its first byte, as it is: the
epoll server drops the first byte and decodes the rest, the libevent server decodes and then drops. So
a request leaves the working directory exactly if its target spells a path that does.
-/
import LinuxProgram.Data.Descent
import LinuxProgram.Web.Decode
import LinuxProgram.Web.Epoll

namespace LinuxProgram.Web

open LinuxProgram.Data

/-! ## Paths -/

def moveOf (component : List UInt8) : Move :=
  if component = [] ∨ component = str "." then .stay
  else if component = str ".." then .up
  else .down

/-- The path is relative, and a walk along its components never gets above the working directory. -/
def Confined (path : List UInt8) : Prop :=
  path.head? ≠ some (code '/') ∧ (descend 0 ((path.splitOn (code '/')).map moveOf)).isSome = true

instance (path : List UInt8) : Decidable (Confined path) := by
  unfold Confined; infer_instance

/-- A component that names an entry of a directory. -/
def isName (component : List UInt8) : Bool := component ≠ [] && component ≠ str "." && component ≠ str ".."

/-- No slash in front, and in no initial part of the components more of `..` than names. -/
def Balanced (path : List UInt8) : Prop :=
  path.head? ≠ some (code '/') ∧ ∀ pre, pre <+: path.splitOn (code '/') → pre.count (str "..") ≤ pre.countP isName

theorem moveOf_eq_up {c : List UInt8} : moveOf c = .up ↔ c = str ".." := by
  unfold moveOf
  constructor
  · intro h
    split at h
    · cases h
    split at h
    · assumption
    · cases h
  · rintro rfl
    decide

theorem moveOf_eq_down {c : List UInt8} : moveOf c = .down ↔ isName c = true := by
  unfold moveOf isName
  by_cases h1 : c = []
  · simp [h1]
  by_cases h2 : c = str "."
  · simp [h2]
  by_cases h3 : c = str ".."
  · subst h3
    decide
  · simp [h1, h2, h3]

theorem confined_iff (path : List UInt8) : Confined path ↔ Balanced path := by
  unfold Confined Balanced
  refine and_congr_right fun _ => ?_
  rw [descend_isSome_iff]
  have hup : ∀ pre : List (List UInt8), (pre.map moveOf).count .up = pre.count (str "..") := by
    intro pre
    rw [List.count, List.countP_map]
    exact List.countP_congr fun c _ => by simp [moveOf_eq_up]
  have hdown : ∀ pre : List (List UInt8), (pre.map moveOf).count .down = pre.countP isName := by
    intro pre
    rw [List.count, List.countP_map]
    exact List.countP_congr fun c _ => by simp [moveOf_eq_down]
  constructor
  · intro h pre hpre
    have := h _ (hpre.map moveOf)
    rwa [hup, hdown, Nat.zero_add] at this
  · intro h pre hpre
    obtain ⟨pre', hpre', rfl⟩ := List.prefix_map_iff.1 hpre
    rw [hup, hdown, Nat.zero_add]
    exact h pre' hpre'

/-! ## What the servers pass on -/

theorem confined_requestPath (content : List UInt8) :
    Confined (Epoll.requestPath content) ↔ Confined (cstr (strdecode (content.drop 1))) := by
  unfold Epoll.requestPath
  dsimp only
  split
  · rename_i hnil
    rw [hnil]
    exact iff_of_true (by decide) (by decide)
  · exact Iff.rfl

theorem cstr_append_zero (s rest : List UInt8) : cstr (s ++ 0 :: rest) = cstr s := by
  induction s with
  | nil => rfl
  | cons c s ih =>
    unfold cstr at ih ⊢
    rw [List.cons_append, List.takeWhile_cons, List.takeWhile_cons, ih]

theorem cstr_drop_of_cons {c : UInt8} {s t : List UInt8} (h : cstr s = c :: t) : cstr (s.drop 1) = t := by
  cases s with
  | nil => cases h
  | cons b s =>
    unfold cstr at h
    rw [List.takeWhile_cons] at h
    split at h
    · exact (List.cons.inj h).2
    · cases h

theorem strdecode_ne_nil {s : List UInt8} (h : s ≠ []) : strdecode s ≠ [] := by
  fun_cases strdecode s <;> simp_all

/-- The array holds a target, and behind its terminator whatever was there. -/
theorem strPath_array {target : List UInt8} (h0 : 0 ∉ target) (rest : List UInt8) (hne : target ≠ []) :
    strPath (target ++ 0 :: rest) =
      if cstr (strdecode target) = str "/" ∨ cstr (strdecode target) = str "/." then str "./"
      else cstr ((strdecode target).drop 1) := by
  have harray : cstr (target ++ 0 :: rest) = target := by rw [cstr_append_zero, cstr_eq_self h0]
  obtain ⟨c, s, hcs⟩ := List.exists_cons_of_ne_nil (strdecode_ne_nil hne)
  unfold strPath strdecodeInPlace
  dsimp only
  rw [harray, cstr_append_zero, hcs, List.cons_append, List.drop_one, List.tail_cons, List.drop_one, List.tail_cons,
    cstr_append_zero]

theorem confined_strPath {target : List UInt8} (hne : target ≠ []) (h0 : 0 ∉ target) (rest : List UInt8) :
    Confined (strPath (target ++ 0 :: rest)) ↔ Confined (cstr ((strdecode target).drop 1)) := by
  rw [strPath_array h0 rest hne]
  split
  · rename_i hroot
    rcases hroot with hroot | hroot
    · rw [cstr_drop_of_cons (t := []) hroot]
      exact iff_of_true (by decide) (by decide)
    · rw [cstr_drop_of_cons (t := str ".") hroot]
      exact iff_of_true (by decide) (by decide)
  · exact Iff.rfl

/-- Each server stays below its working directory exactly for the requests whose target spells a balanced
path behind its first byte. -/
theorem root_exact :
    (∀ got line path name, Epoll.sscanf (got ++ List.replicate (Epoll.bufSize - got.length) 0) = some line →
      line.request.path = some path → PercentDecodes (line.content.drop 1) name →
      (Confined path ↔ Balanced (cstr name))) ∧
    ∀ target rest name, target ≠ [] → 0 ∉ target → PercentDecodes target name →
      (Confined (strPath (target ++ 0 :: rest)) ↔ Balanced (cstr (name.drop 1))) := by
  constructor
  · intro got line path name _ hpath hname
    obtain ⟨-, hpath⟩ := Option.ite_none_right_eq_some.1 hpath
    cases hpath
    rw [confined_requestPath, confined_iff, hname.unique (strdecode_decodes _)]
  · intro target rest name hne h0 hname
    rw [confined_strPath hne h0, confined_iff, hname.unique (strdecode_decodes _)]

/-- `/a/%2e%2E/b` stays, for both servers. -/
theorem root_exact_downUp : Confined (str "a/../b") ∧ (Confined (str "a/../b") ↔ Balanced (cstr (str "a/../b"))) ∧
    (Confined (strPath (str "/a/%2e%2E/b" ++ 0 :: [])) ↔ Balanced (cstr ((strdecode (str "/a/%2e%2E/b")).drop 1))) := by
  have hline : Epoll.sscanf (str "GET /a/%2e%2E/b HTTP/1.1\r\n" ++
      List.replicate (Epoll.bufSize - (str "GET /a/%2e%2E/b HTTP/1.1\r\n").length) 0) =
      some ⟨str "GET", str "/a/%2e%2E/b", str "HTTP/1.1"⟩ := by decide +kernel
  refine ⟨by decide +kernel, ?_, ?_⟩
  · exact root_exact.1 (str "GET /a/%2e%2E/b HTTP/1.1\r\n") _ (str "a/../b") (str "a/../b") hline (by decide +kernel)
      (strdecode_decodes (str "a/%2e%2E/b"))
  · exact root_exact.2 (str "/a/%2e%2E/b") [] _ (by decide) (by decide +kernel) (strdecode_decodes _)

/-- The parent directory, and an absolute path. -/
theorem root_left :
    (¬ ∀ got path, (Epoll.request got).bind (fun req => req.path) = some path → Confined path) ∧
      ¬ ∀ target rest, target ≠ [] → 0 ∉ target → Confined (strPath (target ++ 0 :: rest)) := by
  constructor
  · intro h
    have hout : ¬ Confined (str "../x") := by decide +kernel
    exact hout (h (str "GET /%2e./x HTTP/1.1\r\n") (str "../x") (by decide +kernel))
  · intro h
    have hout : ¬ Confined (strPath (str "//etc/passwd" ++ 0 :: [])) := by decide +kernel
    exact hout (h (str "//etc/passwd") [] (by decide) (by decide +kernel))

end LinuxProgram.Web
