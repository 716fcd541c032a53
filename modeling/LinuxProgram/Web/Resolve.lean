/-
What the two servers make of one target. The epoll server drops the slash, decodes the rest and puts `./` for the empty
path; the libevent server decodes, puts `./` for two whole targets and drops the first byte of the others.
-/
import LinuxProgram.Web.RequestLine
import LinuxProgram.Web.Root

namespace LinuxProgram.Web

open LinuxProgram.Data

theorem strdecode_slash (t : List UInt8) : strdecode (code '/' :: t) = code '/' :: strdecode t :=
  strdecode.eq_3 _ _ fun _ _ _ h => absurd h (by decide)

theorem cstr_slash (s : List UInt8) : cstr (code '/' :: s) = code '/' :: cstr s := by
  unfold cstr
  rw [List.takeWhile_cons, if_pos (by decide)]

/-- The two orders of decoding and dropping meet, because no escape begins with the slash. -/
theorem strPath_slash {t : List UInt8} (h0 : 0 ∉ t) (rest : List UInt8) :
    strPath (code '/' :: t ++ 0 :: rest) =
      if cstr (strdecode t) = [] ∨ cstr (strdecode t) = str "." then str "./" else cstr (strdecode t) := by
  have h0 : 0 ∉ code '/' :: t := fun h => (List.mem_cons.1 h).elim (by decide) h0
  have hslash : ∀ s, cstr (code '/' :: strdecode t) = code '/' :: s ↔ cstr (strdecode t) = s := fun s => by
    rw [cstr_slash, List.cons_inj_right]
  rw [strPath_array h0 rest (List.cons_ne_nil _ _), strdecode_slash, List.drop_one, List.tail_cons]
  exact ite_congr (propext (or_congr (hslash []) (hslash (str ".")))) (fun _ => rfl) fun _ => rfl

theorem requestPath_slash (t : List UInt8) : Epoll.requestPath (code '/' :: t) =
    if cstr (strdecode t) = [] then str "./" else cstr (strdecode t) := rfl

/-- The path of a request line whose target is `/` and then `t`: the same for both servers, but when `t` spells `.`. -/
theorem same_path {arrays : Arrays} {got t : List UInt8} (hlen : got.length ≤ Epoll.bufSize) (hends : EndsInside got)
    (hfits : Fits arrays (tokensOf got)) (hget : Epoll.strcasecmpEq (firstWord got) (str "get") = true)
    (htarget : secondWord got = code '/' :: t) :
    ∃ str₁ path, processHttpRequest got = some (tokensOf got, some str₁) ∧
      readCb arrays got = some (tokensOf got, some path) ∧
      if cstr (strdecode t) = str "." then str₁ = str "." ∧ strPath path = str "./" else strPath path = str₁ := by
  have hw₁ : firstWord got ≠ [] := by
    intro h
    rw [h] at hget
    exact absurd hget (by decide)
  have hmethod : ∀ arrays : Arrays, cstr (stored arrays.method (tokensOf got).method) = firstWord got :=
    fun arrays => by
    rw [cstr_method, if_neg hw₁]
  have hcontent : (tokensOf got).content = some (code '/' :: t) := by
    rw [tokensOf_content, if_neg (by simp [hw₁, htarget]), htarget]
  have h0 : 0 ∉ t := fun h => word_unstopped [32] ((behindFirst got).dropWhile isspace) 0
    (htarget ▸ List.mem_cons_of_mem _ h : (0 : UInt8) ∈ secondWord got) (.inl rfl)
  refine ⟨Epoll.requestPath (code '/' :: t), stored arrays.content (some (code '/' :: t)), ?_, ?_, ?_⟩
  · -- `process_http_request` reads its array as a string
    have hbranch : Epoll.strcasecmpEq (cstr (stored zeroArrays.method (tokensOf got).method)) (str "get") = true := by
      rwa [hmethod zeroArrays]
    have harray : cstr (stored zeroArrays.content (tokensOf got).content) = code '/' :: t := by
      rw [hcontent, ← htarget]
      exact cstr_stored_word
    unfold processHttpRequest
    rw [(scanInto_eq_some hlen).2 ⟨hends, fits_zeroArrays hlen hends, rfl⟩, Option.map_some]
    dsimp only
    rw [if_pos hbranch, harray]
  · -- `read_cb` hands over the array with what is behind the NUL
    have hbranch : Epoll.strcasecmpEq (cstr (stored arrays.method (tokensOf got).method)) (str "get") = true := by
      rwa [hmethod arrays]
    unfold readCb
    rw [(scanInto_eq_some hlen).2 ⟨hends, hfits, rfl⟩, Option.map_some]
    dsimp only
    rw [if_pos hbranch, hcontent]
  · have hpath : strPath (stored arrays.content (some (code '/' :: t))) =
        if cstr (strdecode t) = [] ∨ cstr (strdecode t) = str "." then str "./" else cstr (strdecode t) :=
      strPath_slash h0 _
    rw [hpath, requestPath_slash]
    by_cases hdot : cstr (strdecode t) = str "."
    · rw [if_pos hdot, hdot]
      exact ⟨rfl, rfl⟩
    · rw [if_neg hdot]
      exact ite_congr (propext (or_iff_left hdot)) (fun _ => rfl) fun _ => rfl

/-- `%2e` spells the path for which they differ. -/
theorem same_path_dot : ∃ path,
    processHttpRequest (str "GET /%2e HTTP/1.1\r\n") =
      some (⟨some (str "GET"), some (str "/%2e"), some (str "HTTP/1.1")⟩, some (str ".")) ∧
    readCb ⟨List.replicate 10 88, List.replicate 256 88, List.replicate 10 88⟩ (str "GET /%2e HTTP/1.1\r\n") =
      some (⟨some (str "GET"), some (str "/%2e"), some (str "HTTP/1.1")⟩, some path) ∧
    strPath path = str "./" := by
  have hlen : (str "GET /%2e HTTP/1.1\r\n").length ≤ Epoll.bufSize := by decide +kernel
  have hends : EndsInside (str "GET /%2e HTTP/1.1\r\n") := .inl (by decide +kernel)
  have hfits : Fits ⟨List.replicate 10 88, List.replicate 256 88, List.replicate 10 88⟩
      (tokensOf (str "GET /%2e HTTP/1.1\r\n")) :=
    (fits_iff hlen hends (by decide +kernel) List.length_replicate (by decide +kernel)).2
      ⟨by decide +kernel, by decide +kernel⟩
  have htokens : tokensOf (str "GET /%2e HTTP/1.1\r\n") =
      ⟨some (str "GET"), some (str "/%2e"), some (str "HTTP/1.1")⟩ := by decide +kernel
  have htarget : secondWord (str "GET /%2e HTTP/1.1\r\n") = code '/' :: str "%2e" := by decide +kernel
  obtain ⟨path', path, hepoll, hevent, hpath⟩ := same_path hlen hends hfits (by decide +kernel) htarget
  have hdot : cstr (strdecode (str "%2e")) = str "." := by decide +kernel
  rw [if_pos hdot] at hpath
  obtain ⟨rfl, hpath⟩ := hpath
  rw [htokens] at hepoll hevent
  exact ⟨path, hepoll, hevent, hpath⟩

end LinuxProgram.Web
