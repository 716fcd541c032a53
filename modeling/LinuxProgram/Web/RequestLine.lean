/-
The scan of the request line with the arrays that it stores into. The two servers share the format but not
the sizes of the arrays, and neither bounds what a conversion stores.

What the conversions store and what `sscanf` reads are told apart. It wants a string: an array that the chunk
fills up without a NUL is read past its end, wherever in it the conversions stop.
-/
import LinuxProgram.Web.Epoll

namespace LinuxProgram.Web

open LinuxProgram.Data

/-! ## The code -/

/-- What the conversions of a scan have stored. -/
structure Tokens where
  method : Option (List UInt8)
  content : Option (List UInt8)
  protocol : Option (List UInt8)
  deriving DecidableEq

/-- What the conversions of `"%[^ ] %[^ ] %[^ \r\n]"` store; `none` when one of them leaves the array. -/
def scanLine (buf : List UInt8) : Option Tokens :=
  (scanUntil [32] buf).bind fun (method, s) =>
    if method = [] then some ⟨none, none, none⟩
    else (skipSpaces s).bind fun s => (scanUntil [32] s).bind fun (content, s) =>
      if content = [] then some ⟨some method, none, none⟩
      else (skipSpaces s).bind fun s => (scanUntil [32, 13, 10] s).map fun (protocol, _) =>
        ⟨some method, some content, if protocol = [] then none else some protocol⟩

/-- An array behind a conversion: a token that is stored has to fit with its terminator. -/
def storeToken (array : List UInt8) : Option (List UInt8) → Option (List UInt8)
  | none => some array
  | some token => if token.length < array.length then some (token ++ 0 :: array.drop (token.length + 1)) else none

/-- The arrays that a scan stores into. -/
structure Arrays where
  method : List UInt8
  content : List UInt8
  protocol : List UInt8
  deriving DecidableEq

/-- The array `buf`, of whose 256 zero bytes those in front were overwritten with `got`. -/
def bufOf (got : List UInt8) : List UInt8 := got ++ List.replicate (Epoll.bufSize - got.length) 0

/-- What `sscanf` on `buf` stores. -/
def scanInto (arrays : Arrays) (got : List UInt8) : Option (Tokens × Arrays) :=
  (scanLine (bufOf got)).bind fun tokens =>
    (storeToken arrays.method tokens.method).bind fun method =>
      (storeToken arrays.content tokens.content).bind fun content =>
        (storeToken arrays.protocol tokens.protocol).map fun protocol => (tokens, ⟨method, content, protocol⟩)

/-- The arrays of `process_http_request`, which are set to zero. -/
def zeroArrays : Arrays := ⟨List.replicate 256 0, List.replicate 256 0, List.replicate 256 0⟩

/-- `process_http_request`, when the first `recv` delivered `got`: what the scan has stored, and the path that is used
in the branch for GET. -/
def processHttpRequest (got : List UInt8) : Option (Tokens × Option (List UInt8)) :=
  (scanInto zeroArrays got).map fun (tokens, a) =>
    (tokens, if Epoll.strcasecmpEq (cstr a.method) (str "get") then some (Epoll.requestPath (cstr a.content)) else none)

/-- `read_cb`, when `bufferevent_read` delivered `got`: what the scan has stored, and the array that `http_request` is
called with in the branch for GET. Nobody has written to the `arrays` before. -/
def readCb (arrays : Arrays) (got : List UInt8) : Option (Tokens × Option (List UInt8)) :=
  (scanInto arrays got).map fun (tokens, a) =>
    (tokens, if Epoll.strcasecmpEq (cstr a.method) (str "get") then some a.content else none)

/-! ## The words of a request line -/

def firstWord (got : List UInt8) : List UInt8 := word [32] got

def behindFirst (got : List UInt8) : List UInt8 := behind [32] got

def secondWord (got : List UInt8) : List UInt8 := word [32] ((behindFirst got).dropWhile isspace)

def behindSecond (got : List UInt8) : List UInt8 := behind [32] ((behindFirst got).dropWhile isspace)

def thirdWord (got : List UInt8) : List UInt8 := word [32, 13, 10] ((behindSecond got).dropWhile isspace)

def behindThird (got : List UInt8) : List UInt8 := behind [32, 13, 10] ((behindSecond got).dropWhile isspace)

/-- The chunk does not fill the array, or each of its three words, as far as they are there, has a byte behind it. -/
def EndsInside (got : List UInt8) : Prop :=
  got.length < Epoll.bufSize ∨ behindFirst got ≠ [] ∧
    (firstWord got = [] ∨ behindSecond got ≠ [] ∧ (secondWord got = [] ∨ behindThird got ≠ []))

instance (got : List UInt8) : Decidable (EndsInside got) := by
  unfold EndsInside; infer_instance

/-- The words that are stored. -/
def tokensOf (got : List UInt8) : Tokens :=
  if firstWord got = [] then ⟨none, none, none⟩
  else if secondWord got = [] then ⟨some (firstWord got), none, none⟩
  else ⟨some (firstWord got), some (secondWord got), if thirdWord got = [] then none else some (thirdWord got)⟩

variable {got : List UInt8}

/-- The conversions, one after the other, on a text with `z` NULs behind it. -/
theorem scanLine_zeros (got : List UInt8) (z : Nat) : scanLine (got ++ List.replicate z 0) =
    if behindFirst got = [] ∧ z = 0 then none
    else if firstWord got = [] then some ⟨none, none, none⟩
    else if behindSecond got = [] ∧ z = 0 then none
    else if secondWord got = [] then some ⟨some (firstWord got), none, none⟩
    else if behindThird got = [] ∧ z = 0 then none
    else some ⟨some (firstWord got), some (secondWord got),
      if thirdWord got = [] then none else some (thirdWord got)⟩ := by
  unfold scanLine
  rw [scanUntil_zeros, apply_ite (Option.bind · _)]
  refine ite_congr rfl (fun _ => rfl) fun _ => ite_congr rfl (fun _ => rfl) fun _ => ?_
  dsimp only
  rw [← Option.bind_assoc, skipSpaces_scanUntil_zeros, apply_ite (Option.bind · _)]
  refine ite_congr rfl (fun _ => rfl) fun _ => ite_congr rfl (fun _ => rfl) fun _ => ?_
  dsimp only
  refine Option.map_bind.symm.trans ?_
  rw [skipSpaces_scanUntil_zeros, apply_ite (Option.map _)]
  rfl

theorem scanLine_eq (hlen : got.length ≤ Epoll.bufSize) :
    scanLine (bufOf got) = if EndsInside got then some (tokensOf got) else none := by
  have hz : Epoll.bufSize - got.length = 0 ↔ ¬ got.length < Epoll.bufSize := by omega
  rw [bufOf, scanLine_zeros]
  unfold EndsInside tokensOf
  by_cases hfull : got.length < Epoll.bufSize
  · simp [hz, hfull, apply_ite some]
  · simp only [hz, hfull, not_false_eq_true, and_true, false_or]
    split_ifs <;> simp_all

theorem tokensOf_method (got : List UInt8) :
    (tokensOf got).method = if firstWord got = [] then none else some (firstWord got) := by
  unfold tokensOf
  split_ifs <;> rfl

theorem tokensOf_content (got : List UInt8) :
    (tokensOf got).content = if firstWord got = [] ∨ secondWord got = [] then none else some (secondWord got) := by
  unfold tokensOf
  split_ifs <;> first | rfl | tauto

theorem tokensOf_protocol (got : List UInt8) : (tokensOf got).protocol =
    if firstWord got = [] ∨ secondWord got = [] ∨ thirdWord got = [] then none else some (thirdWord got) := by
  unfold tokensOf
  split_ifs <;> first | rfl | tauto

/-! ## The arrays -/

/-- The bytes that an array holds behind a conversion for which it is large enough. -/
def stored (array : List UInt8) (token : Option (List UInt8)) : List UInt8 :=
  token.elim array fun token => token ++ 0 :: array.drop (token.length + 1)

/-- Every token fits its array, with the terminator. -/
structure Fits (arrays : Arrays) (tokens : Tokens) : Prop where
  method : ∀ token ∈ tokens.method, token.length < arrays.method.length
  content : ∀ token ∈ tokens.content, token.length < arrays.content.length
  protocol : ∀ token ∈ tokens.protocol, token.length < arrays.protocol.length

theorem storeToken_eq_some {array array' : List UInt8} {token : Option (List UInt8)} :
    storeToken array token = some array' ↔ (∀ t ∈ token, t.length < array.length) ∧ array' = stored array token := by
  cases token with
  | none => simp [storeToken, stored, eq_comm]
  | some t => simp [storeToken, stored, eq_comm]

theorem scanInto_eq_some {arrays : Arrays} (hlen : got.length ≤ Epoll.bufSize) {r : Tokens × Arrays} :
    scanInto arrays got = some r ↔ EndsInside got ∧ Fits arrays (tokensOf got) ∧
      r = (tokensOf got, ⟨stored arrays.method (tokensOf got).method, stored arrays.content (tokensOf got).content,
        stored arrays.protocol (tokensOf got).protocol⟩) := by
  unfold scanInto
  rw [scanLine_eq hlen]
  by_cases hends : EndsInside got
  · rw [if_pos hends, Option.bind_some]
    simp only [Option.bind_eq_some_iff, Option.map_eq_some_iff, storeToken_eq_some]
    constructor
    · rintro ⟨_, ⟨hm, rfl⟩, _, ⟨hc, rfl⟩, _, ⟨hp, rfl⟩, rfl⟩
      exact ⟨hends, ⟨hm, hc, hp⟩, rfl⟩
    · rintro ⟨-, ⟨hm, hc, hp⟩, rfl⟩
      exact ⟨_, ⟨hm, rfl⟩, _, ⟨hc, rfl⟩, _, ⟨hp, rfl⟩, rfl⟩
  · rw [if_neg hends]
    exact iff_of_false (fun h => by cases h) fun h => hends h.1

/-- A chunk has room for its words in arrays of its own size, because a byte is behind each of them. -/
theorem words_lt (hlen : got.length ≤ Epoll.bufSize) (hends : EndsInside got) :
    (firstWord got).length < Epoll.bufSize ∧ (firstWord got ≠ [] → (secondWord got).length < Epoll.bufSize) ∧
      (firstWord got ≠ [] → secondWord got ≠ [] → (thirdWord got).length < Epoll.bufSize) := by
  have hbehind₁ : (behindFirst got).length ≤ got.length := (List.dropWhile_suffix _).length_le
  have hspace₂ : ((behindFirst got).dropWhile isspace).length ≤ (behindFirst got).length :=
    (List.dropWhile_suffix _).length_le
  have hbehind₂ : (behindSecond got).length ≤ ((behindFirst got).dropWhile isspace).length :=
    (List.dropWhile_suffix _).length_le
  have hspace₃ : ((behindSecond got).dropWhile isspace).length ≤ (behindSecond got).length :=
    (List.dropWhile_suffix _).length_le
  have hle₁ : (firstWord got).length ≤ got.length := (List.takeWhile_prefix _).length_le
  have hle₂ : (secondWord got).length ≤ ((behindFirst got).dropWhile isspace).length :=
    (List.takeWhile_prefix _).length_le
  have hle₃ : (thirdWord got).length ≤ ((behindSecond got).dropWhile isspace).length :=
    (List.takeWhile_prefix _).length_le
  rcases hends with hroom | ⟨hnext₁, hends⟩
  · exact ⟨by omega, fun _ => by omega, fun _ _ => by omega⟩
  refine ⟨(length_word_lt hnext₁).trans_le hlen, fun hw₁ => ?_, fun hw₁ hw₂ => ?_⟩
  · obtain ⟨hnext₂, -⟩ := hends.resolve_left hw₁
    exact (length_word_lt hnext₂).trans_le (by omega)
  · obtain ⟨-, hends⟩ := hends.resolve_left hw₁
    exact (length_word_lt (hends.resolve_left hw₂)).trans_le (by omega)

theorem forall_mem_stored {c : Prop} [Decidable c] {w : List UInt8} {n : Nat} :
    (∀ token ∈ if c then none else some w, token.length < n) ↔ (¬ c → w.length < n) := by
  split
  · rename_i hc
    exact iff_of_true (fun _ h => by cases h) fun h => absurd hc h
  · rename_i hc
    exact ⟨fun h _ => h w rfl, fun h token htoken => by cases htoken; exact h hc⟩

/-- What is left to ask of the arrays when the one for the target has the size of the chunk. -/
theorem fits_iff {arrays : Arrays} (hlen : got.length ≤ Epoll.bufSize) (hends : EndsInside got)
    (hm : 0 < arrays.method.length) (hc : arrays.content.length = Epoll.bufSize) (hp : 0 < arrays.protocol.length) :
    Fits arrays (tokensOf got) ↔ (firstWord got).length < arrays.method.length ∧
      (firstWord got ≠ [] → secondWord got ≠ [] → (thirdWord got).length < arrays.protocol.length) := by
  obtain ⟨-, hsecond, -⟩ := words_lt hlen hends
  constructor
  · rintro ⟨hmethod, -, hprotocol⟩
    rw [tokensOf_method, forall_mem_stored] at hmethod
    rw [tokensOf_protocol, forall_mem_stored] at hprotocol
    -- A word that is not there has room wherever a terminator has.
    constructor
    · by_cases hw : firstWord got = []
      · rwa [hw]
      · exact hmethod hw
    · intro hw₁ hw₂
      by_cases hw : thirdWord got = []
      · rwa [hw]
      · exact hprotocol (by tauto)
  · rintro ⟨hmethod, hprotocol⟩
    constructor
    · rw [tokensOf_method, forall_mem_stored]
      exact fun _ => hmethod
    · rw [tokensOf_content, forall_mem_stored, hc]
      exact fun hw => hsecond fun h => hw (.inl h)
    · rw [tokensOf_protocol, forall_mem_stored]
      exact fun hw => hprotocol (fun h => hw (.inl h)) fun h => hw (.inr (.inl h))

/-! ## The request -/

theorem cstr_stored_word {stop text array : List UInt8} :
    cstr (stored array (some (word stop text))) = word stop text := by
  have h0 : 0 ∉ word stop text := fun h => word_unstopped stop text 0 h (.inl rfl)
  exact (cstr_append h0 _).trans (List.append_nil _)

theorem cstr_zeros (n : Nat) : cstr (List.replicate n 0) = [] := by
  cases n <;> rfl

/-- On arrays that are set to zero, what the scan has not stored reads as empty. -/
theorem sscanf_eq (buf : List UInt8) : Epoll.sscanf buf =
    (scanLine buf).map fun tokens => ⟨tokens.method.getD [], tokens.content.getD [], tokens.protocol.getD []⟩ := by
  unfold Epoll.sscanf scanLine
  rw [Option.map_bind]
  refine congrArg _ (funext fun ⟨method, s⟩ => ?_)
  dsimp only [Function.comp_apply]
  split
  · rfl
  rw [Option.map_bind]
  refine congrArg _ (funext fun s => ?_)
  rw [Function.comp_apply, Option.map_bind]
  refine congrArg _ (funext fun ⟨content, s⟩ => ?_)
  dsimp only [Function.comp_apply]
  split
  · rfl
  rw [Option.map_bind]
  refine congrArg _ (funext fun s => ?_)
  rw [Function.comp_apply, Option.map_map]
  refine congrArg (Option.map · _) (funext fun ⟨protocol, s⟩ => ?_)
  dsimp only [Function.comp_apply]
  split
  · rename_i hnil
    rw [hnil]
    rfl
  · rfl

theorem cstr_stored_zeros (n : Nat) {c : Prop} [Decidable c] {stop text : List UInt8} :
    cstr (stored (List.replicate n 0) (if c then none else some (word stop text))) =
      (if c then none else some (word stop text)).getD [] := by
  split
  · exact cstr_zeros n
  · exact cstr_stored_word

theorem length_zeros : (List.replicate 256 (0 : UInt8)).length = Epoll.bufSize := List.length_replicate

theorem length_zeros_pos : 0 < (List.replicate 256 (0 : UInt8)).length := length_zeros ▸ Nat.zero_lt_succ 255

theorem fits_zeroArrays (hlen : got.length ≤ Epoll.bufSize) (hends : EndsInside got) :
    Fits zeroArrays (tokensOf got) := by
  obtain ⟨hfirst, -, hthird⟩ := words_lt hlen hends
  exact (fits_iff hlen hends length_zeros_pos length_zeros length_zeros_pos).2
    ⟨length_zeros ▸ hfirst, length_zeros ▸ hthird⟩

/-- The request of the other modules is the one that is found in the arrays. -/
theorem request_eq (hlen : got.length ≤ Epoll.bufSize) :
    Epoll.request got = (processHttpRequest got).map fun (tokens, path) => ⟨tokens.method.getD [], path⟩ := by
  unfold Epoll.request processHttpRequest
  rw [sscanf_eq, ← bufOf, scanLine_eq hlen]
  by_cases hends : EndsInside got
  · rw [if_pos hends, (scanInto_eq_some hlen).2 ⟨hends, fits_zeroArrays hlen hends, rfl⟩]
    have hmethod : cstr (stored zeroArrays.method (tokensOf got).method) = (tokensOf got).method.getD [] := by
      rw [tokensOf_method]
      exact cstr_stored_zeros 256
    have hcontent : cstr (stored zeroArrays.content (tokensOf got).content) = (tokensOf got).content.getD [] := by
      rw [tokensOf_content]
      exact cstr_stored_zeros 256
    simp only [Option.map_some, hmethod, hcontent, Epoll.RequestLine.request]
  · have hscan : scanInto zeroArrays got = none := by
      unfold scanInto
      rw [scanLine_eq hlen, if_neg hends]
      rfl
    rw [if_neg hends, hscan]
    rfl

/-! ## The string -/

/-- `sscanf` stops inside `buf`: there is a NUL for it to stop at. -/
def StopsInside (got : List UInt8) : Prop := 0 ∈ bufOf got

instance (got : List UInt8) : Decidable (StopsInside got) := by
  unfold StopsInside; infer_instance

/-- The chunk does not fill the array, or has a NUL of its own. -/
theorem stopsInside_iff (hlen : got.length ≤ Epoll.bufSize) :
    StopsInside got ↔ got.length < Epoll.bufSize ∨ 0 ∈ got := by
  rw [StopsInside, bufOf, List.mem_append, List.mem_replicate, or_comm]
  refine or_congr_left ⟨fun h => ?_, fun h => ⟨?_, rfl⟩⟩
  · have := h.1
    omega
  · omega

/-- A NUL of the chunk is behind each of its words. -/
theorem behind_ne_nil (h : 0 ∈ got) : behindFirst got ≠ [] ∧ behindSecond got ≠ [] ∧ behindThird got ≠ [] := by
  have h1 : 0 ∈ behindFirst got := zero_mem_behind h
  have h2 : 0 ∈ behindSecond got := zero_mem_behind (zero_mem_dropWhile_isspace h1)
  have h3 : 0 ∈ behindThird got := zero_mem_behind (zero_mem_dropWhile_isspace h2)
  exact ⟨List.ne_nil_of_mem h1, List.ne_nil_of_mem h2, List.ne_nil_of_mem h3⟩

/-- On a string no conversion leaves the array. -/
theorem StopsInside.endsInside (hlen : got.length ≤ Epoll.bufSize) (h : StopsInside got) : EndsInside got := by
  refine ((stopsInside_iff hlen).1 h).imp_right fun hzero => ?_
  obtain ⟨h1, h2, h3⟩ := behind_ne_nil hzero
  exact ⟨h1, .inr ⟨h2, .inr h3⟩⟩

/-! ## The branch for GET -/

/-- `sscanf` stops inside `buf`, what it stores fits its arrays, and when the branch for GET is taken the path was
stored. -/
def ScansSafely (got : List UInt8) : Option (Tokens × Option (List UInt8)) → Prop
  | none => False
  | some (tokens, path) => StopsInside got ∧ (path.isSome = true → tokens.content.isSome = true)

instance (got : List UInt8) : (r : Option (Tokens × Option (List UInt8))) → Decidable (ScansSafely got r)
  | none => inferInstanceAs (Decidable False)
  | some (tokens, path) =>
    inferInstanceAs (Decidable (StopsInside got ∧ (path.isSome = true → tokens.content.isSome = true)))

/-- A chunk that names GET and nothing behind it. -/
def BareGet (got : List UInt8) : Prop := Epoll.strcasecmpEq (firstWord got) (str "get") = true ∧ secondWord got = []

instance (got : List UInt8) : Decidable (BareGet got) := by
  unfold BareGet; infer_instance

/-- The array of the method behind the scan; a scan that stores nothing leaves what was there. -/
theorem cstr_method (arrays : Arrays) (got : List UInt8) : cstr (stored arrays.method (tokensOf got).method) =
    if firstWord got = [] then cstr arrays.method else firstWord got := by
  rw [tokensOf_method]
  split
  · rfl
  · exact cstr_stored_word

/-- One argument for both servers: they differ in their arrays, and in what they do with the target. -/
theorem scansSafely_iff {arrays : Arrays} (hlen : got.length ≤ Epoll.bufSize) (path : Arrays → List UInt8)
    (hm : 0 < arrays.method.length) (hc : arrays.content.length = Epoll.bufSize) (hp : 0 < arrays.protocol.length) :
    ScansSafely got ((scanInto arrays got).map fun (tokens, a) =>
        (tokens, if Epoll.strcasecmpEq (cstr a.method) (str "get") then some (path a) else none)) ↔
      StopsInside got ∧ ¬ BareGet got ∧ (firstWord got).length < arrays.method.length ∧
        (firstWord got ≠ [] → secondWord got ≠ [] → (thirdWord got).length < arrays.protocol.length) ∧
        (firstWord got = [] → Epoll.strcasecmpEq (cstr arrays.method) (str "get") = false) := by
  have hcontent : (tokensOf got).content.isSome = true ↔ firstWord got ≠ [] ∧ secondWord got ≠ [] := by
    rw [tokensOf_content, ← not_or]
    split <;> simp_all
  have hempty : Epoll.strcasecmpEq [] (str "get") = false := by decide
  -- The branch is taken on the first word, or on what the array held before.
  have hbranch : (Epoll.strcasecmpEq (cstr (stored arrays.method (tokensOf got).method)) (str "get") = true →
      firstWord got ≠ [] ∧ secondWord got ≠ []) ↔
      ¬ BareGet got ∧ (firstWord got = [] → Epoll.strcasecmpEq (cstr arrays.method) (str "get") = false) := by
    unfold BareGet
    rw [cstr_method]
    by_cases hw : firstWord got = []
    · simp [hw, hempty]
    · simp [hw]
  constructor
  · intro hsafe
    cases hscan : scanInto arrays got with
    | none => rw [hscan] at hsafe; cases hsafe
    | some r =>
      obtain ⟨hends, hfits, rfl⟩ := (scanInto_eq_some hlen).1 hscan
      obtain ⟨hmethod, hprotocol⟩ := (fits_iff hlen hends hm hc hp).1 hfits
      rw [hscan] at hsafe
      obtain ⟨hget, hold⟩ := hbranch.1 fun hbr => hcontent.1 (hsafe.2 (by rw [if_pos hbr]; rfl))
      exact ⟨hsafe.1, hget, hmethod, hprotocol, hold⟩
  · rintro ⟨hstops, hget, hmethod, hprotocol, hold⟩
    have hends := hstops.endsInside hlen
    have hfits := (fits_iff hlen hends hm hc hp).2 ⟨hmethod, hprotocol⟩
    rw [(scanInto_eq_some hlen).2 ⟨hends, hfits, rfl⟩]
    refine ⟨hstops, fun hpath => ?_⟩
    refine hcontent.2 (hbranch.2 ⟨hget, hold⟩ ?_)
    by_contra hbr
    rw [if_neg hbr] at hpath
    cases hpath

/-- Each server stays inside its arrays with a path of its own exactly on the chunks that do not fill `buf` or have a
NUL, and do not stop behind GET; the libevent server needs more, a method and a protocol of at most nine bytes, and an
array that does not happen to hold GET when there is no method. -/
theorem scanning_exact (hlen : got.length ≤ Epoll.bufSize) :
    (ScansSafely got (processHttpRequest got) ↔ (got.length < Epoll.bufSize ∨ 0 ∈ got) ∧ ¬ BareGet got) ∧
    ∀ arrays : Arrays, arrays.method.length = 10 → arrays.content.length = 256 → arrays.protocol.length = 10 →
      (ScansSafely got (readCb arrays got) ↔ (got.length < Epoll.bufSize ∨ 0 ∈ got) ∧ ¬ BareGet got ∧
        (firstWord got).length < 10 ∧ (firstWord got ≠ [] → secondWord got ≠ [] → (thirdWord got).length < 10) ∧
        (firstWord got = [] → Epoll.strcasecmpEq (cstr arrays.method) (str "get") = false)) := by
  rw [← stopsInside_iff hlen]
  constructor
  · refine (@scansSafely_iff got zeroArrays hlen (fun a => Epoll.requestPath (cstr a.content))
      length_zeros_pos length_zeros length_zeros_pos).trans ?_
    constructor
    · rintro ⟨hstops, hget, -⟩
      exact ⟨hstops, hget⟩
    · rintro ⟨hstops, hget⟩
      obtain ⟨hfirst, -, hthird⟩ := words_lt hlen (hstops.endsInside hlen)
      refine ⟨hstops, hget, length_zeros ▸ hfirst, length_zeros ▸ hthird, fun _ => ?_⟩
      rw [zeroArrays, cstr_zeros]
      decide
  · intro arrays hm hc hp
    have := scansSafely_iff hlen Arrays.content (hm ▸ Nat.zero_lt_succ 9) hc (hp ▸ Nat.zero_lt_succ 9)
    rwa [hm, hp] at this

/-- What the stack holds is not looked at when the line has its words. -/
theorem scanning_exact_nineBytes :
    ScansSafely (str "GET / HTTP/1.23\r\n") (processHttpRequest (str "GET / HTTP/1.23\r\n")) ∧
    ScansSafely (str "GET / HTTP/1.23\r\n")
      (readCb ⟨List.replicate 10 103, List.replicate 256 47, List.replicate 10 0⟩ (str "GET / HTTP/1.23\r\n")) := by
  obtain ⟨hepoll, hevent⟩ := @scanning_exact (str "GET / HTTP/1.23\r\n") (by decide +kernel)
  have hevent := hevent ⟨List.replicate 10 103, List.replicate 256 47, List.replicate 10 0⟩ List.length_replicate
    List.length_replicate List.length_replicate
  rw [hepoll, hevent]
  decide +kernel

/-- A request line whose headers go on: the first 256 bytes of it. -/
def fullChunk : List UInt8 := str "GET /a HTTP/1.1\r\nCookie: " ++ List.replicate 231 (code 'A')

/-- The array is full, of one word or of a request with its headers; there is nothing behind GET; the array for the
protocol has no room for the terminator. -/
theorem scan_outside :
    ¬ ScansSafely (List.replicate 256 (code 'A')) (processHttpRequest (List.replicate 256 (code 'A'))) ∧
    ¬ ScansSafely fullChunk (processHttpRequest fullChunk) ∧
    ¬ ScansSafely (str "GET") (processHttpRequest (str "GET")) ∧
    ¬ ScansSafely (str "GET") (readCb ⟨List.replicate 10 0, List.replicate 256 0, List.replicate 10 0⟩ (str "GET")) ∧
    ¬ ScansSafely (str "GET / HTTP/1.234\r\n")
      (readCb ⟨List.replicate 10 0, List.replicate 256 0, List.replicate 10 0⟩ (str "GET / HTTP/1.234\r\n")) := by
  decide +kernel

end LinuxProgram.Web
