/-
The links of a listing. The server writes the name of an entry as it is into an unquoted attribute and
decodes the target of a request: a link leads back to its entry when the name has no space, nothing
that decodes, and is short enough for its request line to fit into the buffer of the first `recv`. As in
`Web.Segments` a buffer that the request fills is taken to be read although it then has no NUL.
-/
import LinuxProgram.Web.Epoll

namespace LinuxProgram.Web.Epoll

open LinuxProgram.Data

/-! ## What decoding leaves alone -/

/-- A percent sign in front of two hexadecimal digits. -/
def HasEscape (s : List UInt8) : Prop := ∃ a b, isxdigit a = true ∧ isxdigit b = true ∧ [37, a, b] <:+: s

theorem hasEscape_cons {c : UInt8} {s : List UInt8} :
    HasEscape (c :: s) ↔
    (∃ a b rest, isxdigit a = true ∧ isxdigit b = true ∧ c = 37 ∧ s = a :: b :: rest) ∨ HasEscape s := by
  constructor
  · rintro ⟨a, b, ha, hb, h⟩
    rcases List.infix_cons_iff.1 h with hp | hi
    · obtain ⟨rest, hrest⟩ := hp
      cases hrest
      exact .inl ⟨a, b, rest, ha, hb, rfl, rfl⟩
    · exact .inr ⟨a, b, ha, hb, hi⟩
  · rintro (⟨a, b, rest, ha, hb, rfl, rfl⟩ | ⟨a, b, ha, hb, h⟩)
    · exact ⟨a, b, ha, hb, ⟨[], rest, rfl⟩⟩
    · exact ⟨a, b, ha, hb, h.trans (List.suffix_cons c s).isInfix⟩

/-- Decoding changes a string exactly when it has an escape. -/
theorem strdecode_eq_self_iff (s : List UInt8) : strdecode s = s ↔ ¬ HasEscape s := by
  fun_induction strdecode s with
  | case1 =>
    refine iff_of_true rfl ?_
    rintro ⟨a, b, -, -, h⟩
    cases List.infix_nil.1 h
  | case2 a b rest h ih =>
    rw [Bool.and_eq_true] at h
    refine iff_of_false (fun he => ?_) (not_not.2 (hasEscape_cons.2 (.inl ⟨a, b, rest, h.1, h.2, rfl, rfl⟩)))
    have hlen := congrArg List.length he
    have := strdecode_length_le rest
    simp only [List.length_cons] at hlen
    omega
  | case3 a b rest h ih =>
    rw [List.cons_eq_cons, and_iff_right rfl, ih, @hasEscape_cons 37, not_or]
    refine (and_iff_right ?_).symm
    rintro ⟨a', b', rest', ha, hb, -, he⟩
    cases he
    exact h (by rw [ha, hb]; rfl)
  | case4 c rest hne ih =>
    rw [List.cons_eq_cons, and_iff_right rfl, ih, hasEscape_cons, not_or]
    refine (and_iff_right ?_).symm
    rintro ⟨a, b, rest', -, -, hc, hr⟩
    exact hne a b rest' hc hr

/-! ## The request for a target -/

/-- What the first `recv` delivers of a request that has arrived. -/
def received (target headers : List UInt8) : List UInt8 :=
  (str "GET " ++ target ++ str " HTTP/1.1\r\n" ++ headers).take bufSize

/-- The request line ends inside the buffer. -/
def LineFits (target : List UInt8) : Prop := (str "GET " ++ target ++ str " HTTP/1.1\r").length ≤ bufSize

theorem get_length : (str "GET ").length = 4 := rfl

theorem lineFits_cons {c : UInt8} {v : List UInt8} : LineFits (c :: v) ↔ v.length ≤ 241 := by
  have hlen : (str "GET " ++ (c :: v) ++ str " HTTP/1.1\r").length = v.length + 15 := by
    have hprotocol : (str " HTTP/1.1\r").length = 10 := rfl
    simp only [List.length_append, List.length_cons, get_length, hprotocol]
    omega
  rw [LineFits, hlen, bufSize]
  omega

theorem unstopped_get : Unstopped [32] (str "GET") := by decide

theorem unstopped_protocol : Unstopped [32, 13, 10] (str "HTTP/1.1") := by decide

theorem sscanf_get {v : List UInt8} (rest : List UInt8) :
    sscanf (str "GET " ++ 47 :: v ++ rest) = (scanUntil [32] (47 :: v ++ rest)).bind fun (content, s) =>
      if content = [] then some ⟨str "GET", [], []⟩
      else (skipSpaces s).bind fun s => (scanUntil [32, 13, 10] s).map fun (protocol, _) =>
        ⟨str "GET", content, protocol⟩ := by
  have hmethod : scanUntil [32] (str "GET " ++ 47 :: v ++ rest) = some (str "GET", 32 :: 47 :: v ++ rest) := by
    rw [List.append_assoc]
    exact scanUntil_stop unstopped_get (.inr List.mem_cons_self) (47 :: v ++ rest)
  have hne : str "GET" ≠ [] := by decide
  rw [sscanf, hmethod, Option.bind_some]
  dsimp only
  rw [if_neg hne, List.cons_append, List.cons_append, skipSpaces_cons rfl]
  rfl

variable {v : List UInt8}

theorem unstopped_target (h0 : 0 ∉ v) (hsp : 32 ∉ v) : Unstopped [32] (47 :: v) := by
  intro b hb
  rw [List.mem_singleton, not_or]
  rcases List.mem_cons.1 hb with rfl | hb
  · decide
  · exact ⟨fun h => h0 (h ▸ hb), fun h => hsp (h ▸ hb)⟩

/-- A target with a space behind it. -/
theorem sscanf_target (h : Unstopped [32] (47 :: v)) (rest : List UInt8) :
    sscanf (str "GET " ++ 47 :: v ++ 32 :: rest) = (skipSpaces (32 :: rest)).bind fun s =>
      (scanUntil [32, 13, 10] s).map fun (protocol, _) => ⟨str "GET", 47 :: v, protocol⟩ := by
  rw [sscanf_get, scanUntil_stop h (.inr List.mem_cons_self), Option.bind_some]
  dsimp only
  rw [if_neg (List.cons_ne_nil 47 v)]

theorem sscanf_target_off (h : Unstopped [32] (47 :: v)) : sscanf (str "GET " ++ 47 :: v) = none := by
  have := @sscanf_get v []
  rw [List.append_nil, List.append_nil] at this
  rw [this, scanUntil_off h]
  rfl

/-- The request for a target that fits is for the path of the target. -/
theorem request_fits (h0 : 0 ∉ v) (hsp : 32 ∉ v) (hfits : v.length ≤ 241) (headers : List UInt8) :
    request (received (47 :: v) headers) = some ⟨str "GET", some (requestPath (47 :: v))⟩ := by
  have hline : (str "GET " ++ 47 :: v ++ str " HTTP/1.1\r").length ≤ bufSize := lineFits_cons.2 hfits
  have hgot : received (47 :: v) headers =
      str "GET " ++ 47 :: v ++ str " HTTP/1.1\r" ++
      (10 :: headers).take (bufSize - (str "GET " ++ 47 :: v ++ str " HTTP/1.1\r").length) := by
    have hsplit : str "GET " ++ 47 :: v ++ str " HTTP/1.1\r\n" ++ headers =
        str "GET " ++ 47 :: v ++ str " HTTP/1.1\r" ++ 10 :: headers := by
      rw [List.append_assoc, List.append_assoc (str "GET " ++ 47 :: v)]
      rfl
    rw [received, hsplit, List.take_append, List.take_of_length_le hline]
  have hscan : ∀ rest, sscanf (str "GET " ++ 47 :: v ++ str " HTTP/1.1\r" ++ rest) =
      some ⟨str "GET", 47 :: v, str "HTTP/1.1"⟩ := by
    intro rest
    have hprotocol := scanUntil_stop unstopped_protocol (c := 13) (.inr (by decide)) rest
    rw [List.append_assoc]
    refine (sscanf_target (unstopped_target h0 hsp) (str "HTTP/1.1" ++ 13 :: rest)).trans ?_
    rw [show skipSpaces (32 :: (str "HTTP/1.1" ++ 13 :: rest)) =
      some (str "HTTP/1.1" ++ 13 :: rest) from skipSpaces_cons rfl _, Option.bind_some, hprotocol]
    rfl
  rw [request, hgot, List.append_assoc, hscan]
  rfl

/-- The protocol of a request line that is cut behind the target. -/
theorem scan_cut_protocol (k : Nat) :
    ((skipSpaces (32 :: (str "HTTP/1.1").take k)).bind fun s => scanUntil [32, 13, 10] s) = none := by
  cases k with
  | zero => rfl
  | succ k =>
    have hcons : (str "HTTP/1.1").take (k + 1) = code 'H' :: (str "TTP/1.1").take k := rfl
    rw [hcons, skipSpaces_cons (by decide), Option.bind_some, ← hcons]
    exact scanUntil_off (unstopped_protocol.of_prefix (List.take_prefix _ _))

/-- The scan for a target that does not fit leaves the buffer. -/
theorem request_off (h0 : 0 ∉ v) (hsp : 32 ∉ v) (hfits : 241 < v.length) (headers : List UInt8) :
    request (received (47 :: v) headers) = none := by
  have hgot : received (47 :: v) headers = str "GET " ++ (47 :: v ++ (str " HTTP/1.1\r\n" ++ headers)).take 252 := by
    rw [received, List.append_assoc, List.append_assoc, List.take_append, get_length]
    rfl
  have hfull : ∀ {t : List UInt8}, (47 :: v ++ (str " HTTP/1.1\r\n" ++ headers)).take 252 = t → t.length = 252 →
      sscanf (str "GET " ++ t) = none → request (received (47 :: v) headers) = none := by
    intro t ht hlen hoff
    have hzeros : bufSize - (str "GET " ++ t).length = 0 := by
      rw [List.length_append, get_length, hlen]
      rfl
    rw [request, hgot, ht, hzeros, List.replicate_zero, List.append_nil, hoff]
    rfl
  rcases Nat.lt_or_ge 250 v.length with hlong | hshort
  · -- the scan of the target does not end
    refine hfull (t := 47 :: v.take 251) ?_ ?_ (sscanf_target_off (unstopped_target ?_ ?_))
    · rw [List.take_append_of_le_length (by rw [List.length_cons]; omega)]
      rfl
    · rw [List.length_cons, List.length_take]
      omega
    · exact fun h => h0 (List.mem_of_mem_take h)
    · exact fun h => hsp (List.mem_of_mem_take h)
  · -- the scan of the protocol does not end
    have hk : 250 - v.length ≤ (str "HTTP/1.1").length := by
      show 250 - v.length ≤ 8
      omega
    refine hfull (t := 47 :: v ++ 32 :: (str "HTTP/1.1").take (250 - v.length)) ?_ ?_ ?_
    · rw [List.take_append, List.take_of_length_le (by rw [List.length_cons]; omega)]
      have h251 : 252 - (47 :: v).length = 250 - v.length + 1 := by
        rw [List.length_cons]
        omega
      refine congrArg (47 :: v ++ ·) ?_
      rw [h251]
      show 32 :: (str "HTTP/1.1" ++ ([13, 10] ++ headers)).take (250 - v.length) = _
      rw [List.take_append_of_le_length hk]
    · rw [List.length_append, List.length_cons, List.length_cons, List.length_take, Nat.min_eq_left hk]
      omega
    · rw [← List.append_assoc, sscanf_target (unstopped_target h0 hsp)]
      have hcut := scan_cut_protocol (250 - v.length)
      cases hs : skipSpaces (32 :: (str "HTTP/1.1").take (250 - v.length)) with
      | none => rfl
      | some s =>
        rw [hs, Option.bind_some] at hcut
        rw [Option.bind_some, hcut]
        rfl

/-! ## Following a link -/

/-- The name of an entry of a directory. -/
structure EntryName where
  bytes : List UInt8
  nonempty : bytes ≠ []
  no_slash : 47 ∉ bytes
  no_nul : 0 ∉ bytes
  short : bytes.length ≤ 255

/-- The value of the attribute in a line of a listing: it is not quoted, and ends at the first space. -/
def hrefValue (line : List UInt8) : List UInt8 :=
  (line.drop (str "<li><a href=").length).takeWhile (· ≠ 32)

/-- The target that is asked for when the link of an entry is followed; for a directory the slash
behind the name is dropped. -/
def linkTarget (dir : Bool) (name : EntryName) : List UInt8 :=
  let href := hrefValue (entryLine dir name.bytes)
  47 :: if dir = true ∧ href.getLast? = some 47 then href.dropLast else href

/-- The request for the link of an entry is for the path that the entry has. -/
def LeadsBack (dir : Bool) (name : EntryName) (headers : List UInt8) : Prop :=
  request (received (linkTarget dir name) headers) = some ⟨str "GET", some name.bytes⟩

theorem takeWhile_of_no_space {s : List UInt8} (h : 32 ∉ s) : s.takeWhile (· ≠ 32) = s := by
  refine List.takeWhile_eq_self_iff.2 fun b hb => ?_
  rw [decide_eq_true_eq]
  exact fun he => h (he ▸ hb)

theorem space_notMem_takeWhile (s : List UInt8) : 32 ∉ s.takeWhile (· ≠ 32) := by
  intro h
  have := List.mem_takeWhile_imp h
  simp at this

/-- The value ends in the name at its first space, or else behind the name. -/
theorem takeWhile_append_line (s rest : List UInt8) :
    (s ++ rest).takeWhile (· ≠ 32) =
      if 32 ∈ s then s.takeWhile (· ≠ 32) else s ++ rest.takeWhile (· ≠ 32) := by
  rw [List.takeWhile_append]
  by_cases hsp : 32 ∈ s
  · rw [if_pos hsp, if_neg]
    intro hlen
    have hself : s.takeWhile (· ≠ 32) = s := (List.takeWhile_prefix _).eq_of_length hlen
    exact space_notMem_takeWhile s (hself.symm ▸ hsp)
  · rw [if_neg hsp, takeWhile_of_no_space hsp, if_pos rfl]

theorem hrefValue_entryLine (dir : Bool) (s : List UInt8) :
    hrefValue (entryLine dir s) = if 32 ∈ s then s.takeWhile (· ≠ 32) else if dir then s ++ [47] else s := by
  have hdrop : ∀ rest, (str "<li><a href=" ++ s ++ rest).drop (str "<li><a href=").length = s ++ rest := by
    intro rest
    rw [List.append_assoc, List.drop_left]
  cases dir with
  | false =>
    rw [hrefValue, entryLine, if_neg Bool.false_ne_true, List.append_assoc, List.append_assoc, hdrop,
      takeWhile_append_line]
    refine if_congr Iff.rfl rfl ?_
    exact List.append_nil s
  | true =>
    rw [hrefValue, entryLine, if_pos rfl, List.append_assoc, List.append_assoc, hdrop, takeWhile_append_line]
    rfl

/-- Following a link asks for the name up to its first space. -/
theorem linkTarget_eq (dir : Bool) (name : EntryName) :
    linkTarget dir name = 47 :: name.bytes.takeWhile (· ≠ 32) := by
  have hkeep : ∀ {s : List UInt8}, 47 ∉ s → (if dir = true ∧ s.getLast? = some 47 then s.dropLast else s) = s := by
    intro s hs
    refine if_neg ?_
    rintro ⟨-, hlast⟩
    exact hs (List.mem_of_getLast? hlast)
  rw [linkTarget, hrefValue_entryLine]
  refine congrArg (47 :: ·) ?_
  by_cases hsp : 32 ∈ name.bytes
  · rw [if_pos hsp]
    exact hkeep fun h => name.no_slash ((List.takeWhile_prefix _).subset h)
  · rw [if_neg hsp, takeWhile_of_no_space hsp]
    cases dir with
    | false => exact hkeep name.no_slash
    | true =>
      simp only [if_true]
      rw [if_pos ⟨trivial, List.getLast?_concat⟩, List.dropLast_concat]

theorem requestPath_eq_iff (name : EntryName) :
    requestPath (47 :: name.bytes.takeWhile (· ≠ 32)) = name.bytes ↔ 32 ∉ name.bytes ∧ ¬ HasEscape name.bytes := by
  rw [requestPath, List.drop_succ_cons, List.drop_zero]
  constructor
  · intro h
    split at h
    · exact absurd (h ▸ (by decide : (47 : UInt8) ∈ str "./")) name.no_slash
    · -- nothing gets shorter on the way
      have hlen := congrArg List.length h
      have hcstr := cstr_length_le (strdecode (name.bytes.takeWhile (· ≠ 32)))
      have hdec := strdecode_length_le (name.bytes.takeWhile (· ≠ 32))
      have hpre : name.bytes.takeWhile (· ≠ 32) <+: name.bytes := List.takeWhile_prefix _
      have htake := hpre.eq_of_length (le_antisymm hpre.length_le (by omega))
      rw [htake] at h hlen hcstr hdec
      have hself : cstr (strdecode name.bytes) = strdecode name.bytes := by
        refine (List.takeWhile_prefix _).eq_of_length ?_
        show (cstr _).length = _
        omega
      rw [hself] at h
      refine ⟨?_, (strdecode_eq_self_iff _).1 h⟩
      rw [← htake]
      exact space_notMem_takeWhile _
  · rintro ⟨hsp, hesc⟩
    rw [takeWhile_of_no_space hsp, (strdecode_eq_self_iff _).2 hesc, cstr_eq_self name.no_nul, if_neg name.nonempty]

/-- A link leads back to its entry exactly when the name has no space and no escape, and the request
line ends inside the buffer. -/
theorem leadsBack_exact (dir : Bool) (name : EntryName) (headers : List UInt8) :
    LeadsBack dir name headers ↔ 32 ∉ name.bytes ∧ ¬ HasEscape name.bytes ∧ LineFits (47 :: name.bytes) := by
  have h0 : 0 ∉ name.bytes.takeWhile (· ≠ 32) := fun h => name.no_nul ((List.takeWhile_prefix _).subset h)
  have hsp := space_notMem_takeWhile name.bytes
  rw [LeadsBack, linkTarget_eq, lineFits_cons]
  rcases Nat.lt_or_ge 241 (name.bytes.takeWhile (· ≠ 32)).length with hlong | hfits
  · rw [request_off h0 hsp hlong]
    refine iff_of_false (by simp) ?_
    rintro ⟨hn, -, hle⟩
    rw [takeWhile_of_no_space hn] at hlong
    omega
  · rw [request_fits h0 hsp hfits, Option.some.injEq, Request.mk.injEq, Option.some.injEq, and_iff_right rfl,
      requestPath_eq_iff]
    refine and_congr_right fun hn => ?_
    rw [takeWhile_of_no_space hn] at hfits
    exact (and_iff_left hfits).symm

/-- `a b` -/
def spacedName : EntryName where
  bytes := str "a b"
  nonempty := by decide
  no_slash := by decide
  no_nul := by decide
  short := by decide

/-- The link of an entry with a space asks for the part before it. -/
theorem spaced_name_lost : ¬ ∀ (dir : Bool) (name : EntryName) (headers : List UInt8), LeadsBack dir name headers := by
  intro h
  have hreq : request (received (linkTarget false spacedName) []) ≠ some ⟨str "GET", some (str "a b")⟩ := by
    decide +kernel
  exact hreq (h false spacedName [])

end LinuxProgram.Web.Epoll
