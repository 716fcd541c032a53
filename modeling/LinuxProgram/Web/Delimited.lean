/-
Where a response of the libevent server ends. A file is sent behind a header with its length; the
page for a missing file is sent behind a header that has no length at all.
-/
import LinuxProgram.Http.Message
import LinuxProgram.Web.Libevent

namespace LinuxProgram.Web

open LinuxProgram.Data LinuxProgram.Io LinuxProgram.Http

/-! ## The header -/

/-- The lines that `copy_header` writes. -/
def statusLine (op : Int) (msg : List UInt8) : List UInt8 := str "HTTP/1.1 " ++ dec op ++ str " " ++ msg

def headerFields (filetype : List UInt8) (filesize : Int) : List (List UInt8) :=
  (str "Content-Type: " ++ filetype) :: if 0 ≤ filesize then [str "Content-Length:" ++ dec filesize] else []

theorem headerLines_printable {msg filetype : List UInt8} (hmsg : Printable msg) (htype : Printable filetype)
    (op filesize : Int) : ∀ l ∈ statusLine op msg :: headerFields filetype filesize, Printable l ∧ l ≠ [] := by
  have hstatus : Printable (statusLine op msg) :=
    (((show Printable (str "HTTP/1.1 ") by decide).append (dec_printable op)).append (by decide)).append hmsg
  have hctype : Printable (str "Content-Type: " ++ filetype) := Printable.append (by decide) htype
  have hclen : Printable (str "Content-Length:" ++ dec filesize) := Printable.append (by decide) (dec_printable _)
  intro l hl
  rcases List.mem_cons.1 hl with rfl | hl
  · exact ⟨hstatus, fun h => by cases h⟩
  · unfold headerFields at hl
    rcases List.mem_cons.1 hl with rfl | hl
    · exact ⟨hctype, fun h => by cases h⟩
    · split at hl
      · rw [List.mem_singleton.1 hl]
        exact ⟨hclen, fun h => by cases h⟩
      · cases hl

theorem zero_notMem_lines {lines : List (List UInt8)} (h : ∀ l ∈ lines, Printable l) :
    0 ∉ (lines.map (· ++ crlf)).flatten ++ crlf := by
  intro h0
  rcases List.mem_append.1 h0 with h0 | h0
  · obtain ⟨l, hl, h0⟩ := List.mem_flatten.1 h0
    obtain ⟨l', hl', rfl⟩ := List.mem_map.1 hl
    rcases List.mem_append.1 h0 with h0 | h0
    · exact (h l' hl').notMem (by decide) h0
    · exact absurd h0 (by decide)
  · exact absurd h0 (by decide)

/-- `copy_header` writes its lines and an empty line. -/
theorem copyHeader_eq {msg filetype : List UInt8} (hmsg : Printable msg) (htype : Printable filetype) (bev : List UInt8)
    (op filesize : Int) : copyHeader bev op msg filetype filesize =
      bev ++ (((statusLine op msg :: headerFields filetype filesize).map (· ++ crlf)).flatten ++ crlf) := by
  have h0 := zero_notMem_lines fun l hl => (headerLines_printable hmsg htype op filesize l hl).1
  rw [← cstr_eq_self h0]
  unfold copyHeader headerFields statusLine
  split <;> simp

/-! ## Files -/

theorem copyLoop_append (fuel : Nat) (fd : Receiver) (bev : List UInt8) :
    copyLoop fuel fd bev = bev ++ copyLoop fuel fd [] := by
  induction fuel generalizing fd bev with
  | zero => simp [copyLoop]
  | succ fuel ih =>
    simp only [copyLoop]
    split
    · split
      · rw [List.append_nil]
      · rename_i buf fd' _ _
        rw [ih fd' (bev ++ buf), ih fd' ([] ++ buf), List.nil_append, List.append_assoc]
    · rw [List.append_nil]

theorem copyFile_append (fs : FileSystem) (bev strFile : List UInt8) :
    copyFile fs bev strFile = bev ++ copyFile fs [] strFile := by
  unfold copyFile
  split
  · rw [List.append_nil]
  · exact copyLoop_append _ _ _

/-- The reads of the file do not fail. -/
def File.Readable (f : File) : Prop := ∀ e ∈ f.reads, ∃ k, e = .chunk k

theorem copyLoop_readable (fuel : Nat) (data : List UInt8) (events : List RecvEvent)
    (h : ∀ e ∈ events, ∃ k, e = .chunk k) (hfuel : data.length < fuel) :
    copyLoop fuel ⟨data, true, events⟩ [] = data := by
  induction fuel generalizing data events with
  | zero => omega
  | succ fuel ih =>
    obtain ⟨k, es, hes, hrecv⟩ : ∃ k es, (∀ e ∈ es, ∃ k, e = RecvEvent.chunk k) ∧
        Receiver.recv ⟨data, true, events⟩ 1024 = some (.bytes (data.take (k + 1)), ⟨data.drop (k + 1), true, es⟩) := by
      cases events with
      | nil => exact ⟨1023, [], h, by simp [Receiver.recv, Receiver.deliver]⟩
      | cons e es =>
        obtain ⟨k, rfl⟩ := h _ (List.mem_cons_self ..)
        refine ⟨min k 1023, es, fun e he => h e (List.mem_cons_of_mem _ he), ?_⟩
        rw [show min k 1023 + 1 = min (k + 1) 1024 by omega]
        simp [Receiver.recv, Receiver.deliver]
    simp only [copyLoop, hrecv]
    split
    · rename_i hnil
      cases data with
      | nil => rfl
      | cons b data => cases hnil
    · rename_i hne
      rw [copyLoop_append, ih _ es hes, List.nil_append, List.take_append_drop]
      have : data ≠ [] := fun h => hne (by rw [h, List.take_nil])
      have := List.length_pos_iff.2 this
      rw [List.length_drop]
      omega

theorem copyFile_readable {fs : FileSystem} {strFile : List UInt8} {f : File} (hopen : fs.openFile strFile = some f)
    (h : f.Readable) : copyFile fs [] strFile = f.contents := by
  rw [copyFile, hopen]
  exact copyLoop_readable _ _ _ h (Nat.lt_succ_self _)

/-! ## Responses -/

/-- The reads of a regular file deliver the bytes that `stat` counts. -/
def FileSystem.DeliversSizes (fs : FileSystem) : Prop :=
  ∀ p n, fs.stat p = some ⟨.reg, n⟩ → ∃ f, fs.openFile p = some f ∧ f.contents.length = n ∧ f.Readable

/-- What a request adds to the output buffer. -/
def Responds (fs : FileSystem) (sb : Int) (path resp : List UInt8) : Prop :=
  ∀ bev, (httpRequest fs sb bev path).2 = bev ++ resp

/-- A header of `copy_header` and the body behind it, as the client reads them. -/
theorem parseHead_copyHeader {msg filetype : List UInt8} (hmsg : Printable msg) (htype : Printable filetype)
    (op filesize : Int) (body : List UInt8) : parseHead (copyHeader [] op msg filetype filesize ++ body) =
      some (statusLine op msg :: headerFields filetype filesize, body) := by
  rw [copyHeader_eq hmsg htype, List.nil_append]
  exact parseHead_lines (headerLines_printable hmsg htype op filesize) body

theorem contentLengths_headerFields (filetype : List UInt8) (filesize : Int) :
    contentLengths (headerFields filetype filesize) =
      if 0 ≤ filesize then [some filesize.toNat] else [] := by
  have hctype : fieldName (str "Content-Type: " ++ filetype) = str "content-type" := by
    have hcolon : str "Content-Type: " = str "Content-Type" ++ [58, 32] := by decide
    rw [hcolon, List.append_assoc, List.cons_append, fieldName_field (by decide)]
    decide
  rw [headerFields, contentLengths_cons (by rw [hctype]; decide)]
  split
  · rename_i h
    obtain ⟨n, rfl⟩ := Int.eq_ofNat_of_zero_le h
    rw [dec_natCast, contentLengths_decNat, Int.toNat_natCast]
  · rfl

/-- A file is sent behind a header that counts its bytes. -/
theorem responds_reg {fs : FileSystem} (hfs : fs.DeliversSizes) (sb : Int) {path : List UInt8} {n : Nat}
    (hstat : fs.stat (strPath path) = some ⟨.reg, n⟩) :
    ∃ f, fs.openFile (strPath path) = some f ∧ f.contents.length = n ∧
      Responds fs sb path (copyHeader [] 200 (str "OK") (getMimeType (strPath path)) n ++ f.contents) := by
  obtain ⟨f, hopen, hlen, hread⟩ := hfs _ n hstat
  refine ⟨f, hopen, hlen, fun bev => ?_⟩
  have hmime := getMimeType_printable (strPath path)
  simp only [httpRequest, hstat, reduceCtorEq, if_false, if_true]
  rw [copyFile_append, copyFile_readable hopen hread, copyHeader_eq (by decide) hmime bev,
    copyHeader_eq (by decide) hmime [], List.nil_append, List.append_assoc]

/-- The page for a missing file. -/
theorem responds_missing {fs : FileSystem} (sb : Int) {path : List UInt8} (hstat : fs.stat (strPath path) = none) :
    Responds fs sb path
      (copyHeader [] 404 (str "NOT FOUND") (getMimeType errorFile) (-1) ++ copyFile fs [] errorFile) := by
  intro bev
  have hmime := getMimeType_printable errorFile
  simp only [httpRequest, hstat]
  rw [copyFile_append, copyHeader_eq (by decide) hmime bev, copyHeader_eq (by decide) hmime [], List.nil_append,
    List.append_assoc]

/-- A regular file is announced with the length of what follows, in the only `Content-Length` of the
header; the page for a missing file follows a header without one. -/
theorem response_lengths {fs : FileSystem} (hfs : fs.DeliversSizes) (sb : Int) (path : List UInt8) :
    (∀ n, fs.stat (strPath path) = some ⟨.reg, n⟩ → ∃ resp f fields, Responds fs sb path resp ∧
      fs.openFile (strPath path) = some f ∧
      parseHead resp = some (str "HTTP/1.1 200 OK" :: fields, f.contents) ∧
      contentLengths fields = [some f.contents.length] ∧ delimited resp = true) ∧
    (fs.stat (strPath path) = none → ∃ resp fields, Responds fs sb path resp ∧
      parseHead resp = some (str "HTTP/1.1 404 NOT FOUND" :: fields, copyFile fs [] errorFile) ∧
      contentLengths fields = []) := by
  constructor
  · intro n hstat
    obtain ⟨f, hopen, hlen, hresp⟩ := responds_reg hfs sb hstat
    have hok : Printable (str "OK") := by decide
    have hparse := parseHead_copyHeader hok (getMimeType_printable (strPath path)) 200 n f.contents
    have hlengths : contentLengths (headerFields (getMimeType (strPath path)) n) = [some f.contents.length] := by
      rw [contentLengths_headerFields, if_pos (by omega), Int.toNat_natCast, hlen]
    refine ⟨_, f, _, hresp, hopen, hparse, hlengths, ?_⟩
    rw [delimited, hparse]
    show (contentLengths (headerFields (getMimeType (strPath path)) n) == [some f.contents.length]) = true
    rw [hlengths, beq_self_eq_true]
  · intro hstat
    have hmissing : Printable (str "NOT FOUND") := by decide
    refine ⟨_, _, responds_missing sb hstat,
      parseHead_copyHeader hmissing (getMimeType_printable errorFile) 404 (-1) _, ?_⟩
    rw [contentLengths_headerFields, if_neg (by decide)]

/-! ## A site with one page -/

def siteFile (p : List UInt8) : Option File :=
  if p = str "a.txt" then some ⟨str "hello", [.chunk 1]⟩
  else if p = errorFile then some ⟨str "<p>404</p>", []⟩
  else if p = dirPrefixFile then some ⟨str "<ul>", []⟩
  else if p = dirTailFile then some ⟨str "</ul>", []⟩
  else none

def site : FileSystem where
  stat p := if p = str "./" then some ⟨.dir, 4096⟩ else (siteFile p).map fun f => ⟨.reg, f.contents.length⟩
  openFile := siteFile
  opendir p := if p = str "./" then some [⟨str "a.txt", .reg⟩] else none

theorem site_deliversSizes : site.DeliversSizes := by
  intro p n h
  simp only [site] at h
  split at h
  · cases h
  · obtain ⟨f, hf, he⟩ := Option.map_eq_some_iff.1 h
    cases he
    refine ⟨f, hf, rfl, ?_⟩
    simp only [siteFile] at hf
    split_ifs at hf <;> cases hf
    · exact fun e he => ⟨1, List.mem_singleton.1 he⟩
    all_goals exact fun e he => by cases he

theorem response_lengths_site : ∃ resp f fields, Responds site 0 (str "/a.txt" ++ [0]) resp ∧
    site.openFile (str "a.txt") = some f ∧
    parseHead resp = some (str "HTTP/1.1 200 OK" :: fields, f.contents) ∧
    contentLengths fields = [some f.contents.length] ∧ delimited resp = true :=
  (response_lengths site_deliversSizes 0 (str "/a.txt" ++ [0])).1 5 (by decide +kernel)

/-- Neither the page for a missing file nor the listing of the root is delimited: the one has no
length, and the length of the other is the size of the directory's own file. -/
theorem missing_and_listing_not_delimited : site.DeliversSizes ∧
    (parseHead (httpRequest site 0 [] (str "/b.txt" ++ [0])).2).map (fun (lines, body) =>
      (contentLengths lines, body.length)) = some ([], 10) ∧
    (parseHead (httpRequest site 0 [] (str "/" ++ [0])).2).map (fun (lines, body) =>
      (contentLengths lines, body.length)) = some ([some 4096], 83) ∧
    delimited (httpRequest site 0 [] (str "/b.txt" ++ [0])).2 = false ∧
    delimited (httpRequest site 0 [] (str "/" ++ [0])).2 = false := by
  refine ⟨site_deliversSizes, ?_, ?_, ?_, ?_⟩ <;> decide +kernel

end LinuxProgram.Web
