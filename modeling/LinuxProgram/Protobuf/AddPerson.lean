/-
`add_person.cc` and `list_people.cc`. Every run reads the address book, adds the person that is typed in, and
writes the book back. A string that is not UTF-8 is written like any other, and from then on the book cannot be
read any more: no later run changes it. The file is emptied before the book is written, so that a run that
cannot write it loses the persons that were there.

`add_person.cc` lacks the closing brace of `main`; it is read as if it stood there.
-/
import LinuxProgram.Data.Scan
import LinuxProgram.Data.Text
import LinuxProgram.Protobuf.Reread
import Mathlib.Tactic

namespace LinuxProgram.Protobuf

open LinuxProgram.Data LinuxProgram.Machine

/-! ## The input -/

/-- `cin`: the characters to come, and whether no error or end of file has been met. -/
structure Cin where
  rest : Bytes
  good : Bool
  deriving DecidableEq

namespace Cin

def isdigit (c : UInt8) : Bool := 48 ≤ c && c ≤ 57

/-- `cin >> id` into an `int` that holds `id`. -/
def readInt (c : Cin) (id : Int32) : Int32 × Cin :=
  if c.good then
    match c.rest.dropWhile isspace with
    | [] => (id, ⟨[], false⟩)
    | a :: s =>
      let s := if a = code '-' ∨ a = code '+' then s else a :: s
      let digits := s.takeWhile isdigit
      let rest := s.dropWhile isdigit
      let n : Int := digits.foldl (fun n b => n * 10 + (b.toNat - 48)) 0
      let n := if a = code '-' then -n else n
      if digits = [] then (0, ⟨rest, false⟩)
      else if n < -2 ^ 31 then (Int32.ofInt (-2 ^ 31), ⟨rest, false⟩)
      else if 2 ^ 31 ≤ n then (Int32.ofInt (2 ^ 31 - 1), ⟨rest, false⟩)
      else (Int32.ofInt n, ⟨rest, rest ≠ []⟩)
  else (id, c)

/-- `cin.ignore(n, delim)`. -/
def ignore (c : Cin) (n : Nat) (delim : UInt8) : Cin :=
  if c.good then
    if delim ∈ c.rest.take n then ⟨(c.rest.dropWhile (· ≠ delim)).tail, true⟩
    else ⟨c.rest.drop n, n < c.rest.length⟩
  else c

/-- `getline(cin, str)`. -/
def getline (c : Cin) (str : Bytes) : Bytes × Cin :=
  if c.good then (c.rest.takeWhile (· ≠ 10), ⟨(c.rest.dropWhile (· ≠ 10)).tail, 10 ∈ c.rest⟩)
  else (str, c)

theorem getline_le (c : Cin) (str : Bytes) : (c.getline str).2.rest.length ≤ c.rest.length := by
  unfold getline
  split
  · have hle := (List.dropWhile_sublist (· ≠ 10) (l := c.rest)).length_le
    rw [List.length_tail]
    omega
  · exact Nat.le_refl _

/-- A line that is not empty has been taken off the input. -/
theorem getline_lt {c : Cin} (h : (c.getline []).1 ≠ []) : (c.getline []).2.rest.length < c.rest.length := by
  unfold getline at h ⊢
  split
  · rename_i hgood
    rw [if_pos hgood] at h
    have hsum := congrArg List.length (List.takeWhile_append_dropWhile (p := (· ≠ 10)) (l := c.rest))
    have hpos := List.length_pos_of_ne_nil h
    rw [List.length_append] at hsum
    rw [List.length_tail]
    dsimp only at hpos
    omega
  · rename_i hgood
    rw [if_neg hgood] at h
    exact absurd rfl h

end Cin

/-! ## The person -/

variable (rt : Runtime)

def phoneType (type : Bytes) : Int32 :=
  if type = str "mobile" then PhoneNumber.mobile
  else if type = str "home" then PhoneNumber.home
  else if type = str "work" then PhoneNumber.work
  -- "Unknown phone type.  Using default."
  else (PhoneNumber.new : PhoneNumber Unit).type

/-- The telephone numbers, up to the blank line. -/
def readPhones {U : Type} : Nat → Cin → List (PhoneNumber U)
  | 0, _ => []
  | fuel + 1, c =>
    let number := c.getline []
    if number.1 = [] then []
    else
      let type := number.2.getline []
      { PhoneNumber.new with number := number.1, type := phoneType type.1 } :: readPhones fuel type.2

/-- Any fuel beyond the length of the input is as good as another. -/
theorem readPhones_fuel {U : Type} {c : Cin} {fuel fuel' : Nat} (h : c.rest.length < fuel)
    (h' : c.rest.length < fuel') : readPhones (U := U) fuel c = readPhones fuel' c := by
  induction fuel generalizing c fuel' with
  | zero => exact absurd h (Nat.not_lt_zero _)
  | succ fuel ih =>
    obtain ⟨more, rfl⟩ : ∃ more, fuel' = more + 1 := ⟨fuel' - 1, by omega⟩
    rw [readPhones, readPhones]
    by_cases hline : (c.getline []).1 = []
    · rw [if_pos hline, if_pos hline]
    · have hlt := Cin.getline_lt hline
      have hle := (c.getline []).2.getline_le []
      rw [if_neg hline, if_neg hline]
      exact congrArg (List.cons _) (ih (by omega) (by omega))

/-- `PromptForAddress`, on a new person. -/
def promptForAddress (id : Int32) (now : Int) (c : Cin) : Person rt.Unknown rt.Timestamp :=
  let (id, c) := c.readInt id
  let c := c.ignore 256 10
  let (name, c) := c.getline []
  let (email, c) := c.getline []
  { (Person.new : Person rt.Unknown rt.Timestamp) with
    id := id
    name := name
    email := email
    phones := readPhones (c.rest.length + 1) c
    lastUpdated := some (rt.timestamp.mergeFrom rt.timestamp.new (rt.secondsToTimestamp now)) }

/-! ## The programs -/

/-- `ParseFromIstream`: all of the stream. -/
def parseFromIstream (bytes : Bytes) : Option (AddressBook rt.Unknown rt.Timestamp) :=
  match AddressBook.mergePartialFromCodedStream rt AddressBook.new bytes with
  | some (m, []) => some m
  | _ => none

/-- What becomes of writing: all bytes reach the file; the file cannot be opened; or only the first `n`
bytes reach it, which the stream has met when it is asked or meets when it is closed. -/
inductive Output where
  | written
  | unopened
  | cut (n : Nat) (met : Bool)
  deriving DecidableEq

/-- What a run of `add_person` meets: the `int` on its stack, the time, what is typed, and the disk. -/
structure Session where
  id : Int32
  now : Int
  stdin : Bytes
  output : Output

/-- The person of a session. -/
def typed (s : Session) : Person rt.Unknown rt.Timestamp := promptForAddress rt s.id s.now ⟨s.stdin, true⟩

/-- `SerializeToOstream` does not write `2 ^ 31` bytes or more. -/
def Fits (book : AddressBook rt.Unknown rt.Timestamp) : Prop := (AddressBook.byteSizeLong rt book).1 < 2 ^ 31

instance (book : AddressBook rt.Unknown rt.Timestamp) : Decidable (Fits rt book) := by
  unfold Fits; infer_instance

/-- Lines 89 to 101: `SerializeToOstream` on the file opened with `ios::trunc`, what `main` returns, and the
file after it. -/
def writeBook (file : Option Bytes) (output : Output) (book : AddressBook rt.Unknown rt.Timestamp) :
    Int × Option Bytes :=
  match output with
  | .unopened => (-1, file)
  | .written =>
    if Fits rt book then (0, some ((AddressBook.ops rt).serializeToString book)) else (-1, some [])
  | .cut n met =>
    if Fits rt book then (if met then -1 else 0, some (((AddressBook.ops rt).serializeToString book).take n))
    else (-1, some [])

/-- `main` of `add_person.cc`: what it returns, and the file after it. -/
def addPerson (file : Option Bytes) (s : Session) : Int × Option Bytes :=
  match file.elim (some AddressBook.new) (parseFromIstream rt) with
  | none => (-1, file)
  | some book => writeBook rt file s.output { book with people := book.people ++ [typed rt s] }

/-- The file after one run after the other, from the beginning. -/
def addPeople (ss : List Session) : Option Bytes := ss.foldl (fun file s => (addPerson rt file s).2) none

variable (timeString : rt.Timestamp → Bytes)

def listPhone (p : PhoneNumber rt.Unknown) : Bytes :=
  (if p.type = PhoneNumber.mobile then str "  Mobile phone #: "
    else if p.type = PhoneNumber.home then str "  Home phone #: "
    else if p.type = PhoneNumber.work then str "  Work phone #: "
    else str "  Unknown phone #: ") ++ p.number ++ [10]

def listPerson (p : Person rt.Unknown rt.Timestamp) : Bytes :=
  str "Person ID: " ++ dec p.id.toInt ++ [10] ++
  (str "  Name: " ++ p.name ++ [10]) ++
  (if p.email ≠ [] then str "  E-mail address: " ++ p.email ++ [10] else []) ++
  p.phones.flatMap (listPhone rt) ++
  (p.lastUpdated.elim [] fun t => str "  Updated: " ++ timeString t ++ [10])

/-- `main` of `list_people.cc`: what it prints, unless it fails to parse the address book. -/
def listPeople (file : Option Bytes) : Option Bytes :=
  (file.bind (parseFromIstream rt)).map fun book => book.people.flatMap (listPerson rt timeString)

/-! ## What has been typed -/

/-- An address book of these persons. -/
def bookOf {U T : Type} (ps : List (Person U T)) : AddressBook U T :=
  { (AddressBook.new : AddressBook U T) with people := ps }

/-- The persons up to the first that cannot be read back. -/
def kept : List (Person rt.Unknown rt.Timestamp) → List (Person rt.Unknown rt.Timestamp)
  | [] => []
  | p :: ps => p :: if p.Valid rt then kept ps else []

variable {rt} {ps : List (Person rt.Unknown rt.Timestamp)}

theorem kept_valid_iff : (∀ p ∈ kept rt ps, p.Valid rt) ↔ ∀ p ∈ ps, p.Valid rt := by
  induction ps with
  | nil => rfl
  | cons p ps ih =>
    by_cases hp : p.Valid rt
    · simp [kept, hp, ih]
    · simp [kept, hp]

theorem kept_eq (h : ∀ p ∈ ps, p.Valid rt) : kept rt ps = ps := by
  induction ps with
  | nil => rfl
  | cons p ps ih =>
    obtain ⟨hp, hps⟩ := List.forall_mem_cons.1 h
    rw [kept, if_pos hp, ih hps]

theorem kept_concat (p : Person rt.Unknown rt.Timestamp) :
    kept rt (ps ++ [p]) = if ∀ q ∈ ps, q.Valid rt then kept rt ps ++ [p] else kept rt ps := by
  induction ps with
  | nil => simp [kept]
  | cons q ps ih =>
    rw [List.cons_append, kept, kept, ih]
    by_cases hq : q.Valid rt
    · by_cases hps : ∀ r ∈ ps, r.Valid rt
      · rw [if_pos hq, if_pos hq, if_pos hps, if_pos (List.forall_mem_cons.2 ⟨hq, hps⟩), List.cons_append]
      · rw [if_pos hq, if_pos hq, if_neg hps, if_neg fun h => hps (List.forall_mem_cons.1 h).2]
    · rw [if_neg hq, if_neg hq, if_neg fun h => hq (List.forall_mem_cons.1 h).1]

theorem kept_subset : kept rt ps ⊆ ps := by
  induction ps with
  | nil => exact List.Subset.refl _
  | cons p ps ih =>
    rw [kept]
    apply List.cons_subset_cons
    split
    · exact ih
    · exact List.nil_subset _

theorem readPhones_new {U : Type} (fuel : Nat) (c : Cin) :
    ∀ p ∈ (readPhones fuel c : List (PhoneNumber U)), p.unknownFields = [] ∧ p.cachedSize = 0 := by
  induction fuel generalizing c with
  | zero => exact fun p hp => absurd hp List.not_mem_nil
  | succ fuel ih =>
    intro p hp
    rw [readPhones] at hp
    dsimp only at hp
    split at hp
    · exact absurd hp List.not_mem_nil
    · rcases List.mem_cons.1 hp with rfl | hp
      · exact ⟨rfl, rfl⟩
      · exact ih _ p hp

/-- What is typed has no unknown fields, and a copy of it is the same person. -/
theorem typed_new (h : rt.Lawful) (s : Session) :
    (typed rt s).WellFormed rt ∧ Person.mergeFrom rt Person.new (typed rt s) = typed rt s := by
  obtain ⟨hok, -, hcopy⟩ := h.secondsToTimestamp_settled s.now
  have htime : ∀ t ∈ (typed rt s).lastUpdated, t = rt.secondsToTimestamp s.now := by
    rintro t ht
    cases ht
    exact hcopy
  have hphones : ∀ p ∈ (typed rt s).phones, p.unknownFields = [] ∧ p.cachedSize = 0 := readPhones_new _ _
  constructor
  · constructor
    · exact fun u hu => absurd hu List.not_mem_nil
    · intro p hp u hu
      rw [(hphones p hp).1] at hu
      exact absurd hu List.not_mem_nil
    · intro t ht
      rw [htime t ht]
      exact hok
  · refine (Person.copy_iff _).2 ⟨rfl, ?_, ?_⟩
    · exact fun p hp => (PhoneNumber.copy_iff p).2 (hphones p hp).2
    · intro t ht
      rw [htime t ht]
      exact hcopy

/-! ## What is in the file -/

/-- A written book is read back if the strings in it are UTF-8. -/
theorem parse_written (h : rt.Lawful) (hps : ∀ p ∈ ps, p.WellFormed rt ∧ Person.mergeFrom rt Person.new p = p)
    (hsize : Fits rt (bookOf ps)) :
    parseFromIstream rt ((AddressBook.ops rt).serializeToString (bookOf ps)) =
      if ∀ p ∈ ps, p.Valid rt then some (bookOf ps) else none := by
  have hwf : (bookOf ps).WellFormed rt := ⟨fun u hu => absurd hu List.not_mem_nil, fun p hp => (hps p hp).1⟩
  have hcopy : AddressBook.mergeFrom rt AddressBook.new (bookOf ps) = bookOf ps :=
    (AddressBook.copy_iff _).2 ⟨rfl, fun p hp => (hps p hp).2⟩
  have hread : AddressBook.mergePartialFromCodedStream rt AddressBook.new _ = _ :=
    (AddressBook.lawful h).decodes AddressBook.new (bookOf ps) hwf hsize
  rw [parseFromIstream, hread]
  by_cases hvalid : ∀ p ∈ ps, p.Valid rt
  · rw [if_pos hvalid, if_pos (show (bookOf ps).Valid rt from hvalid)]
    exact congrArg some hcopy
  · rw [if_neg hvalid, if_neg (show ¬ (bookOf ps).Valid rt from hvalid)]

theorem Fits.of_concat {p : Person rt.Unknown rt.Timestamp} (h : Fits rt (bookOf (ps ++ [p]))) :
    Fits rt (bookOf ps) := by
  unfold Fits at *
  simp only [AddressBook.byteSizeLong, bookOf, List.length_append, List.map_append, List.sum_append] at h ⊢
  omega

theorem Fits.of_kept_concat {p : Person rt.Unknown rt.Timestamp} (h : Fits rt (bookOf (kept rt (ps ++ [p])))) :
    Fits rt (bookOf (kept rt ps)) := by
  rw [kept_concat] at h
  split at h
  · exact h.of_concat
  · exact h

theorem parse_kept (h : rt.Lawful) (ss : List Session)
    (hsize : Fits rt (bookOf (kept rt (ss.map (typed rt))))) :
    parseFromIstream rt ((AddressBook.ops rt).serializeToString (bookOf (kept rt (ss.map (typed rt))))) =
      if ∀ s ∈ ss, (typed rt s).Valid rt then some (bookOf (ss.map (typed rt))) else none := by
  have hiff : (∀ p ∈ kept rt (ss.map (typed rt)), p.Valid rt) ↔ ∀ s ∈ ss, (typed rt s).Valid rt :=
    kept_valid_iff.trans List.forall_mem_map
  have htyped : ∀ p ∈ kept rt (ss.map (typed rt)), p.WellFormed rt ∧ Person.mergeFrom rt Person.new p = p := by
    intro p hp
    obtain ⟨s, -, rfl⟩ := List.mem_map.1 (kept_subset hp)
    exact typed_new h s
  rw [parse_written h htyped hsize]
  by_cases hvalid : ∀ s ∈ ss, (typed rt s).Valid rt
  · rw [if_pos hvalid, if_pos (hiff.2 hvalid), kept_eq (List.forall_mem_map.2 hvalid)]
  · rw [if_neg hvalid, if_neg fun hkept => hvalid (hiff.1 hkept)]

/-- The file holds the persons that were typed, up to the first that cannot be read back. -/
theorem addPeople_eq (h : rt.Lawful) (ss : List Session) (hne : ss ≠ []) (hout : ∀ s ∈ ss, s.output = .written)
    (hsize : Fits rt (bookOf (kept rt (ss.map (typed rt))))) :
    addPeople rt ss = some ((AddressBook.ops rt).serializeToString (bookOf (kept rt (ss.map (typed rt))))) := by
  induction ss using List.reverseRecOn with
  | nil => exact absurd rfl hne
  | append_singleton ss s ih =>
    rw [List.map_append, List.map_singleton] at hsize ⊢
    rw [addPeople, List.foldl_concat, ← addPeople]
    have hs : s.output = .written := hout s (List.mem_append_right _ (List.mem_singleton_self s))
    by_cases hss : ss = []
    · subst hss
      have hone : kept rt [typed rt s] = [typed rt s] := by simp [kept]
      rw [List.map_nil, List.nil_append, hone] at hsize ⊢
      rw [addPerson, hs]
      exact congrArg Prod.snd (if_pos hsize)
    · have hbefore := hsize.of_kept_concat
      rw [ih hss (fun t ht => hout t (List.mem_append_left _ ht)) hbefore, addPerson, Option.elim,
        parse_kept h ss hbefore, kept_concat]
      rw [kept_concat] at hsize
      by_cases hvalid : ∀ t ∈ ss, (typed rt t).Valid rt
      · have hmap := List.forall_mem_map.2 hvalid
        rw [if_pos hmap, kept_eq hmap] at hsize
        rw [if_pos hvalid, if_pos hmap, kept_eq hmap, hs]
        exact congrArg Prod.snd (if_pos hsize)
      · rw [if_neg hvalid, if_neg fun hmap => hvalid (List.forall_mem_map.1 hmap)]

/-- What `parseFromIstream` makes of the file. -/
theorem parse_addPeople (h : rt.Lawful) (ss : List Session) (hne : ss ≠ []) (hout : ∀ s ∈ ss, s.output = .written)
    (hsize : Fits rt (bookOf (kept rt (ss.map (typed rt))))) :
    (addPeople rt ss).bind (parseFromIstream rt) =
      if ∀ s ∈ ss, (typed rt s).Valid rt then some (bookOf (ss.map (typed rt))) else none := by
  rw [addPeople_eq h ss hne hout hsize, Option.bind_some, parse_kept h ss hsize]

/-- A file that cannot be read stays as it is. -/
theorem addPerson_unreadable {file : Bytes} (h : parseFromIstream rt file = none) (s : Session) :
    addPerson rt (some file) s = (-1, some file) := by
  rw [addPerson, Option.elim, h]

/-- A run that has read the book writes it with its person added. -/
theorem addPerson_readable {file : Bytes} {book : AddressBook rt.Unknown rt.Timestamp}
    (h : parseFromIstream rt file = some book) (s : Session) :
    addPerson rt (some file) s =
      writeBook rt (some file) s.output { book with people := book.people ++ [typed rt s] } := by
  rw [addPerson, Option.elim, h]

/-- As long as the names, e-mail addresses and numbers stored are UTF-8 and the book was written, `list_people`
prints the persons in the order they were typed, and the next run of `add_person` writes one more if it can. After a
string that is not UTF-8 neither reads the file, and no run changes it. -/
theorem address_book_runs (h : rt.Lawful) (timeString : rt.Timestamp → Bytes) (ss : List Session) (hne : ss ≠ [])
    (hout : ∀ s ∈ ss, s.output = .written) (hsize : Fits rt (bookOf (kept rt (ss.map (typed rt))))) :
    ((∀ s ∈ ss, (typed rt s).Valid rt) →
      listPeople rt timeString (addPeople rt ss) = some ((ss.map (typed rt)).flatMap (listPerson rt timeString)) ∧
        ∀ s, addPerson rt (addPeople rt ss) s =
          writeBook rt (addPeople rt ss) s.output (bookOf ((ss ++ [s]).map (typed rt)))) ∧
    (¬ (∀ s ∈ ss, (typed rt s).Valid rt) →
      listPeople rt timeString (addPeople rt ss) = none ∧
        ∀ more, addPeople rt (ss ++ more) = addPeople rt ss ∧
        ∀ s, (addPerson rt (addPeople rt (ss ++ more)) s).1 = -1) := by
  have hparse := parse_addPeople h ss hne hout hsize
  have hfile := addPeople_eq h ss hne hout hsize
  constructor
  · intro hvalid
    rw [if_pos hvalid] at hparse
    constructor
    · rw [listPeople, hparse]
      rfl
    · intro s
      rw [hfile, Option.bind_some] at hparse
      rw [hfile, addPerson_readable hparse, List.map_append]
      rfl
  · intro hinvalid
    rw [if_neg hinvalid] at hparse
    have hunread := hparse
    rw [hfile, Option.bind_some] at hunread
    have hstays : ∀ more, addPeople rt (ss ++ more) = addPeople rt ss := by
      intro more
      induction more using List.reverseRecOn with
      | nil => rw [List.append_nil]
      | append_singleton more s ih =>
        rw [← List.append_assoc, addPeople, List.foldl_concat, ← addPeople, ih, hfile, addPerson_unreadable hunread]
    refine ⟨?_, fun more => ⟨hstays more, fun s => ?_⟩⟩
    · rw [listPeople, hparse]
      rfl
    · rw [hstays more, hfile, addPerson_unreadable hunread]

/-- A person, and one with a telephone number that is not UTF-8. -/
def sessions : List Session :=
  [⟨0, 0, str "7\nAnn\na@b\n123\nhome\n\n", .written⟩,
    ⟨0, 0, str "8\nBob\n\n" ++ [255] ++ str "\nwork\n\n", .written⟩]

/-- The first person is listed, and a run on a full disk loses her; behind the second nothing is read. -/
theorem address_book_runs_sessions :
    (listPeople Wire.wire (fun _ => []) (addPeople Wire.wire (sessions.take 1)) =
        some (str "Person ID: 7\n  Name: Ann\n  E-mail address: a@b\n  Home phone #: 123\n  Updated: \n") ∧
      addPerson Wire.wire (addPeople Wire.wire (sessions.take 1)) ⟨0, 0, str "9\nEve\n\n\n", .cut 0 true⟩ =
        (-1, some [])) ∧
    listPeople Wire.wire (fun _ => []) (addPeople Wire.wire sessions) = none ∧
      ∀ more, addPeople Wire.wire (sessions ++ more) = addPeople Wire.wire sessions ∧
        ∀ s, (addPerson Wire.wire (addPeople Wire.wire (sessions ++ more)) s).1 = -1 := by
  constructor
  · obtain ⟨hlist, hnext⟩ := (address_book_runs Wire.wire_lawful (fun _ => []) (sessions.take 1) (List.cons_ne_nil _ _)
      (by decide) (by decide +kernel)).1 (by decide +kernel)
    rw [hlist, hnext]
    decide +kernel
  · exact (address_book_runs Wire.wire_lawful (fun _ => []) sessions (List.cons_ne_nil _ _) (by decide)
      (by decide +kernel)).2 (by decide +kernel)

end LinuxProgram.Protobuf
