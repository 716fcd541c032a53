/-
`addressbook.pb.cc`: the messages `Person.PhoneNumber`, `Person` and `AddressBook`. A string is verified when it
is read and not when it is written, so what was written is read back exactly when its strings are UTF-8.
-/
import LinuxProgram.Data.Text
import LinuxProgram.Protobuf.Wire
import Mathlib.Tactic

namespace LinuxProgram.Protobuf

open LinuxProgram.Data LinuxProgram.Machine

/-! ## The messages -/

/-- `Person_PhoneNumber`. -/
structure PhoneNumber (U : Type) where
  number : Bytes
  /-- A `Person_PhoneType`, or another number that was read for one. -/
  type : Int32
  unknownFields : List U
  cachedSize : Nat
  deriving DecidableEq

structure Person (U T : Type) where
  name : Bytes
  id : Int32
  email : Bytes
  phones : List (PhoneNumber U)
  lastUpdated : Option T
  unknownFields : List U
  cachedSize : Nat
  deriving DecidableEq

structure AddressBook (U T : Type) where
  people : List (Person U T)
  unknownFields : List U
  cachedSize : Nat
  deriving DecidableEq

namespace PhoneNumber

def mobile : Int32 := 0
def home : Int32 := 1
def work : Int32 := 2

variable (rt : Runtime)

def new {U : Type} : PhoneNumber U := ⟨[], 0, [], 0⟩

def addUnknown {U : Type} (m : PhoneNumber U) (u : U) : PhoneNumber U :=
  { m with unknownFields := m.unknownFields ++ [u] }

def fields : List (Field (PhoneNumber rt.Unknown)) :=
  [.string rt 1 10 fun m v => { m with number := v },
    .scalar rt.enum 2 16 fun m v => { m with type := v }]

def mergePartialFromCodedStream (m : PhoneNumber rt.Unknown) : Reader UInt8 (PhoneNumber rt.Unknown) :=
  readFields (rt.turn (fields rt) addUnknown) m

def serializeWithCachedSizes (m : PhoneNumber rt.Unknown) : Bytes :=
  (if 0 < m.number.length then rt.writeBytes 1 m.number else []) ++
  ((if m.type ≠ 0 then rt.writeEnum 2 m.type else []) ++
  rt.serializeUnknownFields m.unknownFields)

def byteSizeLong (m : PhoneNumber rt.Unknown) : Nat × PhoneNumber rt.Unknown :=
  let totalSize := rt.computeUnknownFieldsSize m.unknownFields +
    (if 0 < m.number.length then 1 + rt.bytes.size m.number else 0) +
    (if m.type ≠ 0 then 1 + rt.enum.size m.type else 0)
  (totalSize, { m with cachedSize := rt.toCachedSize totalSize })

def mergeFrom {U : Type} (m from' : PhoneNumber U) : PhoneNumber U :=
  { m with
    unknownFields := m.unknownFields ++ from'.unknownFields
    number := if 0 < from'.number.length then from'.number else m.number
    type := if from'.type ≠ 0 then from'.type else m.type }

def ops : MessageOps (PhoneNumber rt.Unknown) where
  new := new
  mergePartialFromCodedStream := mergePartialFromCodedStream rt
  byteSizeLong := byteSizeLong rt
  getCachedSize := cachedSize
  serializeWithCachedSizes := serializeWithCachedSizes rt
  mergeFrom := mergeFrom

/-- No unknown field has the tag of a field. -/
def WellFormed (m : PhoneNumber rt.Unknown) : Prop := ∀ u ∈ m.unknownFields, Unhandled (fields rt) (rt.unknownTag u)

/-- The number, when it is written at all, is UTF-8. -/
def Valid (m : PhoneNumber rt.Unknown) : Prop := 0 < m.number.length → rt.verifyUtf8String m.number = true

instance (m : PhoneNumber rt.Unknown) : Decidable (m.Valid rt) := inferInstanceAs (Decidable (_ → _))

variable {rt}

theorem onward (h : rt.Lawful) : Onward (fields rt) := by
  intro f hf m
  simp only [fields, List.mem_cons, List.not_mem_nil, or_false] at hf
  rcases hf with rfl | rfl
  · exact Field.string_forward h _ _ _ m
  · exact Field.scalar_forward h.enum.forward _ _ _ m

theorem foldl_addUnknown {U : Type} (us : List U) (m : PhoneNumber U) :
    us.foldl addUnknown m = { m with unknownFields := m.unknownFields ++ us } :=
  foldl_concat unknownFields (fun m us => { m with unknownFields := us }) (fun _ _ => rfl) (fun _ _ _ => rfl)
    (fun _ => rfl) us m

theorem serialize_length (h : rt.Lawful) (m : PhoneNumber rt.Unknown) (hnumber : m.number.length < 2 ^ 31) :
    (serializeWithCachedSizes rt m).length = (byteSizeLong rt m).1 := by
  have hbytes : 0 < m.number.length → (rt.writeBytes 1 m.number).length = 1 + rt.bytes.size m.number := fun _ =>
    scalar_length h (by decide) (by decide) h.bytes hnumber
  have htype : m.type ≠ 0 → (rt.writeEnum 2 m.type).length = 1 + rt.enum.size m.type := fun _ =>
    scalar_length h (by decide) (by decide) h.enum trivial
  simp only [serializeWithCachedSizes, byteSizeLong, List.length_append, length_optional hbytes, length_optional htype,
    unknowns_length h]
  omega

theorem number_length (h : rt.Lawful) {m : PhoneNumber rt.Unknown} (hsize : (byteSizeLong rt m).1 < 2 ^ 31) :
    m.number.length < 2 ^ 31 := by
  apply optional_length h
  simp only [byteSizeLong] at hsize
  omega

/-- Reading what was written is merging, unless the number is not UTF-8. -/
theorem decodes (h : rt.Lawful) (m : PhoneNumber rt.Unknown) (hwf : m.WellFormed rt)
    (hsize : (byteSizeLong rt m).1 < 2 ^ 31) :
    DecodesIf (rt.turn (fields rt) addUnknown) (m.Valid rt) (serializeWithCachedSizes rt m) fun a => a.mergeFrom m := by
  have hon := onward h
  have hunknown : rt.computeUnknownFieldsSize m.unknownFields < 2 ^ 31 := by
    simp only [byteSizeLong] at hsize
    omega
  have hnumber : DecodesIf (rt.turn (fields rt) addUnknown) (rt.verifyUtf8String m.number = true)
    (rt.writeBytes 1 m.number)
      fun a => { a with number := m.number } :=
    decodes_string h hon 10 (by decide) (by decide) (number_length h hsize) rfl
  have htype : DecodesIf (rt.turn (fields rt) addUnknown) True (rt.writeEnum 2 m.type) fun a =>
      { a with type := m.type } :=
    decodes_scalar h hon 16 (by decide) (by decide) h.enum trivial rfl
  have hrest : DecodesIf (rt.turn (fields rt) addUnknown) True (rt.serializeUnknownFields m.unknownFields)
      fun a => m.unknownFields.foldl addUnknown a := decodes_unknowns h hon hwf hunknown
  apply (hnumber.ite.append (htype.ite.append hrest)).congr
  · simp [Valid]
  · intro a
    simp only [foldl_addUnknown, mergeFrom]
    split <;> split <;> rfl

theorem lawful (h : rt.Lawful) : (ops rt).Lawful (WellFormed rt) (Valid rt) where
  cached _ _ hsize := h.toCachedSize_eq _ hsize
  size m _ hsize := serialize_length h m (number_length h hsize)
  decodes _ m hwf hsize := (decodes h m hwf hsize).read (turn_nil h)

end PhoneNumber

namespace Person

variable (rt : Runtime)

def new {U T : Type} : Person U T := ⟨[], 0, [], [], none, [], 0⟩

def addUnknown {U T : Type} (m : Person U T) (u : U) : Person U T := { m with unknownFields := m.unknownFields ++ [u] }

def fields : List (Field (Person rt.Unknown rt.Timestamp)) :=
  [.string rt 1 10 fun m v => { m with name := v },
    .scalar rt.int32 2 16 fun m v => { m with id := v },
    .string rt 3 26 fun m v => { m with email := v },
    .message rt (PhoneNumber.ops rt) 4 34 (fun _ => PhoneNumber.new) fun m p => { m with phones := m.phones ++ [p] },
    -- `mutable_last_updated` makes a new timestamp only when there is none
    .message rt rt.timestamp 5 42 (fun m => m.lastUpdated.getD rt.timestamp.new) fun m t =>
      { m with lastUpdated := some t }]

def mergePartialFromCodedStream (m : Person rt.Unknown rt.Timestamp) : Reader UInt8 (Person rt.Unknown rt.Timestamp) :=
  readFields (rt.turn (fields rt) addUnknown) m

def serializeWithCachedSizes (m : Person rt.Unknown rt.Timestamp) : Bytes :=
  (if 0 < m.name.length then rt.writeBytes 1 m.name else []) ++
  ((if m.id ≠ 0 then rt.writeInt32 2 m.id else []) ++
  ((if 0 < m.email.length then rt.writeBytes 3 m.email else []) ++
  (m.phones.flatMap (rt.writeMessage (PhoneNumber.ops rt) 4) ++
  (m.lastUpdated.elim [] (rt.writeMessage rt.timestamp 5) ++
  rt.serializeUnknownFields m.unknownFields))))

def byteSizeLong (m : Person rt.Unknown rt.Timestamp) : Nat × Person rt.Unknown rt.Timestamp :=
  let totalSize := rt.computeUnknownFieldsSize m.unknownFields +
    (1 * m.phones.length + (m.phones.map (rt.messageSize (PhoneNumber.ops rt))).sum) +
    (if 0 < m.name.length then 1 + rt.bytes.size m.name else 0) +
    (if 0 < m.email.length then 1 + rt.bytes.size m.email else 0) +
    (m.lastUpdated.elim 0 fun t => 1 + rt.messageSize rt.timestamp t) +
    (if m.id ≠ 0 then 1 + rt.int32.size m.id else 0)
  (totalSize, { m with
    phones := m.phones.map fun p => (PhoneNumber.byteSizeLong rt p).2
    lastUpdated := m.lastUpdated.map fun t => (rt.timestamp.byteSizeLong t).2
    cachedSize := rt.toCachedSize totalSize })

def mergeFrom (m from' : Person rt.Unknown rt.Timestamp) : Person rt.Unknown rt.Timestamp :=
  { m with
    unknownFields := m.unknownFields ++ from'.unknownFields
    phones := m.phones ++ from'.phones.map PhoneNumber.new.mergeFrom
    name := if 0 < from'.name.length then from'.name else m.name
    email := if 0 < from'.email.length then from'.email else m.email
    lastUpdated := from'.lastUpdated.elim m.lastUpdated fun t =>
      some (rt.timestamp.mergeFrom (m.lastUpdated.getD rt.timestamp.new) t)
    id := if from'.id ≠ 0 then from'.id else m.id }

def ops : MessageOps (Person rt.Unknown rt.Timestamp) where
  new := new
  mergePartialFromCodedStream := mergePartialFromCodedStream rt
  byteSizeLong := byteSizeLong rt
  getCachedSize := cachedSize
  serializeWithCachedSizes := serializeWithCachedSizes rt
  mergeFrom := mergeFrom rt

structure WellFormed (m : Person rt.Unknown rt.Timestamp) : Prop where
  unknown : ∀ u ∈ m.unknownFields, Unhandled (fields rt) (rt.unknownTag u)
  phones : ∀ p ∈ m.phones, p.WellFormed rt
  lastUpdated : ∀ t ∈ m.lastUpdated, rt.TimestampOk t

/-- The strings that are written are UTF-8. -/
def Valid (m : Person rt.Unknown rt.Timestamp) : Prop :=
  (0 < m.name.length → rt.verifyUtf8String m.name = true) ∧
    (0 < m.email.length → rt.verifyUtf8String m.email = true) ∧ ∀ p ∈ m.phones, p.Valid rt

instance (m : Person rt.Unknown rt.Timestamp) : Decidable (m.Valid rt) := inferInstanceAs (Decidable (_ ∧ _))

variable {rt}

theorem onward (h : rt.Lawful) : Onward (fields rt) := by
  intro f hf m
  simp only [fields, List.mem_cons, List.not_mem_nil, or_false] at hf
  rcases hf with rfl | rfl | rfl | rfl | rfl
  · exact Field.string_forward h _ _ _ m
  · exact Field.scalar_forward h.int32.forward _ _ _ m
  · exact Field.string_forward h _ _ _ m
  · exact Field.message_forward h _ _ _ _ _ m
  · exact Field.message_forward h _ _ _ _ _ m

theorem foldl_addUnknown {U T : Type} (us : List U) (m : Person U T) :
    us.foldl addUnknown m = { m with unknownFields := m.unknownFields ++ us } :=
  foldl_concat unknownFields (fun m us => { m with unknownFields := us }) (fun _ _ => rfl) (fun _ _ _ => rfl)
    (fun _ => rfl) us m

theorem foldl_addPhones {U T : Type} (ps : List (PhoneNumber U)) (m : Person U T) :
    ps.foldl (fun m p => { m with phones := m.phones ++ [p] }) m = { m with phones := m.phones ++ ps } :=
  foldl_concat phones (fun m ps => { m with phones := ps }) (fun _ _ => rfl) (fun _ _ _ => rfl) (fun _ => rfl) ps m

/-- What a size below the limit says of the fields. -/
structure Small (rt : Runtime) (m : Person rt.Unknown rt.Timestamp) : Prop where
  name : m.name.length < 2 ^ 31
  email : m.email.length < 2 ^ 31
  phones : ∀ p ∈ m.phones, ((PhoneNumber.ops rt).byteSizeLong p).1 < 2 ^ 31
  lastUpdated : ∀ t ∈ m.lastUpdated, (rt.timestamp.byteSizeLong t).1 < 2 ^ 31
  unknown : rt.computeUnknownFieldsSize m.unknownFields < 2 ^ 31

theorem small (h : rt.Lawful) {m : Person rt.Unknown rt.Timestamp} (hsize : (byteSizeLong rt m).1 < 2 ^ 31) :
    m.Small rt := by
  simp only [byteSizeLong] at hsize
  constructor
  · apply optional_length h
    omega
  · apply optional_length h
    omega
  · intro p hp
    have hle := messageSize_mem rt (o := PhoneNumber.ops rt) hp
    omega
  · intro t ht
    rw [Option.mem_def.1 ht, Option.elim, Runtime.messageSize] at hsize
    omega
  · omega

theorem serialize_length (h : rt.Lawful) (m : Person rt.Unknown rt.Timestamp) (hwf : m.WellFormed rt)
    (hsmall : m.Small rt) : (serializeWithCachedSizes rt (byteSizeLong rt m).2).length = (byteSizeLong rt m).1 := by
  have hname : 0 < m.name.length → (rt.writeBytes 1 m.name).length = 1 + rt.bytes.size m.name := fun _ =>
    scalar_length h (by decide) (by decide) h.bytes hsmall.name
  have hid : m.id ≠ 0 → (rt.writeInt32 2 m.id).length = 1 + rt.int32.size m.id := fun _ =>
    scalar_length h (by decide) (by decide) h.int32 trivial
  have hemail : 0 < m.email.length → (rt.writeBytes 3 m.email).length = 1 + rt.bytes.size m.email := fun _ =>
    scalar_length h (by decide) (by decide) h.bytes hsmall.email
  have hphones :
    ((m.phones.map fun p => (PhoneNumber.byteSizeLong rt p).2).flatMap
    (rt.writeMessage (PhoneNumber.ops rt) 4)).length =
      1 * m.phones.length + (m.phones.map (rt.messageSize (PhoneNumber.ops rt))).sum :=
    messages_length h (PhoneNumber.lawful h) (by decide) (by decide) hwf.phones hsmall.phones
  have htime :
    ((m.lastUpdated.map fun t => (rt.timestamp.byteSizeLong t).2).elim [] (rt.writeMessage rt.timestamp 5)).length =
      m.lastUpdated.elim 0 fun t => 1 + rt.messageSize rt.timestamp t := by
    cases ht : m.lastUpdated with
    | none => rfl
    | some t =>
      exact message_length h h.timestamp (by decide) (by decide) (hwf.lastUpdated t ht) (hsmall.lastUpdated t ht)
  have hunknown := unknowns_length h m.unknownFields
  show ((if 0 < m.name.length then rt.writeBytes 1 m.name else []) ++
    ((if m.id ≠ 0 then rt.writeInt32 2 m.id else []) ++
    ((if 0 < m.email.length then rt.writeBytes 3 m.email else []) ++ (List.flatMap _ (m.phones.map _) ++
      (Option.elim (m.lastUpdated.map _) [] _ ++ rt.serializeUnknownFields m.unknownFields))))).length = _
  simp only [List.length_append, length_optional hname, length_optional hid, length_optional hemail, hunknown]
  rw [hphones, htime, byteSizeLong]
  omega

/-- Reading what was written is merging, unless a string is not UTF-8. -/
theorem decodes (h : rt.Lawful) (m : Person rt.Unknown rt.Timestamp) (hwf : m.WellFormed rt) (hsmall : m.Small rt) :
    DecodesIf (rt.turn (fields rt) addUnknown) (m.Valid rt) (serializeWithCachedSizes rt (byteSizeLong rt m).2) fun a =>
      a.mergeFrom rt m := by
  have hon := onward h
  have hname : DecodesIf (rt.turn (fields rt) addUnknown) (rt.verifyUtf8String m.name = true) (rt.writeBytes 1 m.name)
      fun a => { a with name := m.name } := decodes_string h hon 10 (by decide) (by decide) hsmall.name rfl
  have hid : DecodesIf (rt.turn (fields rt) addUnknown) True (rt.writeInt32 2 m.id) fun a => { a with id := m.id } :=
    decodes_scalar h hon 16 (by decide) (by decide) h.int32 trivial rfl
  have hemail : DecodesIf (rt.turn (fields rt) addUnknown) (rt.verifyUtf8String m.email = true)
    (rt.writeBytes 3 m.email)
      fun a => { a with email := m.email } := decodes_string h hon 26 (by decide) (by decide) hsmall.email rfl
  have hphones : DecodesIf (rt.turn (fields rt) addUnknown) (∀ p ∈ m.phones, p.Valid rt)
      ((m.phones.map fun p => (PhoneNumber.byteSizeLong rt p).2).flatMap (rt.writeMessage (PhoneNumber.ops rt) 4))
      fun a => (m.phones.map PhoneNumber.new.mergeFrom).foldl (fun m p => { m with phones := m.phones ++ [p] }) a :=
    decodes_messages h hon 34 (by decide) (by decide) (PhoneNumber.lawful h) rfl hwf.phones hsmall.phones rfl
  have htime : DecodesIf (rt.turn (fields rt) addUnknown) True
      ((m.lastUpdated.map fun t => (rt.timestamp.byteSizeLong t).2).elim [] (rt.writeMessage rt.timestamp 5))
      fun a => { a with lastUpdated := (m.lastUpdated.elim a.lastUpdated fun t =>
        some (rt.timestamp.mergeFrom (a.lastUpdated.getD rt.timestamp.new) t)) } := by
    cases ht : m.lastUpdated with
    | none => exact Decodes.nil
    | some t =>
      exact decodes_message h hon 42 (by decide) (by decide) h.timestamp rfl (hwf.lastUpdated t ht)
        (hsmall.lastUpdated t ht) rfl
  have hrest : DecodesIf (rt.turn (fields rt) addUnknown) True (rt.serializeUnknownFields m.unknownFields)
      fun a => m.unknownFields.foldl addUnknown a := decodes_unknowns h hon hwf.unknown hsmall.unknown
  have hall := (hname.ite (c := 0 < m.name.length)).append ((hid.ite (c := m.id ≠ 0)).append
    ((hemail.ite (c := 0 < m.email.length)).append (hphones.append (htime.append hrest))))
  apply hall.congr
  · simp only [Valid, implies_true, and_true, true_and]
  · intro a
    by_cases h1 : 0 < m.name.length <;> by_cases h2 : m.id = 0 <;> by_cases h3 : 0 < m.email.length <;>
      simp only [h1, h2, h3, ne_eq, not_true_eq_false, not_false_eq_true, if_true, if_false, foldl_addPhones,
        foldl_addUnknown, mergeFrom]

theorem lawful (h : rt.Lawful) : (ops rt).Lawful (WellFormed rt) (Valid rt) where
  cached _ _ hsize := h.toCachedSize_eq _ hsize
  size m hwf hsize := serialize_length h m hwf (small h hsize)
  decodes _ m hwf hsize := (decodes h m hwf (small h hsize)).read (turn_nil h)

end Person

namespace AddressBook

variable (rt : Runtime)

def new {U T : Type} : AddressBook U T := ⟨[], [], 0⟩

def addUnknown {U T : Type} (m : AddressBook U T) (u : U) : AddressBook U T :=
  { m with unknownFields := m.unknownFields ++ [u] }

def fields : List (Field (AddressBook rt.Unknown rt.Timestamp)) :=
  [.message rt (Person.ops rt) 1 10 (fun _ => Person.new) fun m p => { m with people := m.people ++ [p] }]

def mergePartialFromCodedStream (m : AddressBook rt.Unknown rt.Timestamp) :
    Reader UInt8 (AddressBook rt.Unknown rt.Timestamp) :=
  readFields (rt.turn (fields rt) addUnknown) m

def serializeWithCachedSizes (m : AddressBook rt.Unknown rt.Timestamp) : Bytes :=
  m.people.flatMap (rt.writeMessage (Person.ops rt) 1) ++ rt.serializeUnknownFields m.unknownFields

def byteSizeLong (m : AddressBook rt.Unknown rt.Timestamp) : Nat × AddressBook rt.Unknown rt.Timestamp :=
  let totalSize := rt.computeUnknownFieldsSize m.unknownFields +
    (1 * m.people.length + (m.people.map (rt.messageSize (Person.ops rt))).sum)
  (totalSize,
    { m with people := m.people.map fun p => (Person.byteSizeLong rt p).2, cachedSize := rt.toCachedSize totalSize })

def mergeFrom (m from' : AddressBook rt.Unknown rt.Timestamp) : AddressBook rt.Unknown rt.Timestamp :=
  { m with
    unknownFields := m.unknownFields ++ from'.unknownFields
    people := m.people ++ from'.people.map (Person.mergeFrom rt Person.new) }

def ops : MessageOps (AddressBook rt.Unknown rt.Timestamp) where
  new := new
  mergePartialFromCodedStream := mergePartialFromCodedStream rt
  byteSizeLong := byteSizeLong rt
  getCachedSize := cachedSize
  serializeWithCachedSizes := serializeWithCachedSizes rt
  mergeFrom := mergeFrom rt

structure WellFormed (m : AddressBook rt.Unknown rt.Timestamp) : Prop where
  unknown : ∀ u ∈ m.unknownFields, Unhandled (fields rt) (rt.unknownTag u)
  people : ∀ p ∈ m.people, p.WellFormed rt

def Valid (m : AddressBook rt.Unknown rt.Timestamp) : Prop := ∀ p ∈ m.people, p.Valid rt

instance (m : AddressBook rt.Unknown rt.Timestamp) : Decidable (m.Valid rt) :=
  inferInstanceAs (Decidable (∀ p ∈ m.people, p.Valid rt))

variable {rt}

theorem onward (h : rt.Lawful) : Onward (fields rt) := by
  intro f hf m
  simp only [fields, List.mem_cons, List.not_mem_nil, or_false] at hf
  subst hf
  exact Field.message_forward h _ _ _ _ _ m

theorem foldl_addUnknown {U T : Type} (us : List U) (m : AddressBook U T) :
    us.foldl addUnknown m = { m with unknownFields := m.unknownFields ++ us } :=
  foldl_concat unknownFields (fun m us => { m with unknownFields := us }) (fun _ _ => rfl) (fun _ _ _ => rfl)
    (fun _ => rfl) us m

theorem foldl_addPeople {U T : Type} (ps : List (Person U T)) (m : AddressBook U T) :
    ps.foldl (fun m p => { m with people := m.people ++ [p] }) m = { m with people := m.people ++ ps } :=
  foldl_concat people (fun m ps => { m with people := ps }) (fun _ _ => rfl) (fun _ _ _ => rfl) (fun _ => rfl) ps m

theorem person_size {m : AddressBook rt.Unknown rt.Timestamp} (hsize : (byteSizeLong rt m).1 < 2 ^ 31)
    {p : Person rt.Unknown rt.Timestamp} (hp : p ∈ m.people) : ((Person.ops rt).byteSizeLong p).1 < 2 ^ 31 := by
  have hle := messageSize_mem rt (o := Person.ops rt) hp
  simp only [byteSizeLong] at hsize
  omega

theorem serialize_length (h : rt.Lawful) (m : AddressBook rt.Unknown rt.Timestamp) (hwf : m.WellFormed rt)
    (hsize : (byteSizeLong rt m).1 < 2 ^ 31) :
    (serializeWithCachedSizes rt (byteSizeLong rt m).2).length = (byteSizeLong rt m).1 := by
  have hpeople :
    ((m.people.map fun p => (Person.byteSizeLong rt p).2).flatMap (rt.writeMessage (Person.ops rt) 1)).length =
      1 * m.people.length + (m.people.map (rt.messageSize (Person.ops rt))).sum :=
    messages_length h (Person.lawful h) (by decide) (by decide) hwf.people fun p hp => person_size hsize hp
  simp only [serializeWithCachedSizes, byteSizeLong, List.length_append, hpeople, unknowns_length h]
  omega

/-- Reading what was written is merging, unless a string is not UTF-8. -/
theorem decodes (h : rt.Lawful) (m : AddressBook rt.Unknown rt.Timestamp) (hwf : m.WellFormed rt)
    (hsize : (byteSizeLong rt m).1 < 2 ^ 31) :
    DecodesIf (rt.turn (fields rt) addUnknown) (m.Valid rt) (serializeWithCachedSizes rt (byteSizeLong rt m).2) fun a =>
      a.mergeFrom rt m := by
  have hon := onward h
  have hunknown : rt.computeUnknownFieldsSize m.unknownFields < 2 ^ 31 := by
    simp only [byteSizeLong] at hsize
    omega
  have hpeople : DecodesIf (rt.turn (fields rt) addUnknown) (∀ p ∈ m.people, p.Valid rt)
      ((m.people.map fun p => (Person.byteSizeLong rt p).2).flatMap (rt.writeMessage (Person.ops rt) 1))
      fun a =>
        (m.people.map (Person.mergeFrom rt Person.new)).foldl (fun m p => { m with people := m.people ++ [p] }) a :=
    decodes_messages h hon 10 (by decide) (by decide) (Person.lawful h) rfl hwf.people
      (fun p hp => person_size hsize hp) rfl
  have hrest : DecodesIf (rt.turn (fields rt) addUnknown) True (rt.serializeUnknownFields m.unknownFields)
      fun a => m.unknownFields.foldl addUnknown a := decodes_unknowns h hon hwf.unknown hunknown
  apply (hpeople.append hrest).congr
  · simp [Valid]
  · intro a
    simp only [foldl_addPeople, foldl_addUnknown, mergeFrom]

theorem lawful (h : rt.Lawful) : (ops rt).Lawful (WellFormed rt) (Valid rt) where
  cached _ _ hsize := h.toCachedSize_eq _ hsize
  size m hwf hsize := serialize_length h m hwf hsize
  decodes _ m hwf hsize := (decodes h m hwf hsize).read (turn_nil h)

/-- Books that were written one behind the other are merged into the book that they are read onto, if all the
strings in them are UTF-8, and are not read otherwise. -/
theorem read_concatenated (h : rt.Lawful) (a : AddressBook rt.Unknown rt.Timestamp)
    (ms : List (AddressBook rt.Unknown rt.Timestamp))
    (hms : ∀ m ∈ ms, m.WellFormed rt ∧ (byteSizeLong rt m).1 < 2 ^ 31) :
    mergePartialFromCodedStream rt a (ms.flatMap (ops rt).serializeToString) =
      if ∀ m ∈ ms, m.Valid rt then some (ms.foldl (mergeFrom rt) a, []) else none := by
  have hall : DecodesIf (rt.turn (fields rt) addUnknown) (∀ m ∈ ms, m.Valid rt) (ms.flatMap (ops rt).serializeToString)
      fun a => ms.foldl (mergeFrom rt) a := by
    apply DecodesIf.flatMap
    intro m hm
    exact decodes h m (hms m hm).1 (hms m hm).2
  exact hall.read (turn_nil h)

/-- A book, one that only a later version fills, and one with a number that is not UTF-8. -/
def books : List (AddressBook Wire.wire.Unknown Wire.wire.Timestamp) :=
  [⟨[⟨str "Ann", 7, str "a@b", [⟨str "123", 1, [], 0⟩], some ⟨1700000000, 0, [], 0⟩, [], 0⟩], [], 0⟩,
    ⟨[], [Wire.varintField], 0⟩,
    ⟨[⟨str "Bob", 8, [], [⟨[255], 2, [], 0⟩], none, [], 0⟩], [], 0⟩]

theorem books_wellFormed : ∀ m ∈ books, m.WellFormed Wire.wire ∧ (byteSizeLong Wire.wire m).1 < 2 ^ 31 := by
  intro m hm
  simp only [books, List.mem_cons, List.not_mem_nil, or_false] at hm
  rcases hm with rfl | rfl | rfl
  · refine ⟨⟨fun u hu => absurd hu List.not_mem_nil, ?_⟩, by decide +kernel⟩
    intro p hp
    rw [List.mem_singleton.1 hp]
    refine ⟨fun u hu => absurd hu List.not_mem_nil, ?_, ?_⟩
    · intro q hq
      rw [List.mem_singleton.1 hq]
      exact fun u hu => absurd hu List.not_mem_nil
    · rintro t ⟨⟩
      exact fun u hu => absurd hu List.not_mem_nil
  · refine ⟨⟨?_, fun p hp => absurd hp List.not_mem_nil⟩, by decide +kernel⟩
    intro u hu
    rw [List.mem_singleton.1 hu]
    exact fun _ => rfl
  · refine ⟨⟨fun u hu => absurd hu List.not_mem_nil, ?_⟩, by decide +kernel⟩
    intro p hp
    rw [List.mem_singleton.1 hp]
    refine ⟨fun u hu => absurd hu List.not_mem_nil, ?_, fun t ht => absurd ht (Option.not_mem_none t)⟩
    intro q hq
    rw [List.mem_singleton.1 hq]
    exact fun u hu => absurd hu List.not_mem_nil

/-- The first two are merged; with the third nothing is read. -/
theorem read_concatenated_books :
    mergePartialFromCodedStream Wire.wire new ((books.take 2).flatMap (ops Wire.wire).serializeToString) =
        some ((books.take 2).foldl (mergeFrom Wire.wire) new, []) ∧
      mergePartialFromCodedStream Wire.wire new (books.flatMap (ops Wire.wire).serializeToString) = none := by
  constructor
  · refine (read_concatenated Wire.wire_lawful new (books.take 2) fun m hm => ?_).trans (if_pos (by decide +kernel))
    exact books_wellFormed m (List.mem_of_mem_take hm)
  · exact (read_concatenated Wire.wire_lawful new books books_wellFormed).trans (if_neg (by decide +kernel))

end AddressBook

end LinuxProgram.Protobuf
