/-
`Student.pb.cc`: the messages `Student` and `Stus`. Reading what was written for a message onto another one is
merging the message into it, with the length of every student in front of it as the sizes were cached.
-/
import LinuxProgram.Data.Text
import LinuxProgram.Protobuf.Wire
import Mathlib.Tactic

namespace LinuxProgram.Protobuf

open LinuxProgram.Data LinuxProgram.Machine

/-! ## Numbers of type `double` -/

/-- The bits of a number without the sign. -/
def magnitude (x : UInt64) : Nat := x.toNat % 2 ^ 63

def isNaN (x : UInt64) : Prop := 0x7ff0000000000000 < magnitude x

/-- `x <= 0`. -/
def doubleLeZero (x : UInt64) : Prop := ¬ isNaN x ∧ (2 ^ 63 ≤ x.toNat ∨ magnitude x = 0)

/-- `x >= 0`. -/
def doubleGeZero (x : UInt64) : Prop := ¬ isNaN x ∧ (x.toNat < 2 ^ 63 ∨ magnitude x = 0)

instance (x : UInt64) : Decidable (isNaN x) := inferInstanceAs (Decidable (_ < _))
instance (x : UInt64) : Decidable (doubleLeZero x) := inferInstanceAs (Decidable (_ ∧ _))
instance (x : UInt64) : Decidable (doubleGeZero x) := inferInstanceAs (Decidable (_ ∧ _))

/-- Both zeros, and nothing else. -/
theorem double_zero_iff (x : UInt64) : doubleLeZero x ∧ doubleGeZero x ↔ magnitude x = 0 := by
  unfold doubleLeZero doubleGeZero isNaN
  constructor
  · rintro ⟨⟨-, h1⟩, -, h2⟩
    omega
  · intro h
    omega

/-! ## The messages -/

structure Student (U : Type) where
  id : Int32
  name : Bytes
  /-- The bits of the `double`. -/
  score : UInt64
  unknownFields : List U
  cachedSize : Nat
  deriving DecidableEq

structure Stus (U : Type) where
  stus : List (Student U)
  unknownFields : List U
  cachedSize : Nat
  deriving DecidableEq

namespace Student

variable (rt : Runtime)

def new {U : Type} : Student U := ⟨0, [], 0, [], 0⟩

def addUnknown {U : Type} (m : Student U) (u : U) : Student U := { m with unknownFields := m.unknownFields ++ [u] }

def fields : List (Field (Student rt.Unknown)) :=
  [.scalar rt.int32 1 8 fun m v => { m with id := v },
    .scalar rt.bytes 2 18 fun m v => { m with name := v },
    .scalar rt.double 3 25 fun m v => { m with score := v }]

def mergePartialFromCodedStream (m : Student rt.Unknown) : Reader UInt8 (Student rt.Unknown) :=
  readFields (rt.turn (fields rt) addUnknown) m

def serializeWithCachedSizes (m : Student rt.Unknown) : Bytes :=
  (if m.id ≠ 0 then rt.writeInt32 1 m.id else []) ++
  ((if 0 < m.name.length then rt.writeBytes 2 m.name else []) ++
  ((if ¬ (doubleLeZero m.score ∧ doubleGeZero m.score) then rt.writeDouble 3 m.score else []) ++
  rt.serializeUnknownFields m.unknownFields))

def byteSizeLong (m : Student rt.Unknown) : Nat × Student rt.Unknown :=
  let totalSize := rt.computeUnknownFieldsSize m.unknownFields +
    (if 0 < m.name.length then 1 + rt.bytes.size m.name else 0) +
    (if ¬ (doubleLeZero m.score ∧ doubleGeZero m.score) then 1 + 8 else 0) +
    (if m.id ≠ 0 then 1 + rt.int32.size m.id else 0)
  (totalSize, { m with cachedSize := rt.toCachedSize totalSize })

def mergeFrom {U : Type} (m from' : Student U) : Student U :=
  { m with
    unknownFields := m.unknownFields ++ from'.unknownFields
    name := if 0 < from'.name.length then from'.name else m.name
    score := if ¬ (doubleLeZero from'.score ∧ doubleGeZero from'.score) then from'.score else m.score
    id := if from'.id ≠ 0 then from'.id else m.id }

def ops : MessageOps (Student rt.Unknown) where
  new := new
  mergePartialFromCodedStream := mergePartialFromCodedStream rt
  byteSizeLong := byteSizeLong rt
  getCachedSize := cachedSize
  serializeWithCachedSizes := serializeWithCachedSizes rt
  mergeFrom := mergeFrom

/-- No unknown field has the tag of a field. -/
def WellFormed (m : Student rt.Unknown) : Prop := ∀ u ∈ m.unknownFields, Unhandled (fields rt) (rt.unknownTag u)

variable {rt}

theorem onward (h : rt.Lawful) : Onward (fields rt) := by
  intro f hf m
  simp only [fields, List.mem_cons, List.not_mem_nil, or_false] at hf
  rcases hf with rfl | rfl | rfl
  · exact Field.scalar_forward h.int32.forward _ _ _ m
  · exact Field.scalar_forward h.bytes.forward _ _ _ m
  · exact Field.scalar_forward h.double.forward _ _ _ m

theorem foldl_addUnknown {U : Type} (us : List U) (m : Student U) :
    us.foldl addUnknown m = { m with unknownFields := m.unknownFields ++ us } :=
  foldl_concat unknownFields (fun m us => { m with unknownFields := us }) (fun _ _ => rfl) (fun _ _ _ => rfl)
    (fun _ => rfl) us m

theorem name_length {m : Student rt.Unknown} (h : rt.Lawful) (hsize : (byteSizeLong rt m).1 < 2 ^ 31) :
    m.name.length < 2 ^ 31 := by
  have hle := h.bytes_size m.name
  by_cases hpos : 0 < m.name.length
  · simp only [byteSizeLong, hpos, if_true] at hsize
    omega
  · omega

theorem serialize_length (h : rt.Lawful) (m : Student rt.Unknown) (hsize : (byteSizeLong rt m).1 < 2 ^ 31) :
    (serializeWithCachedSizes rt m).length = (byteSizeLong rt m).1 := by
  have hname := name_length h hsize
  have hid : m.id ≠ 0 → (rt.writeInt32 1 m.id).length = 1 + rt.int32.size m.id := fun _ =>
    scalar_length h (by decide) (by decide) h.int32 trivial
  have hbytes : 0 < m.name.length → (rt.writeBytes 2 m.name).length = 1 + rt.bytes.size m.name := fun _ =>
    scalar_length h (by decide) (by decide) h.bytes hname
  have hscore : ¬ (doubleLeZero m.score ∧ doubleGeZero m.score) →
      (rt.writeDouble 3 m.score).length = 1 + 8 := fun _ => by
    rw [← h.double_size m.score]
    exact scalar_length h (by decide) (by decide) h.double trivial
  simp only [serializeWithCachedSizes, byteSizeLong, List.length_append, length_optional hid, length_optional hbytes,
    length_optional hscore, unknowns_length h]
  omega

/-- Reading what was written is merging. -/
theorem decodes (h : rt.Lawful) (m : Student rt.Unknown) (hwf : m.WellFormed rt)
    (hsize : (byteSizeLong rt m).1 < 2 ^ 31) :
    DecodesIf (rt.turn (fields rt) addUnknown) True (serializeWithCachedSizes rt m) fun a => a.mergeFrom m := by
  have hon := onward h
  have hunknown : rt.computeUnknownFieldsSize m.unknownFields < 2 ^ 31 := by
    simp only [byteSizeLong] at hsize
    omega
  have hid : DecodesIf (rt.turn (fields rt) addUnknown) True (rt.writeInt32 1 m.id) fun a => { a with id := m.id } :=
    decodes_scalar h hon 8 (by decide) (by decide) h.int32 trivial rfl
  have hname : DecodesIf (rt.turn (fields rt) addUnknown) True (rt.writeBytes 2 m.name) fun a =>
      { a with name := m.name } :=
    decodes_scalar h hon 18 (by decide) (by decide) h.bytes (name_length h hsize) rfl
  have hscore : DecodesIf (rt.turn (fields rt) addUnknown) True (rt.writeDouble 3 m.score) fun a =>
      { a with score := m.score } :=
    decodes_scalar h hon 25 (by decide) (by decide) h.double trivial rfl
  have hrest : DecodesIf (rt.turn (fields rt) addUnknown) True (rt.serializeUnknownFields m.unknownFields)
      fun a => m.unknownFields.foldl addUnknown a := decodes_unknowns h hon hwf hunknown
  apply (hid.ite.append (hname.ite.append (hscore.ite.append hrest))).congr
  · simp
  · intro a
    simp only [foldl_addUnknown, mergeFrom]
    split <;> split <;> split <;> rfl

theorem lawful (h : rt.Lawful) : (ops rt).Lawful (WellFormed rt) fun _ => True where
  cached _ _ hsize := h.toCachedSize_eq _ hsize
  size m _ hsize := serialize_length h m hsize
  decodes _ m hwf hsize := (decodes h m hwf hsize).read (turn_nil h)

end Student

namespace Stus

variable (rt : Runtime)

def new {U : Type} : Stus U := ⟨[], [], 0⟩

def addUnknown {U : Type} (m : Stus U) (u : U) : Stus U := { m with unknownFields := m.unknownFields ++ [u] }

/-- `add_stus`, with what is read onto the new student. -/
def fields : List (Field (Stus rt.Unknown)) :=
  [.message rt (Student.ops rt) 4 34 (fun _ => Student.new) fun m s => { m with stus := m.stus ++ [s] }]

def mergePartialFromCodedStream (m : Stus rt.Unknown) : Reader UInt8 (Stus rt.Unknown) :=
  readFields (rt.turn (fields rt) addUnknown) m

def serializeWithCachedSizes (m : Stus rt.Unknown) : Bytes :=
  m.stus.flatMap (rt.writeMessage (Student.ops rt) 4) ++ rt.serializeUnknownFields m.unknownFields

def byteSizeLong (m : Stus rt.Unknown) : Nat × Stus rt.Unknown :=
  let totalSize := rt.computeUnknownFieldsSize m.unknownFields +
    (1 * m.stus.length + (m.stus.map (rt.messageSize (Student.ops rt))).sum)
  (totalSize,
    { m with stus := m.stus.map fun s => (Student.byteSizeLong rt s).2, cachedSize := rt.toCachedSize totalSize })

def mergeFrom {U : Type} (m from' : Stus U) : Stus U :=
  { m with
    unknownFields := m.unknownFields ++ from'.unknownFields
    stus := m.stus ++ from'.stus.map Student.new.mergeFrom }

def ops : MessageOps (Stus rt.Unknown) where
  new := new
  mergePartialFromCodedStream := mergePartialFromCodedStream rt
  byteSizeLong := byteSizeLong rt
  getCachedSize := cachedSize
  serializeWithCachedSizes := serializeWithCachedSizes rt
  mergeFrom := mergeFrom

structure WellFormed (m : Stus rt.Unknown) : Prop where
  unknown : ∀ u ∈ m.unknownFields, Unhandled (fields rt) (rt.unknownTag u)
  students : ∀ s ∈ m.stus, s.WellFormed rt

variable {rt}

theorem onward (h : rt.Lawful) : Onward (fields rt) := by
  intro f hf m
  simp only [fields, List.mem_cons, List.not_mem_nil, or_false] at hf
  subst hf
  exact Field.message_forward h _ _ _ _ _ m

theorem foldl_addUnknown {U : Type} (us : List U) (m : Stus U) :
    us.foldl addUnknown m = { m with unknownFields := m.unknownFields ++ us } :=
  foldl_concat unknownFields (fun m us => { m with unknownFields := us }) (fun _ _ => rfl) (fun _ _ _ => rfl)
    (fun _ => rfl) us m

theorem foldl_addStus {U : Type} (ss : List (Student U)) (m : Stus U) :
    ss.foldl (fun m s => { m with stus := m.stus ++ [s] }) m = { m with stus := m.stus ++ ss } :=
  foldl_concat stus (fun m ss => { m with stus := ss }) (fun _ _ => rfl) (fun _ _ _ => rfl) (fun _ => rfl) ss m

theorem student_size {m : Stus rt.Unknown} (hsize : (byteSizeLong rt m).1 < 2 ^ 31) {s : Student rt.Unknown}
    (hs : s ∈ m.stus) : ((Student.ops rt).byteSizeLong s).1 < 2 ^ 31 := by
  have hle := messageSize_mem rt (o := Student.ops rt) hs
  simp only [byteSizeLong] at hsize
  omega

theorem serialize_length (h : rt.Lawful) (m : Stus rt.Unknown) (hwf : m.WellFormed rt)
    (hsize : (byteSizeLong rt m).1 < 2 ^ 31) :
    (serializeWithCachedSizes rt (byteSizeLong rt m).2).length = (byteSizeLong rt m).1 := by
  have hstus :
    ((m.stus.map fun s => (Student.byteSizeLong rt s).2).flatMap (rt.writeMessage (Student.ops rt) 4)).length =
      1 * m.stus.length + (m.stus.map (rt.messageSize (Student.ops rt))).sum :=
    messages_length h (Student.lawful h) (by decide) (by decide) hwf.students fun s hs => student_size hsize hs
  simp only [serializeWithCachedSizes, byteSizeLong, List.length_append, hstus, unknowns_length h]
  omega

/-- Reading what was written is merging. -/
theorem decodes (h : rt.Lawful) (m : Stus rt.Unknown) (hwf : m.WellFormed rt) (hsize : (byteSizeLong rt m).1 < 2 ^ 31) :
    DecodesIf (rt.turn (fields rt) addUnknown) True (serializeWithCachedSizes rt (byteSizeLong rt m).2) fun a =>
      a.mergeFrom m := by
  have hon := onward h
  have hunknown : rt.computeUnknownFieldsSize m.unknownFields < 2 ^ 31 := by
    simp only [byteSizeLong] at hsize
    omega
  have hstus : DecodesIf (rt.turn (fields rt) addUnknown) (∀ s ∈ m.stus, True)
      ((m.stus.map fun s => (Student.byteSizeLong rt s).2).flatMap (rt.writeMessage (Student.ops rt) 4))
      fun a => (m.stus.map Student.new.mergeFrom).foldl (fun m s => { m with stus := m.stus ++ [s] }) a :=
    decodes_messages h hon 34 (by decide) (by decide) (Student.lawful h) rfl hwf.students
      (fun s hs => student_size hsize hs) rfl
  have hrest : DecodesIf (rt.turn (fields rt) addUnknown) True (rt.serializeUnknownFields m.unknownFields)
      fun a => m.unknownFields.foldl addUnknown a := decodes_unknowns h hon hwf.unknown hunknown
  apply (hstus.append hrest).congr
  · simp
  · intro a
    simp only [foldl_addStus, foldl_addUnknown, mergeFrom]

/-- Messages that were written one behind the other are merged, one after the other, into the message that they
are read onto; each takes as many bytes as its size says. -/
theorem merge_concatenated (h : rt.Lawful) (a : Stus rt.Unknown) (ms : List (Stus rt.Unknown))
    (hms : ∀ m ∈ ms, m.WellFormed rt ∧ (byteSizeLong rt m).1 < 2 ^ 31) :
    mergePartialFromCodedStream rt a (ms.flatMap (ops rt).serializeToString) = some (ms.foldl mergeFrom a, []) ∧
      (ms.flatMap (ops rt).serializeToString).length = (ms.map fun m => (byteSizeLong rt m).1).sum := by
  constructor
  · have hall : DecodesIf (rt.turn (fields rt) addUnknown) (∀ m ∈ ms, True) (ms.flatMap (ops rt).serializeToString)
        fun a => ms.foldl mergeFrom a := by
      apply DecodesIf.flatMap
      intro m hm
      exact decodes h m (hms m hm).1 (hms m hm).2
    exact (hall.read (turn_nil h)).trans (if_pos fun _ _ => trivial)
  · rw [List.length_flatMap]
    congr 1
    exact List.map_congr_left fun m hm => serialize_length h m (hms m hm).1 (hms m hm).2

/-- Two classes, with a score that is no number and a field that only a later version knows. -/
def classes : List (Stus Wire.wire.Unknown) :=
  [⟨[⟨-1, str "jack", 0x7ff8000000000000, [], 0⟩, ⟨2, str "marry", 0, [], 0⟩], [], 0⟩,
    ⟨[], [Wire.varintField], 0⟩]

theorem merge_concatenated_classes :
    mergePartialFromCodedStream Wire.wire new (classes.flatMap (ops Wire.wire).serializeToString) =
        some (classes.foldl mergeFrom new, []) ∧
      (classes.flatMap (ops Wire.wire).serializeToString).length =
        (classes.map fun m => (byteSizeLong Wire.wire m).1).sum := by
  refine merge_concatenated Wire.wire_lawful new classes ?_
  intro m hm
  simp only [classes, List.mem_cons, List.not_mem_nil, or_false] at hm
  rcases hm with rfl | rfl
  · refine ⟨⟨fun u hu => absurd hu List.not_mem_nil, ?_⟩, by decide⟩
    intro s hs
    simp only [List.mem_cons, List.not_mem_nil, or_false] at hs
    rcases hs with rfl | rfl
    · exact fun u hu => absurd hu List.not_mem_nil
    · exact fun u hu => absurd hu List.not_mem_nil
  · refine ⟨⟨?_, fun s hs => absurd hs List.not_mem_nil⟩, by decide⟩
    intro u hu
    rw [List.mem_singleton.1 hu]
    exact fun _ => rfl

end Stus

end LinuxProgram.Protobuf
