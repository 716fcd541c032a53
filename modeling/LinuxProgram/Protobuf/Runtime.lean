/-
What the generated message classes take from the protobuf runtime, which is not part of the repository: the
calls on the coded streams and the class of `google.protobuf.Timestamp`. `Lawful` is the documented wire
format, as far as the generated code relies on it.
-/
import LinuxProgram.Data.Fields

namespace LinuxProgram.Protobuf

open LinuxProgram.Data LinuxProgram.Machine

abbrev Bytes := List UInt8

/-! ## Message classes -/

/-- The operations of a message class. -/
structure MessageOps (M : Type) where
  new : M
  mergePartialFromCodedStream : M → Reader UInt8 M
  /-- The size, and the message with the sizes cached in it and in the messages inside it. -/
  byteSizeLong : M → Nat × M
  getCachedSize : M → Nat
  serializeWithCachedSizes : M → Bytes
  mergeFrom : M → M → M

namespace MessageOps

variable {M : Type}

/-- `SerializeToString`: the sizes first, then the bytes. -/
def serializeToString (o : MessageOps M) (m : M) : Bytes := o.serializeWithCachedSizes (o.byteSizeLong m).2

/-- The message is one that can be written, and one copy of it is as good as another. -/
def Settled (o : MessageOps M) (wf valid : M → Prop) (m : M) : Prop := wf m ∧ valid m ∧ o.mergeFrom o.new m = m

/-- What is written has the size that was computed. Reading it onto a message merges the message that was
written into it, and fails when that message is not valid; what has been read is settled. -/
structure Lawful (o : MessageOps M) (wf valid : M → Prop) [DecidablePred valid] : Prop where
  cached : ∀ m, wf m → (o.byteSizeLong m).1 < 2 ^ 31 → o.getCachedSize (o.byteSizeLong m).2 = (o.byteSizeLong m).1
  size : ∀ m, wf m → (o.byteSizeLong m).1 < 2 ^ 31 → (o.serializeToString m).length = (o.byteSizeLong m).1
  decodes : ∀ a m, wf m → (o.byteSizeLong m).1 < 2 ^ 31 →
    o.mergePartialFromCodedStream a (o.serializeToString m) = if valid m then some (o.mergeFrom a m, []) else none

/-- Reading onto a settled message leaves a settled message. -/
structure Settles (o : MessageOps M) (wf valid : M → Prop) : Prop where
  new : o.Settled wf valid o.new
  read : ∀ a s m t, o.Settled wf valid a → o.mergePartialFromCodedStream a s = some (m, t) → o.Settled wf valid m

variable {o : MessageOps M} {wf valid : M → Prop} [DecidablePred valid]

/-- Written back, a message that has been read is read as the same message. -/
theorem Lawful.reread (h : o.Lawful wf valid) (hs : o.Settles wf valid) {s t : Bytes} {m : M}
    (hread : o.mergePartialFromCodedStream o.new s = some (m, t)) (hsize : (o.byteSizeLong m).1 < 2 ^ 31) :
    o.mergePartialFromCodedStream o.new (o.serializeToString m) = some (m, []) := by
  obtain ⟨hwf, hvalid, hcopy⟩ := hs.read _ _ _ _ hs.new hread
  rw [h.decodes _ _ hwf hsize, if_pos hvalid, hcopy]

end MessageOps

/-! ## The runtime -/

structure Runtime where
  /-- A field of `_internal_metadata_.unknown_fields()`. -/
  Unknown : Type
  Timestamp : Type
  /-- `ReadTagWithCutoffNoLastTag`: the tag, and whether it is one up to the cutoff. -/
  readTag : Nat → Bytes → (Nat × Bool) × Bytes
  writeTag : Nat → Bytes
  /-- `SkipField`: the field that is added to the unknown ones. -/
  skipField : Nat → Reader UInt8 Unknown
  unknownTag : Unknown → Nat
  /-- What follows the tag of an unknown field. -/
  unknownBody : Unknown → Bytes
  unknownSize : Unknown → Nat
  int32 : Codec UInt8 Int32
  enum : Codec UInt8 Int32
  /-- On the bits of the number. -/
  double : Codec UInt8 UInt64
  /-- `ReadBytes` and `ReadString`. -/
  bytes : Codec UInt8 Bytes
  writeLength : Nat → Bytes
  lengthSize : Nat → Nat
  toCachedSize : Nat → Nat
  readMessage : {M : Type} → Reader UInt8 M → Reader UInt8 M
  verifyUtf8String : Bytes → Bool
  timestamp : MessageOps Timestamp
  /-- The timestamps that reading, merging and `SecondsToTimestamp` make. -/
  TimestampOk : Timestamp → Prop
  secondsToTimestamp : Int → Timestamp

namespace Runtime

/-- `MakeTag`. -/
def makeTag (field wireType : Nat) : Nat := field <<< 3 ||| wireType

def wiretypeVarint : Nat := 0
def wiretypeFixed64 : Nat := 1
def wiretypeLengthDelimited : Nat := 2

structure Lawful (rt : Runtime) : Prop where
  readTag_writeTag : ∀ cutoff t rest, 0 < t → t < 2 ^ 32 →
    rt.readTag cutoff (rt.writeTag t ++ rest) = ((t, decide (t ≤ cutoff)), rest)
  readTag_nil : ∀ cutoff, rt.readTag cutoff [] = ((0, false), [])
  readTag_known : ∀ {cutoff s t k s'}, rt.readTag cutoff s = ((t, k), s') → (k = true ↔ 0 < t ∧ t ≤ cutoff)
  readTag_shortens : ∀ {cutoff s t k s'}, rt.readTag cutoff s = ((t, k), s') → t ≠ 0 → s'.length < s.length
  writeTag_length : ∀ t, 0 < t → t ≤ 127 → (rt.writeTag t).length = 1
  skipField_takes : ∀ u, (rt.unknownBody u).length < 2 ^ 31 →
    (rt.skipField (rt.unknownTag u)).Takes (rt.unknownBody u) u
  skipField_tag : ∀ {t s u s'}, rt.skipField t s = some (u, s') → rt.unknownTag u = t
  skipField_forward : ∀ t, (rt.skipField t).Forward
  unknownTag_pos : ∀ u, 0 < rt.unknownTag u
  unknownTag_lt : ∀ u, rt.unknownTag u < 2 ^ 32
  unknownSize_eq : ∀ u, rt.unknownSize u = (rt.writeTag (rt.unknownTag u) ++ rt.unknownBody u).length
  int32 : rt.int32.LawfulOn fun _ => True
  enum : rt.enum.LawfulOn fun _ => True
  double : rt.double.LawfulOn fun _ => True
  double_size : ∀ x, rt.double.size x = 8
  bytes : rt.bytes.LawfulOn fun b => b.length < 2 ^ 31
  bytes_size : ∀ b, b.length ≤ rt.bytes.size b
  lengthSize_eq : ∀ n, n < 2 ^ 31 → rt.lengthSize n = (rt.writeLength n).length
  toCachedSize_eq : ∀ n, n < 2 ^ 31 → rt.toCachedSize n = n
  readMessage_takes : ∀ {M : Type} (p : Reader UInt8 M) (w : Bytes) (m : M), w.length < 2 ^ 31 → p w = some (m, []) →
    (rt.readMessage p).Takes (rt.writeLength w.length ++ w) m
  readMessage_refuses : ∀ {M : Type} (p : Reader UInt8 M) (w : Bytes), w.length < 2 ^ 31 → p w = none →
    (rt.readMessage p).Refuses (rt.writeLength w.length ++ w)
  readMessage_inside : ∀ {M : Type} (p : Reader UInt8 M) (s s' : Bytes) (m : M), rt.readMessage p s = some (m, s') →
    ∃ w, p w = some (m, [])
  readMessage_forward : ∀ {M : Type} (p : Reader UInt8 M), (rt.readMessage p).Forward
  timestamp : rt.timestamp.Lawful rt.TimestampOk fun _ => True
  timestamp_settles : rt.timestamp.Settles rt.TimestampOk fun _ => True
  secondsToTimestamp_settled : ∀ n, rt.timestamp.Settled rt.TimestampOk (fun _ => True) (rt.secondsToTimestamp n)

variable (rt : Runtime)

/-! ## Fields written -/

def writeInt32 (field : Nat) (v : Int32) : Bytes := rt.writeTag (makeTag field wiretypeVarint) ++ rt.int32.write v

def writeEnum (field : Nat) (v : Int32) : Bytes := rt.writeTag (makeTag field wiretypeVarint) ++ rt.enum.write v

def writeDouble (field : Nat) (v : UInt64) : Bytes := rt.writeTag (makeTag field wiretypeFixed64) ++ rt.double.write v

/-- `WriteBytesMaybeAliased` and `WriteStringMaybeAliased`. -/
def writeBytes (field : Nat) (v : Bytes) : Bytes :=
  rt.writeTag (makeTag field wiretypeLengthDelimited) ++ rt.bytes.write v

/-- `WriteMessageMaybeToArray`: the length is the size that is cached in the message. -/
def writeMessage {M : Type} (o : MessageOps M) (field : Nat) (m : M) : Bytes :=
  rt.writeTag (makeTag field wiretypeLengthDelimited) ++
    (rt.writeLength (o.getCachedSize m) ++ o.serializeWithCachedSizes m)

def serializeUnknownFields (us : List rt.Unknown) : Bytes :=
  us.flatMap fun u => rt.writeTag (rt.unknownTag u) ++ rt.unknownBody u

def computeUnknownFieldsSize (us : List rt.Unknown) : Nat := (us.map rt.unknownSize).sum

/-- `MessageSize`, which computes and caches the sizes of the message. -/
def messageSize {M : Type} (o : MessageOps M) (m : M) : Nat :=
  rt.lengthSize (o.byteSizeLong m).1 + (o.byteSizeLong m).1

end Runtime

/-! ## Fields read -/

/-- A case of the `switch` on the field number: the tag that it asks for, and what it reads. -/
structure Field (M : Type) where
  number : Nat
  tag : Nat
  read : M → Reader UInt8 M

namespace Field

variable {M X α : Type}

/-- `GetTagFieldNumber` is the number of the case, and the low byte is the tag. -/
def handles (f : Field M) (tag : Nat) : Bool := f.number == tag >>> 3 && tag % 256 == f.tag

/-- A field that one value is read for. -/
def scalar (c : Codec UInt8 α) (number tag : Nat) (set : M → α → M) : Field M where
  number := number
  tag := tag
  read m s := (c.read s).map fun x => (set m x.1, x.2)

/-- A string, which is verified after it has been read. -/
def string (rt : Runtime) (number tag : Nat) (set : M → Bytes → M) : Field M where
  number := number
  tag := tag
  read m s := (rt.bytes.read s).bind fun x => if rt.verifyUtf8String x.1 then some (set m x.1, x.2) else none

/-- A message, which is read onto `sub m`. -/
def message (rt : Runtime) (o : MessageOps X) (number tag : Nat) (sub : M → X) (set : M → X → M) : Field M where
  number := number
  tag := tag
  read m s := (rt.readMessage (o.mergePartialFromCodedStream (sub m)) s).map fun x => (set m x.1, x.2)

end Field

/-- A turn of `MergePartialFromCodedStream`. -/
def Runtime.turn (rt : Runtime) {M : Type} (fields : List (Field M)) (addUnknown : M → rt.Unknown → M) :
    FieldTurn UInt8 M :=
  fun (m, input) =>
    let ((tag, known), rest) := rt.readTag 127 input
    match if known then fields.find? (·.handles tag) else none with
    | some f =>
      match f.read m rest with
      | some r => .next r
      | none => .done none
    | none =>
      -- handle_unusual; a message that ends where its stream does leaves nothing
      if tag = 0 then .done (some (m, input))
      else
        match rt.skipField tag rest with
        | some (u, rest) => .next (addUnknown m u, rest)
        | none => .done none

end LinuxProgram.Protobuf
