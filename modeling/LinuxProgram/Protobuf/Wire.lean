/-
The wire format: a runtime that reads and writes what is documented, but for groups, which it refuses. The laws
hold in it, so what was proved from them is about something.
-/
import LinuxProgram.Data.Varint
import LinuxProgram.Data.Word
import LinuxProgram.Protobuf.Reading
import Mathlib.Tactic

namespace LinuxProgram.Protobuf.Wire

open LinuxProgram.Data LinuxProgram.Machine

/-! ## Values -/

/-- A signed number, extended to 64 bits. -/
def signed (n : Int) : Bytes := varint 9 (n % 2 ^ 64).toNat

def int32 : Codec UInt8 Int32 where
  write v := signed v.toInt
  size v := (signed v.toInt).length
  read s := (readVarint 9 s).map fun x => (Int32.ofInt x.1, x.2)

def int64 : Codec UInt8 Int64 where
  write v := signed v.toInt
  size v := (signed v.toInt).length
  read s := (readVarint 9 s).map fun x => (Int64.ofInt x.1, x.2)

def double : Codec UInt8 UInt64 where
  write v := (bigEndian 8 v.toNat).reverse
  size _ := 8
  read s := (Reader.block 8 s).map fun x => (UInt64.ofNat (ofBigEndian x.1.reverse), x.2)

def bytes : Codec UInt8 Bytes where
  write b := varint 9 b.length ++ b
  size b := (varint 9 b.length).length + b.length
  read s := (readVarint 9 s).bind fun x => Reader.block x.1 x.2

theorem signed_takes (n : Int) : (readVarint 9).Takes (signed n) (n % 2 ^ 64).toNat :=
  readVarint_takes (by omega)

theorem int32_lawful : int32.LawfulOn fun _ => True where
  size _ _ := rfl
  takes v _ rest := by
    have hv := v.toInt_lt
    have hv' := v.le_toInt
    have hback : Int32.ofInt ((v.toInt % 2 ^ 64).toNat : Int) = v := by
      rw [← Int32.toInt_inj, Int32.toInt_ofInt, Int32.size, Int.toNat_of_nonneg (Int.emod_nonneg _ (by decide)),
        Int.bmod_def]
      split <;> omega
    show (readVarint 9 (signed v.toInt ++ rest)).map _ = _
    rw [signed_takes, Option.map_some, hback]
  forward := (readVarint_stable 9).forward.map fun n => Int32.ofInt n

theorem int64_lawful : int64.LawfulOn fun _ => True where
  size _ _ := rfl
  takes v _ rest := by
    have hv := v.toInt_lt
    have hv' := v.le_toInt
    have hback : Int64.ofInt ((v.toInt % 2 ^ 64).toNat : Int) = v := by
      rw [← Int64.toInt_inj, Int64.toInt_ofInt, Int64.size, Int.toNat_of_nonneg (Int.emod_nonneg _ (by decide)),
        Int.bmod_def]
      split <;> omega
    show (readVarint 9 (signed v.toInt ++ rest)).map _ = _
    rw [signed_takes, Option.map_some, hback]
  forward := (readVarint_stable 9).forward.map fun n => Int64.ofInt n

theorem double_lawful : double.LawfulOn fun _ => True where
  size v _ := by simp [double]
  takes v _ rest := by
    have hlt := v.toNat_lt
    have hlen : (bigEndian 8 v.toNat).reverse.length = 8 := by simp
    simp only [double]
    rw [Reader.block_takes hlen, Option.map_some, List.reverse_reverse, ofBigEndian_bigEndian,
      Nat.mod_eq_of_lt (by omega), UInt64.ofNat_toNat]
  forward := (Reader.block_stable 8).forward.map fun b => UInt64.ofNat (ofBigEndian b.reverse)

theorem bytes_stable : bytes.read.Stable := (readVarint_stable 9).bind fun n => Reader.block_stable n

theorem bytes_lawful : bytes.LawfulOn fun b => b.length < 2 ^ 31 where
  size b _ := (List.length_append ..).symm
  takes b hb rest := by
    show (readVarint 9 ((varint 9 b.length ++ b) ++ rest)).bind _ = _
    rw [List.append_assoc, readVarint_takes (by omega), Option.bind_some]
    exact Reader.block_takes rfl rest
  forward := bytes_stable.forward

/-! ## Unknown fields -/

/-- What a field of the tag's wire type holds; no groups. -/
def content (tag : Nat) : Reader UInt8 Unit := fun s =>
  match tag % 8 with
  | 0 => (readVarint 9 s).map fun x => ((), x.2)
  | 1 => (Reader.block 8 s).map fun x => ((), x.2)
  | 2 => (bytes.read s).map fun x => ((), x.2)
  | 5 => (Reader.block 4 s).map fun x => ((), x.2)
  | _ => none

theorem content_stable (tag : Nat) : (content tag).Stable := by
  unfold content
  split
  · exact (readVarint_stable 9).map fun _ => ()
  · exact (Reader.block_stable 8).map fun _ => ()
  · exact bytes_stable.map fun _ => ()
  · exact (Reader.block_stable 4).map fun _ => ()
  · exact fun s a t h => by cases h

/-- A tag and what is behind it. -/
structure Unknown where
  tag : Nat
  bytes : Bytes
  tag_pos : 0 < tag
  tag_lt : tag < 2 ^ 32
  takes : (content tag).raw.Takes bytes bytes

def skipField (tag : Nat) : Reader UInt8 Unknown := fun s =>
  if h : 0 < tag ∧ tag < 2 ^ 32 then
    match hs : (content tag).raw s with
    | some (w, t) => some (⟨tag, w, h.1, h.2, ((content_stable tag).raw hs).2⟩, t)
    | none => none
  else none

theorem skipField_eq {tag : Nat} {s t : Bytes} {u : Unknown} (h : skipField tag s = some (u, t)) :
    u.tag = tag ∧ (content tag).raw s = some (u.bytes, t) := by
  unfold skipField at h
  split at h
  · split at h
    · rename_i hs
      cases h
      exact ⟨rfl, hs⟩
    · cases h
  · cases h

theorem skipField_takes (u : Unknown) : (skipField u.tag).Takes u.bytes u := by
  intro rest
  have hu := u.takes rest
  unfold skipField
  rw [dif_pos ⟨u.tag_pos, u.tag_lt⟩]
  split
  · rename_i hs
    rw [hu] at hs
    cases hs
    rfl
  · rename_i hs
    rw [hu] at hs
    cases hs

/-- A varint in field 5. -/
def varintField : Unknown := ⟨40, [7], by decide, by decide, Reader.Takes.raw fun _ => rfl⟩

/-! ## Strings -/

def continues (b : UInt8) : Bool := 128 ≤ b && b < 192

/-- No overlong forms, no surrogates, nothing beyond U+10FFFF. -/
def utf8 : Bytes → Bool
  | [] => true
  | a :: s =>
    if a < 128 then utf8 s
    else
      match s with
      | [] => false
      | b :: s =>
        if 194 ≤ a && a < 224 then continues b && utf8 s
        else
          match s with
          | [] => false
          | c :: s =>
            if a = 224 then 160 ≤ b && continues b && continues c && utf8 s
            else if a = 237 then b < 160 && continues b && continues c && utf8 s
            else if 224 < a && a < 240 then continues b && continues c && utf8 s
            else
              match s with
              | [] => false
              | d :: s =>
                (if a = 240 then 144 ≤ b && continues b
                  else if a = 244 then b < 144 && continues b
                  else 240 < a && a < 244 && continues b) && continues c && continues d && utf8 s

/-! ## The runtime -/

def readTag (cutoff : Nat) (s : Bytes) : (Nat × Bool) × Bytes :=
  match readVarint 9 s with
  | some (t, rest) => if 0 < t ∧ t < 2 ^ 32 then ((t, decide (t ≤ cutoff)), rest) else ((0, false), rest)
  | none => ((0, false), s)

def readMessage {M : Type} (p : Reader UInt8 M) : Reader UInt8 M := fun s =>
  (bytes.read s).bind fun x =>
    match p x.1 with
    | some (m, []) => some (m, x.2)
    | _ => none

/-- The format with a class for the timestamps. -/
def runtime {T : Type} (timestamp : MessageOps T) (ok : T → Prop) (secondsToTimestamp : Int → T) : Runtime where
  Unknown := Unknown
  Timestamp := T
  readTag := readTag
  writeTag := varint 9
  skipField := skipField
  unknownTag := Unknown.tag
  unknownBody := Unknown.bytes
  unknownSize u := (varint 9 u.tag).length + u.bytes.length
  int32 := int32
  enum := int32
  double := double
  bytes := bytes
  writeLength := varint 9
  lengthSize n := (varint 9 n).length
  toCachedSize n := n
  readMessage := readMessage
  verifyUtf8String := utf8
  timestamp := timestamp
  TimestampOk := ok
  secondsToTimestamp := secondsToTimestamp

section

variable {T : Type} {timestamp : MessageOps T} {ok : T → Prop} {secondsToTimestamp : Int → T}

theorem readMessage_eq {M : Type} {p : Reader UInt8 M} {s t : Bytes} {m : M} (h : readMessage p s = some (m, t)) :
    ∃ w, p w = some (m, []) ∧ bytes.read s = some (w, t) := by
  obtain ⟨⟨w, u⟩, hw, hm⟩ := Option.bind_eq_some_iff.1 h
  dsimp only at hm
  split at hm
  · rename_i hp
    cases hm
    exact ⟨w, hp, hw⟩
  · cases hm

theorem lawful (h : timestamp.Lawful ok fun _ => True) (hs : timestamp.Settles ok fun _ => True)
    (hok : ∀ n, timestamp.Settled ok (fun _ => True) (secondsToTimestamp n)) :
    (runtime timestamp ok secondsToTimestamp).Lawful where
  readTag_writeTag cutoff t rest hpos hlt := by
    show readTag cutoff (varint 9 t ++ rest) = _
    rw [readTag, readVarint_takes (by omega)]
    exact if_pos ⟨hpos, hlt⟩
  readTag_nil _ := rfl
  readTag_known {cutoff s t k s'} hread := by
    change readTag cutoff s = _ at hread
    unfold readTag at hread
    split at hread
    · split at hread
      · rename_i hpos
        cases hread
        simp [hpos.1]
      · cases hread
        simp
    · cases hread
      simp
  readTag_shortens {cutoff s t k s'} hread h0 := by
    change readTag cutoff s = _ at hread
    unfold readTag at hread
    split at hread
    · rename_i hv
      split at hread
      · cases hread
        exact readVarint_shortens hv
      · cases hread
        exact absurd rfl h0
    · cases hread
      exact absurd rfl h0
  writeTag_length t _ hle := by
    show (varint 9 t).length = 1
    rw [varint_lt 9 (by omega)]
    rfl
  skipField_takes u _ := skipField_takes u
  skipField_tag hskip := (skipField_eq hskip).1
  skipField_forward t s u s' hskip := by
    obtain ⟨rfl, -⟩ := (content_stable t).raw (skipField_eq hskip).2
    rw [List.length_append]
    exact Nat.le_add_left _ _
  unknownTag_pos u := u.tag_pos
  unknownTag_lt u := u.tag_lt
  unknownSize_eq u := (List.length_append ..).symm
  int32 := int32_lawful
  enum := int32_lawful
  double := double_lawful
  double_size _ := rfl
  bytes := bytes_lawful
  bytes_size _ := Nat.le_add_left _ _
  lengthSize_eq _ _ := rfl
  toCachedSize_eq _ _ := rfl
  readMessage_takes p w m hw hp rest := by
    show readMessage p ((varint 9 w.length ++ w) ++ rest) = _
    have htakes : bytes.read ((varint 9 w.length ++ w) ++ rest) = some (w, rest) := bytes_lawful.takes w hw rest
    rw [readMessage, htakes, Option.bind_some]
    dsimp only
    rw [hp]
  readMessage_refuses p w hw hp rest := by
    show readMessage p ((varint 9 w.length ++ w) ++ rest) = _
    have htakes : bytes.read ((varint 9 w.length ++ w) ++ rest) = some (w, rest) := bytes_lawful.takes w hw rest
    rw [readMessage, htakes, Option.bind_some]
    dsimp only
    rw [hp]
  readMessage_inside p s s' m hread := by
    obtain ⟨w, hw, -⟩ := readMessage_eq hread
    exact ⟨w, hw⟩
  readMessage_forward p s m s' hread := by
    obtain ⟨w, -, hw⟩ := readMessage_eq hread
    exact bytes_stable.forward _ _ _ hw
  timestamp := h
  timestamp_settles := hs
  secondsToTimestamp_settled := hok

end

/-! ## Timestamps -/

/-- `google.protobuf.Timestamp`: the fields are an `int64` and an `int32`. -/
structure Timestamp where
  seconds : Int64
  nanos : Int32
  unknownFields : List Unknown
  cachedSize : Nat

/-- A class without fields, for the runtime in which the timestamps are read. -/
def noFields : MessageOps Unit where
  new := ()
  mergePartialFromCodedStream _ s := if s = [] then some ((), []) else none
  byteSizeLong _ := (0, ())
  getCachedSize _ := 0
  serializeWithCachedSizes _ := []
  mergeFrom _ _ := ()

def base : Runtime := runtime noFields (fun _ => True) fun _ => ()

theorem base_lawful : base.Lawful := by
  apply lawful
  · constructor
    · exact fun _ _ _ => rfl
    · exact fun _ _ _ => rfl
    · exact fun _ _ _ _ => rfl
  · constructor
    · exact ⟨trivial, trivial, rfl⟩
    · exact fun _ _ _ _ _ _ => ⟨trivial, trivial, rfl⟩
  · exact fun _ => ⟨trivial, trivial, rfl⟩

namespace Timestamp

def new : Timestamp := ⟨0, 0, [], 0⟩

def addUnknown (m : Timestamp) (u : Unknown) : Timestamp := { m with unknownFields := m.unknownFields ++ [u] }

def fields : List (Field Timestamp) :=
  [.scalar int64 1 8 fun m v => { m with seconds := v },
    .scalar int32 2 16 fun m v => { m with nanos := v }]

def turn : FieldTurn UInt8 Timestamp := base.turn fields addUnknown

def serializeWithCachedSizes (m : Timestamp) : Bytes :=
  (if m.seconds ≠ 0 then base.writeTag 8 ++ int64.write m.seconds else []) ++
  ((if m.nanos ≠ 0 then base.writeTag 16 ++ int32.write m.nanos else []) ++
  base.serializeUnknownFields m.unknownFields)

def byteSizeLong (m : Timestamp) : Nat × Timestamp :=
  let totalSize :=
    base.computeUnknownFieldsSize m.unknownFields + (if m.seconds ≠ 0 then 1 + int64.size m.seconds else 0) +
    (if m.nanos ≠ 0 then 1 + int32.size m.nanos else 0)
  (totalSize, { m with cachedSize := totalSize })

def mergeFrom (m from' : Timestamp) : Timestamp :=
  { m with
    unknownFields := m.unknownFields ++ from'.unknownFields
    seconds := if from'.seconds ≠ 0 then from'.seconds else m.seconds
    nanos := if from'.nanos ≠ 0 then from'.nanos else m.nanos }

def ops : MessageOps Timestamp where
  new := new
  mergePartialFromCodedStream := readFields turn
  byteSizeLong := byteSizeLong
  getCachedSize := cachedSize
  serializeWithCachedSizes := serializeWithCachedSizes
  mergeFrom := mergeFrom

def WellFormed (m : Timestamp) : Prop := ∀ u ∈ m.unknownFields, Unhandled fields u.tag

def ofSeconds (n : Int) : Timestamp := { new with seconds := Int64.ofInt n }

theorem onward : Onward fields := by
  intro f hf m
  simp only [fields, List.mem_cons, List.not_mem_nil, or_false] at hf
  rcases hf with rfl | rfl
  · exact Field.scalar_forward int64_lawful.forward _ _ _ m
  · exact Field.scalar_forward int32_lawful.forward _ _ _ m

theorem foldl_addUnknown (us : List Unknown) (m : Timestamp) :
    us.foldl addUnknown m = { m with unknownFields := m.unknownFields ++ us } :=
  foldl_concat unknownFields (fun m us => { m with unknownFields := us }) (fun _ _ => rfl) (fun _ _ _ => rfl)
    (fun _ => rfl) us m

theorem serialize_length (m : Timestamp) : (serializeWithCachedSizes m).length = (byteSizeLong m).1 := by
  have hseconds : m.seconds ≠ 0 →
      (base.writeTag 8 ++ int64.write m.seconds).length = 1 + int64.size m.seconds := fun _ =>
    scalar_length base_lawful (by decide) (by decide) int64_lawful trivial
  have hnanos : m.nanos ≠ 0 → (base.writeTag 16 ++ int32.write m.nanos).length = 1 + int32.size m.nanos := fun _ =>
    scalar_length base_lawful (by decide) (by decide) int32_lawful trivial
  have hunknown := unknowns_length base_lawful m.unknownFields
  simp only [serializeWithCachedSizes, byteSizeLong, List.length_append, length_optional hseconds,
    length_optional hnanos]
  omega

theorem decodes (m : Timestamp) (hwf : m.WellFormed) (hsize : (byteSizeLong m).1 < 2 ^ 31) :
    DecodesIf turn True (serializeWithCachedSizes m) fun a => a.mergeFrom m := by
  have hunknown : base.computeUnknownFieldsSize m.unknownFields < 2 ^ 31 := by
    simp only [byteSizeLong] at hsize
    omega
  have hseconds : DecodesIf turn True (base.writeTag 8 ++ int64.write m.seconds) fun a =>
      { a with seconds := m.seconds } :=
    decodes_scalar base_lawful onward 8 (by decide) (by decide) int64_lawful trivial rfl
  have hnanos : DecodesIf turn True (base.writeTag 16 ++ int32.write m.nanos) fun a => { a with nanos := m.nanos } :=
    decodes_scalar base_lawful onward 16 (by decide) (by decide) int32_lawful trivial rfl
  have hrest : DecodesIf turn True (base.serializeUnknownFields m.unknownFields) fun a =>
    m.unknownFields.foldl addUnknown a :=
    decodes_unknowns base_lawful onward hwf hunknown
  apply (hseconds.ite.append (hnanos.ite.append hrest)).congr
  · simp
  · intro a
    simp only [foldl_addUnknown, mergeFrom]
    split <;> split <;> rfl

theorem ops_lawful : ops.Lawful WellFormed fun _ => True where
  cached _ _ _ := rfl
  size m _ _ := serialize_length m
  decodes _ m hwf hsize := (decodes m hwf hsize).read (turn_nil base_lawful)

theorem copy_iff (m : Timestamp) : mergeFrom new m = m ↔ m.cachedSize = 0 := by
  obtain ⟨seconds, nanos, us, size⟩ := m
  simp only [mergeFrom, new, ite_not, List.nil_append, Timestamp.mk.injEq, true_and]
  constructor
  · exact fun h => h.2.2.symm
  · intro h
    refine ⟨?_, ?_, h.symm⟩
    · split
      · rename_i h0
        exact h0.symm
      · rfl
    · split
      · rename_i h0
        exact h0.symm
      · rfl

theorem ops_settles : ops.Settles WellFormed fun _ => True where
  new := ⟨fun u hu => absurd hu List.not_mem_nil, trivial, (copy_iff new).2 rfl⟩
  read a s m t ha hread := by
    refine read_invariant base_lawful onward (I := ops.Settled WellFormed fun _ => True) ?_ ?_ ha hread
    · rintro f hf m s m' s' ⟨hwf, _, hcopy⟩ hfield
      have hsize := (copy_iff m).1 hcopy
      simp only [fields, List.mem_cons, List.not_mem_nil, or_false] at hf
      rcases hf with rfl | rfl
      · obtain ⟨v, rfl⟩ := Field.scalar_read hfield
        exact ⟨hwf, trivial, (copy_iff _).2 hsize⟩
      · obtain ⟨v, rfl⟩ := Field.scalar_read hfield
        exact ⟨hwf, trivial, (copy_iff _).2 hsize⟩
    · rintro m u ⟨hwf, _, hcopy⟩ hu
      refine ⟨?_, trivial, (copy_iff _).2 ((copy_iff m).1 hcopy)⟩
      intro v hv
      rcases List.mem_append.1 hv with hv | hv
      · exact hwf v hv
      · rw [List.mem_singleton.1 hv]
        exact hu

end Timestamp

/-- The whole format. -/
def wire : Runtime := runtime Timestamp.ops Timestamp.WellFormed Timestamp.ofSeconds

theorem wire_lawful : wire.Lawful := by
  apply lawful
  · exact Timestamp.ops_lawful
  · exact Timestamp.ops_settles
  · exact fun _ => ⟨fun u hu => absurd hu List.not_mem_nil, trivial, (Timestamp.copy_iff _).2 rfl⟩

end LinuxProgram.Protobuf.Wire
