/-
The fields of a message, one by one: what the runtime writes for a field is read by the case of the `switch`
that asks for its tag, and an unknown field goes to the unknown ones.
-/
import LinuxProgram.Protobuf.Runtime
import Mathlib.Tactic

namespace LinuxProgram.Protobuf

open LinuxProgram.Data LinuxProgram.Machine

variable {rt : Runtime} {M X α : Type} {fields : List (Field M)} {addUnknown : M → rt.Unknown → M}

/-- No case of the `switch` takes the tag. -/
def Unhandled (fields : List (Field M)) (tag : Nat) : Prop := tag ≤ 127 → fields.find? (·.handles tag) = none

/-- Every case of the `switch` only goes on along the stream. -/
def Onward (fields : List (Field M)) : Prop := ∀ f ∈ fields, ∀ m, (f.read m).Forward

/-! ## Sizes -/

theorem length_optional {c : Prop} [Decidable c] {w : Bytes} {n : Nat} (h : c → w.length = n) :
    (if c then w else []).length = if c then n else 0 := by
  split
  · rename_i hc
    exact h hc
  · rfl

theorem scalar_length (h : rt.Lawful) {tag : Nat} (hpos : 0 < tag) (hle : tag ≤ 127) {c : Codec UInt8 α} {ok : α → Prop}
    (hc : c.LawfulOn ok) {v : α} (hv : ok v) : (rt.writeTag tag ++ c.write v).length = 1 + c.size v := by
  rw [List.length_append, h.writeTag_length tag hpos hle, hc.size v hv]

theorem unknowns_length (h : rt.Lawful) (us : List rt.Unknown) :
    (rt.serializeUnknownFields us).length = rt.computeUnknownFieldsSize us := by
  unfold Runtime.serializeUnknownFields Runtime.computeUnknownFieldsSize
  rw [List.length_flatMap]
  congr 1
  exact List.map_congr_left fun u _ => (h.unknownSize_eq u).symm

/-- An optional string is no longer than its size. -/
theorem optional_length (h : rt.Lawful) {b : Bytes} {n : Nat}
    (hsize : (if 0 < b.length then 1 + rt.bytes.size b else 0) < n + 1) : b.length < n + 1 := by
  have hle := h.bytes_size b
  split at hsize
  · omega
  · omega

/-- A message inside the message, after its sizes have been cached. -/
theorem message_eq {o : MessageOps X} {wf valid : X → Prop} [DecidablePred valid] (ho : o.Lawful wf valid)
    (field : Nat) {x : X} (hwf : wf x) (hsize : (o.byteSizeLong x).1 < 2 ^ 31) :
    rt.writeMessage o field (o.byteSizeLong x).2 =
      rt.writeTag (Runtime.makeTag field Runtime.wiretypeLengthDelimited) ++
        (rt.writeLength (o.serializeToString x).length ++ o.serializeToString x) := by
  rw [Runtime.writeMessage, ho.cached x hwf hsize, ho.size x hwf hsize]
  rfl

theorem message_length (h : rt.Lawful) {o : MessageOps X} {wf valid : X → Prop} [DecidablePred valid]
    (ho : o.Lawful wf valid) {field : Nat} (hpos : 0 < Runtime.makeTag field Runtime.wiretypeLengthDelimited)
    (hle : Runtime.makeTag field Runtime.wiretypeLengthDelimited ≤ 127) {x : X} (hwf : wf x)
    (hsize : (o.byteSizeLong x).1 < 2 ^ 31) :
    (rt.writeMessage o field (o.byteSizeLong x).2).length = 1 + rt.messageSize o x := by
  rw [message_eq ho field hwf hsize, List.length_append, List.length_append, h.writeTag_length _ hpos hle,
    ho.size x hwf hsize, ← h.lengthSize_eq _ hsize]
  rfl

/-- The messages of a repeated field. -/
theorem messages_length (h : rt.Lawful) {o : MessageOps X} {wf valid : X → Prop} [DecidablePred valid]
    (ho : o.Lawful wf valid) {field : Nat} (hpos : 0 < Runtime.makeTag field Runtime.wiretypeLengthDelimited)
    (hle : Runtime.makeTag field Runtime.wiretypeLengthDelimited ≤ 127) {xs : List X} (hwf : ∀ x ∈ xs, wf x)
    (hsize : ∀ x ∈ xs, (o.byteSizeLong x).1 < 2 ^ 31) :
    ((xs.map fun x => (o.byteSizeLong x).2).flatMap (rt.writeMessage o field)).length =
      1 * xs.length + (xs.map (rt.messageSize o)).sum := by
  induction xs with
  | nil => rfl
  | cons x xs ih =>
    have hx := message_length h ho hpos hle (hwf x List.mem_cons_self) (hsize x List.mem_cons_self)
    have hrest := ih (fun y hy => hwf y (List.mem_cons_of_mem x hy)) fun y hy => hsize y (List.mem_cons_of_mem x hy)
    simp only [List.map_cons, List.flatMap_cons, List.length_append, List.length_cons, List.sum_cons, hx, hrest]
    omega

theorem messageSize_mem (rt : Runtime) {o : MessageOps X} {xs : List X} {x : X} (hx : x ∈ xs) :
    (o.byteSizeLong x).1 ≤ (xs.map (rt.messageSize o)).sum := by
  have hle := List.single_le_sum (fun _ _ => Nat.zero_le _) _ (List.mem_map_of_mem (f := rt.messageSize o) hx)
  unfold Runtime.messageSize at hle ⊢
  omega

/-! ## Turns -/

theorem Field.scalar_forward {c : Codec UInt8 α} (hc : c.read.Forward) (number tag : Nat) (set : M → α → M) (m : M) :
    ((Field.scalar c number tag set).read m).Forward :=
  hc.map (set m)

theorem Field.string_forward (h : rt.Lawful) (number tag : Nat) (set : M → Bytes → M) (m : M) :
    ((Field.string rt number tag set).read m).Forward := by
  intro s a t heq
  obtain ⟨x, hx, hxe⟩ := Option.bind_eq_some_iff.1 heq
  split at hxe
  · cases hxe
    exact h.bytes.forward _ _ _ hx
  · cases hxe

theorem Field.message_forward (h : rt.Lawful) (o : MessageOps X) (number tag : Nat) (sub : M → X)
    (set : M → X → M) (m : M) : ((Field.message rt o number tag sub set).read m).Forward :=
  Reader.Forward.map (h.readMessage_forward (o.mergePartialFromCodedStream (sub m))) (set m)

/-- The three ways of a turn: the case that asks for the tag, the end of the message, and an unknown field. -/
theorem turn_cases (fields : List (Field M)) (addUnknown : M → rt.Unknown → M) (m : M) (s : Bytes) :
    ∃ tag known t, rt.readTag 127 s = ((tag, known), t) ∧
      ((known = true ∧ ∃ f, fields.find? (·.handles tag) = some f ∧
          rt.turn fields addUnknown (m, s) = (f.read m t).elim (.done none) .next) ∨
        (known = true → fields.find? (·.handles tag) = none) ∧
          (tag = 0 ∧ rt.turn fields addUnknown (m, s) = .done (some (m, s)) ∨
            tag ≠ 0 ∧ rt.turn fields addUnknown (m, s) =
              (rt.skipField tag t).elim (.done none) fun x => .next (addUnknown m x.1, x.2))) := by
  obtain ⟨⟨⟨tag, known⟩, t⟩, hread⟩ : ∃ x, rt.readTag 127 s = x := ⟨_, rfl⟩
  refine ⟨tag, known, t, hread, ?_⟩
  cases hfind : (if known then fields.find? (·.handles tag) else none) with
  | some f =>
    obtain ⟨hk, hf⟩ : known = true ∧ fields.find? (·.handles tag) = some f := by
      cases known
      · cases hfind
      · exact ⟨rfl, hfind⟩
    refine .inl ⟨hk, f, hf, ?_⟩
    simp only [Runtime.turn, hread, hfind]
    cases f.read m t <;> rfl
  | none =>
    refine .inr ⟨fun hk => by simpa [hk] using hfind, ?_⟩
    by_cases h0 : tag = 0
    · refine .inl ⟨h0, ?_⟩
      simp only [Runtime.turn, hread, hfind]
      exact if_pos h0
    · refine .inr ⟨h0, ?_⟩
      simp only [Runtime.turn, hread, hfind, h0, if_false]
      cases rt.skipField tag t <;> rfl

theorem turn_shortens (h : rt.Lawful) (hon : Onward fields) : (rt.turn fields addUnknown).Shortens := by
  intro m s m' s' hturn
  obtain ⟨tag, known, t, hread, hcases⟩ := turn_cases fields addUnknown m s
  rcases hcases with ⟨hk, f, hf, heq⟩ | ⟨-, ⟨h0, heq⟩ | ⟨h0, heq⟩⟩
  · have hpos := ((h.readTag_known hread).1 hk).1
    have hlt := h.readTag_shortens hread (by omega)
    cases hr : f.read m t with
    | none =>
      rw [hturn, hr] at heq
      cases heq
    | some r =>
      rw [hturn, hr] at heq
      cases heq
      have hle := hon f (List.mem_of_find?_eq_some hf) m _ _ _ hr
      omega
  · rw [hturn] at heq
    cases heq
  · have hlt := h.readTag_shortens hread h0
    cases hr : rt.skipField tag t with
    | none =>
      rw [hturn, hr] at heq
      cases heq
    | some r =>
      rw [hturn, hr] at heq
      cases heq
      have hle := h.skipField_forward tag _ _ _ hr
      omega

theorem turn_nil (h : rt.Lawful) (m : M) : rt.turn fields addUnknown (m, []) = .done (some (m, [])) := by
  simp [Runtime.turn, h.readTag_nil]

/-- The turn at a tag that a case asks for. -/
theorem turn_field (h : rt.Lawful) {tag : Nat} {f : Field M} (hpos : 0 < tag) (hle : tag ≤ 127)
    (hf : fields.find? (·.handles tag) = some f) (m : M) (s : Bytes) :
    rt.turn fields addUnknown (m, rt.writeTag tag ++ s) = (f.read m s).elim (.done none) .next := by
  simp only [Runtime.turn, h.readTag_writeTag 127 tag s hpos (by omega), hle, decide_true, if_true, hf]
  cases f.read m s <;> rfl

/-! ## What reading keeps -/

theorem Field.scalar_read {c : Codec UInt8 α} {number tag : Nat} {set : M → α → M} {m m' : M} {s s' : Bytes}
    (h : (Field.scalar c number tag set).read m s = some (m', s')) : ∃ v, m' = set m v := by
  obtain ⟨x, -, hx⟩ := Option.map_eq_some_iff.1 h
  cases hx
  exact ⟨x.1, rfl⟩

theorem Field.string_read {number tag : Nat} {set : M → Bytes → M} {m m' : M} {s s' : Bytes}
    (h : (Field.string rt number tag set).read m s = some (m', s')) :
    ∃ v, rt.verifyUtf8String v = true ∧ m' = set m v := by
  obtain ⟨x, -, hx⟩ := Option.bind_eq_some_iff.1 h
  split at hx
  · rename_i hutf
    cases hx
    exact ⟨x.1, hutf, rfl⟩
  · cases hx

theorem Field.message_read (hl : rt.Lawful) {o : MessageOps X} {number tag : Nat} {sub : M → X}
    {set : M → X → M} {m m' : M} {s s' : Bytes} (h : (Field.message rt o number tag sub set).read m s = some (m', s')) :
    ∃ w x, o.mergePartialFromCodedStream (sub m) w = some (x, []) ∧ m' = set m x := by
  obtain ⟨x, hx, hxe⟩ := Option.map_eq_some_iff.1 h
  cases hxe
  obtain ⟨w, hw⟩ := hl.readMessage_inside _ _ _ _ hx
  exact ⟨w, x.1, hw, rfl⟩

/-- What every case of the `switch` and the unknown fields keep. -/
theorem read_invariant (h : rt.Lawful) (hon : Onward fields) {I : M → Prop}
    (hfield : ∀ f ∈ fields, ∀ m s m' s', I m → f.read m s = some (m', s') → I m')
    (hunknown : ∀ m u, I m → Unhandled fields (rt.unknownTag u) → I (addUnknown m u)) {m m' : M} {s s' : Bytes}
    (hm : I m) (hread : readFields (rt.turn fields addUnknown) m s = some (m', s')) : I m' := by
  refine readFields_invariant (turn_shortens h hon) ?_ ?_ hm hread
  · intro m s m' s' hm hturn
    obtain ⟨tag, known, t, htag, hcases⟩ := turn_cases fields addUnknown m s
    rcases hcases with ⟨-, f, hf, heq⟩ | ⟨hnone, ⟨-, heq⟩ | ⟨h0, heq⟩⟩
    · rw [hturn] at heq
      cases hr : f.read m t with
      | none =>
        rw [hr] at heq
        cases heq
      | some r =>
        rw [hr] at heq
        cases heq
        exact hfield f (List.mem_of_find?_eq_some hf) m t m' s' hm hr
    · rw [hturn] at heq
      cases heq
    · rw [hturn] at heq
      cases hr : rt.skipField tag t with
      | none =>
        rw [hr] at heq
        cases heq
      | some r =>
        rw [hr] at heq
        cases heq
        apply hunknown m r.1 hm
        intro hle
        rw [h.skipField_tag hr] at hle ⊢
        exact hnone ((h.readTag_known htag).2 ⟨by omega, hle⟩)
  · intro m s m' s' hm hturn
    obtain ⟨tag, known, t, htag, hcases⟩ := turn_cases fields addUnknown m s
    rcases hcases with ⟨-, f, hf, heq⟩ | ⟨-, ⟨-, heq⟩ | ⟨-, heq⟩⟩
    · rw [hturn] at heq
      cases hr : f.read m t <;> rw [hr] at heq <;> cases heq
    · rw [hturn] at heq
      cases heq
      exact hm
    · rw [hturn] at heq
      cases hr : rt.skipField tag t <;> rw [hr] at heq <;> cases heq

/-! ## What a field comes to -/

section Decodes

variable (h : rt.Lawful) (hon : Onward fields)
include h hon

theorem decodes_unknown {u : rt.Unknown} (hu : Unhandled fields (rt.unknownTag u))
    (hlen : (rt.unknownBody u).length < 2 ^ 31) :
    DecodesIf (rt.turn fields addUnknown) True (rt.writeTag (rt.unknownTag u) ++ rt.unknownBody u) fun m =>
      addUnknown m u := by
  apply DecodesIf.always
  apply Decodes.field (turn_shortens h hon)
  intro m rest
  have hpos := h.unknownTag_pos u
  rw [List.append_assoc]
  have hfind : (if decide (rt.unknownTag u ≤ 127) = true then fields.find? (·.handles (rt.unknownTag u)) else none) =
      none := by
    split
    · rename_i hle
      exact hu (of_decide_eq_true hle)
    · rfl
  simp only [Runtime.turn, h.readTag_writeTag 127 _ _ hpos (h.unknownTag_lt u), hfind, h.skipField_takes u hlen rest,
    if_neg (Nat.ne_of_gt hpos), Option.elim]

/-- All the unknown fields. -/
theorem decodes_unknowns {us : List rt.Unknown} (hu : ∀ u ∈ us, Unhandled fields (rt.unknownTag u))
    (hlen : rt.computeUnknownFieldsSize us < 2 ^ 31) :
    DecodesIf (rt.turn fields addUnknown) True (rt.serializeUnknownFields us) fun m => us.foldl addUnknown m := by
  have hall : DecodesIf (rt.turn fields addUnknown) (∀ u ∈ us, True) (rt.serializeUnknownFields us) fun m =>
      us.foldl addUnknown m := by
    apply DecodesIf.flatMap
    intro u hmem
    have hle := List.single_le_sum (fun _ _ => Nat.zero_le _) _ (List.mem_map_of_mem (f := rt.unknownSize) hmem)
    rw [h.unknownSize_eq, List.length_append] at hle
    unfold Runtime.computeUnknownFieldsSize at hlen
    exact decodes_unknown h hon (hu u hmem) (by omega)
  exact hall.congr (by simp) fun m => rfl

variable (tag : Nat) (hpos : 0 < tag) (hle : tag ≤ 127)
include hpos hle

theorem decodes_scalar {c : Codec UInt8 α} {ok : α → Prop} (hc : c.LawfulOn ok) {v : α} (hv : ok v) {number tag' : Nat}
    {set : M → α → M} (hf : fields.find? (·.handles tag) = some (Field.scalar c number tag' set)) :
    DecodesIf (rt.turn fields addUnknown) True (rt.writeTag tag ++ c.write v) fun m => set m v := by
  apply DecodesIf.always
  apply Decodes.field (turn_shortens h hon)
  intro m rest
  rw [List.append_assoc, turn_field h hpos hle hf]
  simp [Field.scalar, hc.takes v hv rest]

theorem decodes_string {v : Bytes} (hv : v.length < 2 ^ 31) {number tag' : Nat} {set : M → Bytes → M}
    (hf : fields.find? (·.handles tag) = some (Field.string rt number tag' set)) :
    DecodesIf (rt.turn fields addUnknown) (rt.verifyUtf8String v = true) (rt.writeTag tag ++ rt.bytes.write v) fun m =>
      set m v := by
  apply Decodes.field (turn_shortens h hon)
  intro m rest
  rw [List.append_assoc, turn_field h hpos hle hf]
  cases hutf : rt.verifyUtf8String v <;> simp [Field.string, h.bytes.takes v hv rest, hutf]

variable {o : MessageOps X} {wf valid : X → Prop} [DecidablePred valid] (ho : o.Lawful wf valid)
include ho

/-- A message inside the message, read onto `sub m`. -/
theorem decodes_message {field number tag' : Nat} (ht : Runtime.makeTag field Runtime.wiretypeLengthDelimited = tag)
    {sub : M → X} {set : M → X → M} {x : X} (hwf : wf x) (hsize : (o.byteSizeLong x).1 < 2 ^ 31)
    (hf : fields.find? (·.handles tag) = some (Field.message rt o number tag' sub set)) :
    DecodesIf (rt.turn fields addUnknown) (valid x) (rt.writeMessage o field (o.byteSizeLong x).2) fun m =>
      set m (o.mergeFrom (sub m) x) := by
  have hlen : (o.serializeToString x).length < 2 ^ 31 := by
    rw [ho.size x hwf hsize]
    exact hsize
  apply Decodes.field (turn_shortens h hon)
  intro m rest
  have hread := ho.decodes (sub m) x hwf hsize
  rw [message_eq ho field hwf hsize, ht, List.append_assoc, turn_field h hpos hle hf]
  by_cases hx : valid x
  · rw [if_pos hx] at hread
    have htakes := h.readMessage_takes _ _ _ hlen hread rest
    simp only [Field.message, htakes, if_pos hx]
    rfl
  · rw [if_neg hx] at hread
    have hrefuses := h.readMessage_refuses _ _ hlen hread rest
    simp only [Field.message, hrefuses, if_neg hx]
    rfl

/-- The messages of a repeated field, each read onto a new one. -/
theorem decodes_messages {field number tag' : Nat} (ht : Runtime.makeTag field Runtime.wiretypeLengthDelimited = tag)
    {add : M → X → M} {xs : List X} (hwf : ∀ x ∈ xs, wf x) (hsize : ∀ x ∈ xs, (o.byteSizeLong x).1 < 2 ^ 31)
    (hf : fields.find? (·.handles tag) = some (Field.message rt o number tag' (fun _ => o.new) add)) :
    DecodesIf (rt.turn fields addUnknown) (∀ x ∈ xs, valid x)
      ((xs.map fun x => (o.byteSizeLong x).2).flatMap (rt.writeMessage o field))
      fun m => (xs.map (o.mergeFrom o.new)).foldl add m := by
  rw [List.flatMap_map]
  have hall : DecodesIf (rt.turn fields addUnknown) (∀ x ∈ xs, valid x)
      (xs.flatMap fun x => rt.writeMessage o field (o.byteSizeLong x).2)
      fun m => xs.foldl (fun m x => add m (o.mergeFrom o.new x)) m := by
    apply DecodesIf.flatMap
    intro x hx
    exact decodes_message h hon tag hpos hle ho ht (hwf x hx) (hsize x hx) hf
  apply hall.congr Iff.rfl
  intro m
  rw [List.foldl_map]

end Decodes

end LinuxProgram.Protobuf
