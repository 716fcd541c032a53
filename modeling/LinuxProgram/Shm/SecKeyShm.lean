/-
The shared memory of `SecKeyShm`: a segment of records, each found by its client and server ids.
`ShmWrite` compares the ids of every slot and then looks for a blank slot; the segment is a map with
room for `maxNode` pairs of ids.

The ids are C strings: they end with a NUL inside their arrays. A record has no padding, so comparing
and copying its bytes is comparing and copying its fields. Attaching and detaching the segment and the
output lines are left out.
-/
import LinuxProgram.Data.CStr
import LinuxProgram.Data.SlotTable

namespace LinuxProgram.Shm

open LinuxProgram.Data

/-! ## The code -/

structure NodeSHMInfo where
  status : Int32
  seckeyID : Int32
  clientID : Vector UInt8 12
  serverID : Vector UInt8 12
  seckey : Vector UInt8 128
  deriving DecidableEq

/-- `NodeSHMInfo()`, and a slot of zeros. -/
def NodeSHMInfo.blank : NodeSHMInfo where
  status := 0
  seckeyID := 0
  clientID := .replicate 12 0
  serverID := .replicate 12 0
  seckey := .replicate 128 0

/-- The strings in the arrays of the ids. -/
def NodeSHMInfo.ids (node : NodeSHMInfo) : List UInt8 × List UInt8 :=
  (cstr node.clientID.toList, cstr node.serverID.toList)

/-- `strcmp(node->clientID, clientId) == 0 && strcmp(node->serverID, serverId) == 0` -/
def NodeSHMInfo.hasIds (node : NodeSHMInfo) (clientId serverId : List UInt8) : Bool :=
  cstr node.clientID.toList == cstr clientId && cstr node.serverID.toList == cstr serverId

/-- `InitShm` on a segment for `maxNode` records. -/
def initShm (maxNode : Nat) : List NodeSHMInfo := List.replicate maxNode .blank

/-- `ShmWrite`: the return value and the slots. -/
def shmWrite (info : NodeSHMInfo) (slots : List NodeSHMInfo) : Int × List NodeSHMInfo :=
  match slots.findIdx? fun temp => temp.hasIds info.clientID.toList info.serverID.toList with
  | some i => (0, slots.set i info)
  | none =>
    match slots.findIdx? fun temp => temp == .blank with
    | some i => (0, slots.set i info)
    | none => (-1, slots)

/-- `ShmRead`. -/
def shmRead (clientId serverId : List UInt8) (slots : List NodeSHMInfo) : NodeSHMInfo :=
  (slots.find? fun pNode => pNode.hasIds clientId serverId).getD .blank

/-- A record that is written: ids that end inside their arrays, not both empty. -/
structure Record extends NodeSHMInfo where
  clientID_nul : 0 ∈ clientID.toList
  serverID_nul : 0 ∈ serverID.toList
  named : toNodeSHMInfo.ids ≠ ([], [])
  deriving DecidableEq

/-- The slots after a sequence of `ShmWrite` calls. -/
def writes (records : List Record) (slots : List NodeSHMInfo) : List NodeSHMInfo :=
  records.foldl (fun slots info => (shmWrite info.toNodeSHMInfo slots).2) slots

/-! ## The segment as a map -/

theorem hasIds_iff {node : NodeSHMInfo} {clientId serverId : List UInt8} :
    node.hasIds clientId serverId = true ↔ node.ids = (cstr clientId, cstr serverId) := by
  rw [NodeSHMInfo.hasIds, Bool.and_eq_true, beq_iff_eq, beq_iff_eq, NodeSHMInfo.ids, Prod.mk.injEq]

theorem ids_blank : NodeSHMInfo.blank.ids = ([], []) := by decide

theorem ids_terminated (node : NodeSHMInfo) :
    (cstr node.clientID.toList, cstr node.serverID.toList) = node.ids := rfl

theorem shmWrite_eq (info : NodeSHMInfo) (slots : List NodeSHMInfo) :
    shmWrite info slots = match putSlot NodeSHMInfo.ids .blank info slots with
      | some slots' => (0, slots')
      | none => (-1, slots) := by
  have hids : (fun temp : NodeSHMInfo => temp.hasIds info.clientID.toList info.serverID.toList) =
      fun x => decide (x.ids = info.ids) := by
    funext x
    rw [Bool.eq_iff_iff, hasIds_iff, decide_eq_true_eq, ids_terminated]
  have hblank : (fun temp : NodeSHMInfo => temp == .blank) = fun x => decide (x = .blank) := by
    funext x
    rw [Bool.eq_iff_iff, beq_iff_eq, decide_eq_true_eq]
  rw [shmWrite, putSlot, hids, hblank]
  cases slots.findIdx? fun x => decide (x.ids = info.ids) with
  | some i => rfl
  | none =>
    cases slots.findIdx? fun x => decide (x = .blank) with
    | some i => rfl
    | none => rfl

theorem shmRead_eq (clientId serverId : List UInt8) (slots : List NodeSHMInfo) :
    shmRead clientId serverId slots = getSlot NodeSHMInfo.ids .blank (cstr clientId, cstr serverId) slots := by
  have hids : (fun pNode : NodeSHMInfo => pNode.hasIds clientId serverId) =
      fun x => decide (x.ids = (cstr clientId, cstr serverId)) := by
    funext x
    rw [Bool.eq_iff_iff, hasIds_iff, decide_eq_true_eq]
  rw [shmRead, getSlot, hids]

/-- A map from pairs of ids to records. -/
abbrev IdMap (maxNode : Nat) := BoundedMap (List UInt8 × List UInt8) NodeSHMInfo maxNode

/-- The map after a sequence of writes. -/
def mapAfter (maxNode : Nat) (records : List Record) : IdMap maxNode :=
  records.foldl (fun m info => m.write info.ids info.toNodeSHMInfo) (.empty _ _ maxNode)

variable {maxNode : Nat} {slots : List NodeSHMInfo} {m : IdMap maxNode}

/-- The segment holds what the map holds. -/
abbrev Holds (slots : List NodeSHMInfo) (m : IdMap maxNode) : Prop := Represents NodeSHMInfo.ids .blank slots m

theorem Record.ids_ne_blank (info : Record) : info.ids ≠ NodeSHMInfo.blank.ids := by
  rw [ids_blank]
  exact info.named

theorem Holds.write (h : Holds slots m) (info : Record) :
    Holds (shmWrite info.toNodeSHMInfo slots).2 (m.write info.ids info.toNodeSHMInfo) := by
  rw [shmWrite_eq]
  cases hp : putSlot NodeSHMInfo.ids .blank info.toNodeSHMInfo slots with
  | some slots' => exact Represents.put h info.ids_ne_blank hp
  | none =>
    have hfull : ¬ m.Accepts info.ids := by
      rw [← h.put_isSome info.ids_ne_blank, hp]
      exact Bool.false_ne_true
    rw [BoundedMap.write, dif_neg hfull]
    exact h

/-- In every state the segment holds what the map holds. -/
theorem holds_writes (maxNode : Nat) (records : List Record) :
    Holds (writes records (initShm maxNode)) (mapAfter maxNode records) := by
  unfold writes mapAfter
  have hrun : ∀ {slots : List NodeSHMInfo} {m : IdMap maxNode}, Holds slots m → Holds
      (records.foldl (fun slots info => (shmWrite info.toNodeSHMInfo slots).2) slots)
      (records.foldl (fun m info => m.write info.ids info.toNodeSHMInfo) m) := by
    induction records with
    | nil => exact fun h => h
    | cons info records ih => exact fun h => ih (h.write info)
  exact hrun (represents_empty maxNode)

/-- A pair that is not written is not in the map. -/
theorem lookup_mapAfter {records : List Record} {ids : List UInt8 × List UInt8} (h : ∀ info ∈ records, info.ids ≠ ids) :
    (mapAfter maxNode records).lookup ids = none := by
  unfold mapAfter
  have hrun : ∀ {m : IdMap maxNode}, m.lookup ids = none →
      (records.foldl (fun m info => m.write info.ids info.toNodeSHMInfo) m).lookup ids = none := by
    induction records with
    | nil => exact fun h => h
    | cons info records ih =>
      obtain ⟨hne, hrest⟩ := List.forall_mem_cons.1 h
      intro m hm
      refine ih hrest ?_
      rw [BoundedMap.lookup_write_of_ne _ hne.symm, hm]
  exact hrun rfl

theorem Holds.read (h : Holds slots m) (clientId serverId : List UInt8) :
    shmRead clientId serverId slots = (m.lookup (cstr clientId, cstr serverId)).getD .blank := by
  rw [shmRead_eq, h.get_eq]

theorem Holds.accepted_iff (h : Holds slots m) (info : Record) :
    (shmWrite info.toNodeSHMInfo slots).1 = 0 ↔ m.Accepts info.ids := by
  rw [← h.put_isSome info.ids_ne_blank, shmWrite_eq]
  cases putSlot NodeSHMInfo.ids .blank info.toNodeSHMInfo slots with
  | some slots' => exact iff_of_true rfl rfl
  | none =>
    refine iff_of_false ?_ Bool.false_ne_true
    show ¬ (-1 : Int) = 0
    decide

theorem shmWrite_refused {info : NodeSHMInfo} (h : (shmWrite info slots).1 ≠ 0) :
    shmWrite info slots = (-1, slots) := by
  rw [shmWrite_eq] at h ⊢
  cases hp : putSlot NodeSHMInfo.ids .blank info slots with
  | some slots' =>
    rw [hp] at h
    exact absurd rfl h
  | none => rfl

/-- The segment is a map with room for `maxNode` pairs: no pair is in two slots; a write is accepted
exactly when its pair is stored or there is room, and then it changes what is read for its pair only;
a refused write changes nothing; and a pair that was never written reads as blank. -/
theorem segment_is_map (maxNode : Nat) (records : List Record) :
    let slots := writes records (initShm maxNode)
    let stored := (mapAfter maxNode records).domain
    (∀ (i j : Nat) (node node' : NodeSHMInfo), slots[i]? = some node → slots[j]? = some node' → i ≠ j →
      node.ids = node'.ids → node = .blank ∧ node' = .blank) ∧
    (∀ info : Record,
      ((shmWrite info.toNodeSHMInfo slots).1 = 0 ↔ info.ids ∈ stored ∨ stored.card < maxNode) ∧
      ((shmWrite info.toNodeSHMInfo slots).1 = 0 → ∀ clientId serverId,
        shmRead clientId serverId (shmWrite info.toNodeSHMInfo slots).2 =
          if (cstr clientId, cstr serverId) = info.ids then info.toNodeSHMInfo else shmRead clientId serverId slots) ∧
      ((shmWrite info.toNodeSHMInfo slots).1 ≠ 0 → shmWrite info.toNodeSHMInfo slots = (-1, slots))) ∧
    ∀ clientId serverId, (∀ info ∈ records, info.ids ≠ (cstr clientId, cstr serverId)) →
      shmRead clientId serverId slots = .blank := by
  intro slots stored
  have h : Holds slots (mapAfter maxNode records) := holds_writes maxNode records
  refine ⟨fun i j node node' hi hj hne hids => ?_, fun info => ⟨h.accepted_iff info, fun hacc clientId serverId => ?_,
    shmWrite_refused⟩, fun clientId serverId hnew => ?_⟩
  · constructor
    · by_contra hb
      exact hne (h.once hi hj hids hb)
    · by_contra hb
      exact hne (h.once hj hi hids.symm hb).symm
  · have ha := (h.accepted_iff info).1 hacc
    rw [Holds.read (h.write info), BoundedMap.write, dif_pos ha, BoundedMap.lookup_insert, h.read]
    split <;> rfl
  · rw [h.read, lookup_mapAfter hnew]
    rfl

end LinuxProgram.Shm
