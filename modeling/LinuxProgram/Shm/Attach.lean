/-
The attachments of a `SecKeyShm` object: what each call does to the segment, between which calls of `shmat`
and `shmdt`, for both constructors and whatever an uninitialised member holds. `InitShm` clears the segment
when nothing is attached, `ShmWrite` detaches twice behind a new record and takes a failed attachment for a
success, and the member `maxNode` that bounds the loops is not the number of nodes of the segment.

A comparison of ids is an access to one node. The output lines are left out.
-/
import LinuxProgram.Shm.SecKeyShm

namespace LinuxProgram.Shm

/-! ## The code -/

/-- What the calls do to the memory of the segment; `ok` is whether `shmat` succeeds. -/
inductive Event where
  | shmat (ok : Bool)
  | access (i : Nat)
  | store (i : Nat)
  | clear (bytes : Nat)
  | shmdt
  deriving DecidableEq, Repr

/-- An address of a segment, neither `NULL` nor `(void *)-1`. -/
structure Address where
  val : UInt64
  ne_null : val ≠ 0
  ne_failed : val ≠ -1

/-- The members of a `SecKeyShm` object; `size` is the size it asked `shmget` for. -/
structure SecKeyShm where
  ptr : UInt64
  maxNode : Int32
  size : Int32

/-- A record whose ids end inside their arrays. -/
structure Terminated extends NodeSHMInfo where
  clientID_nul : 0 ∈ clientID.toList
  serverID_nul : 0 ∈ serverID.toList

/-- The comparison of the first loop of `ShmWrite`. -/
def NodeSHMInfo.sameIds (info temp : NodeSHMInfo) : Bool := temp.hasIds info.clientID.toList info.serverID.toList

/-- The comparison of its second loop. -/
def NodeSHMInfo.isBlank (temp : NodeSHMInfo) : Bool := temp == .blank

/-- What a call leaves behind: the object, the nodes from the address of the segment on, and what it did. -/
structure Effect where
  object : SecKeyShm
  mem : Nat → NodeSHMInfo
  events : List Event

/-- `sizeof(NodeSHMInfo)` -/
def nodeSize : Nat := 160

/-- `maxNode * sizeof(NodeSHMInfo)`, as the unsigned number it is -/
def tableSize (maxNode : Int32) : Nat := (maxNode.toInt * nodeSize % 2 ^ 64).toNat

/-- What `shmat` returns. -/
def shmat : Option Address → UInt64
  | some a => a.val
  | none => -1

/-- What a loop over the first `n` nodes does. -/
def looks (n : Nat) : List Event := (List.range n).map .access

/-- A loop over the first `n` nodes that ends at the first for which the test succeeds. -/
def scan (test : NodeSHMInfo → Bool) (mem : Nat → NodeSHMInfo) (n : Nat) : List Event × Option Nat :=
  match (List.range n).find? fun i => test (mem i) with
  | some i => (looks (i + 1), some i)
  | none => (looks n, none)

/-- The two constructors of `SecKeyShm` that create the segment. -/
inductive Constructor where
  | key (maxNode : Int32)
  | path (maxNode : Int32)

namespace SecKeyShm

/-- The object, when `ptr` and `garbage` are in the members before. -/
def construct (ptr : UInt64) (garbage : Int32) : Constructor → SecKeyShm
  | .key maxNode => { ptr, maxNode, size := Int32.ofNat (tableSize maxNode) }
  | .path maxNode => { ptr, maxNode := garbage, size := Int32.ofNat (tableSize maxNode) }

/-- The number of nodes in a segment of the size that was asked for. -/
def requested (o : SecKeyShm) : Nat := (o.size.toInt % 2 ^ 64).toNat / nodeSize

/-- The number of nodes that the loops look at. -/
def nodes (o : SecKeyShm) : Nat := o.maxNode.toInt.toNat

/-- `mapShm`: the object and the pointer that is returned. -/
def mapShm (o : SecKeyShm) (attached : Option Address) : SecKeyShm × UInt64 :=
  let o := { o with ptr := shmat attached }
  if o.ptr = -1 then (o, 0) else (o, o.ptr)

/-- `InitShm` -/
def initShm (o : SecKeyShm) : List Event := if o.ptr ≠ 0 then [.clear (tableSize o.maxNode)] else []

/-- `ShmWrite` -/
def shmWrite (o : SecKeyShm) (attached : Option Address) (mem : Nat → NodeSHMInfo) (info : NodeSHMInfo) :
    Int × Effect :=
  let (o, pNode) := o.mapShm attached
  -- `return NULL`
  if pNode = 0 then (0, ⟨o, mem, [.shmat false]⟩)
  else
    match scan info.sameIds mem o.nodes with
    | (es, some i) => (0, ⟨o, Function.update mem i info, .shmat true :: (es ++ [.store i, .shmdt])⟩)
    | (es, none) =>
      match scan NodeSHMInfo.isBlank mem o.nodes with
      -- the `break` leads to the second `unmapShm`
      | (es', some i) => (0, ⟨o, Function.update mem i info, .shmat true :: (es ++ es' ++ [.store i, .shmdt, .shmdt])⟩)
      | (es', none) => (-1, ⟨o, mem, .shmat true :: (es ++ es' ++ [.shmdt])⟩)

/-- `ShmRead` -/
def shmRead (o : SecKeyShm) (attached : Option Address) (mem : Nat → NodeSHMInfo) (clientId serverId : List UInt8) :
    NodeSHMInfo × Effect :=
  let (o, pAddr) := o.mapShm attached
  if pAddr = 0 then (.blank, ⟨o, mem, [.shmat false]⟩)
  else
    match scan (fun pNode => pNode.hasIds clientId serverId) mem o.nodes with
    | (es, some i) => (mem i, ⟨o, mem, .shmat true :: (es ++ [.access i, .shmdt])⟩)
    | (es, none) => (.blank, ⟨o, mem, .shmat true :: (es ++ [.shmdt])⟩)

/-- A call, with what `shmat` returns and the nodes it finds behind that address. -/
inductive Call where
  | initShm
  | shmWrite (attached : Option Address) (mem : Nat → NodeSHMInfo) (info : Terminated)
  | shmRead (attached : Option Address) (mem : Nat → NodeSHMInfo) (clientId serverId : List UInt8)

def call (o : SecKeyShm) : Call → SecKeyShm × List Event
  | .initShm => (o, o.initShm)
  | .shmWrite attached mem info =>
    let e := (o.shmWrite attached mem info.toNodeSHMInfo).2
    (e.object, e.events)
  | .shmRead attached mem clientId serverId =>
    let e := (o.shmRead attached mem clientId serverId).2
    (e.object, e.events)

/-- What each call of a sequence does. -/
def traces (o : SecKeyShm) : List Call → List (List Event)
  | [] => []
  | c :: cs => (o.call c).2 :: (o.call c).1.traces cs

end SecKeyShm

/-! ## The properties -/

/-- In the rest of a call the segment of `nodes` nodes is accessed only while it is attached, and each
attachment is undone once before the call returns. -/
def Guarded (nodes : Nat) : Bool → List Event → Prop
  | attached, [] => attached = false
  | attached, .shmat ok :: es => attached = false ∧ Guarded nodes ok es
  | attached, .access i :: es => attached = true ∧ i < nodes ∧ Guarded nodes attached es
  | attached, .store i :: es => attached = true ∧ i < nodes ∧ Guarded nodes attached es
  | attached, .clear bytes :: es => (bytes = 0 ∨ attached = true ∧ bytes ≤ nodes * nodeSize) ∧ Guarded nodes attached es
  | attached, .shmdt :: es => attached = true ∧ Guarded nodes false es

namespace SecKeyShm

/-- Some of the nodes that the loops look at is in the segment and passes the test. -/
def Finds (o : SecKeyShm) (mem : Nat → NodeSHMInfo) (test : NodeSHMInfo → Bool) : Prop :=
  ∃ k < o.nodes, k < o.requested ∧ test (mem k) = true

/-- None of the nodes that the loops look at passes the test. -/
def Misses (o : SecKeyShm) (mem : Nat → NodeSHMInfo) (test : NodeSHMInfo → Bool) : Prop :=
  ∀ k < o.nodes, test (mem k) = false

/-- When a call keeps to its attachment. -/
def Careful (o : SecKeyShm) : Call → Prop
  | .initShm => o.ptr = 0 ∨ o.maxNode = 0
  | .shmWrite attached mem info => attached = none ∨
    o.Finds mem info.sameIds ∨ (o.nodes ≤ o.requested ∧ o.Misses mem info.sameIds ∧ o.Misses mem NodeSHMInfo.isBlank)
  | .shmRead attached mem clientId serverId => attached = none ∨
    o.Finds mem (fun pNode => pNode.hasIds clientId serverId) ∨ o.nodes ≤ o.requested

/-- Each call of the sequence keeps to its attachment. -/
def AllCareful (o : SecKeyShm) : List Call → Prop
  | [] => True
  | c :: cs => o.Careful c ∧ (o.call c).1.AllCareful cs

/-- `ShmWrite` reports 0 when the record is in a slot of the segment that it wrote; else nothing is changed. -/
def Truthful (o : SecKeyShm) (mem : Nat → NodeSHMInfo) (info : NodeSHMInfo) (w : Int × Effect) : Prop :=
  (w.1 = 0 ↔ ∃ i < o.requested, .store i ∈ w.2.events ∧ w.2.mem i = info) ∧ (w.1 ≠ 0 → w.2.mem = mem)

end SecKeyShm

/-! ## A loop -/

section Scan

variable {test : NodeSHMInfo → Bool} {mem : Nat → NodeSHMInfo} {n nodes k : Nat} {es : List Event}

/-- A loop ends at the first node that passes, or has looked at all. -/
theorem scan_cases (test : NodeSHMInfo → Bool) (mem : Nat → NodeSHMInfo) (n : Nat) :
    (∃ i < n, test (mem i) = true ∧ (∀ k < i, test (mem k) = false) ∧
      scan test mem n = (looks (i + 1), some i)) ∨
    ((∀ k < n, test (mem k) = false) ∧ scan test mem n = (looks n, none)) := by
  unfold scan
  cases hf : (List.range n).find? fun i => test (mem i) with
  | some i =>
    obtain ⟨hi, hmem, hbefore⟩ := List.find?_range_eq_some.1 hf
    exact .inl ⟨i, List.mem_range.1 hmem, hi, fun k hk => by simpa using hbefore k hk, rfl⟩
  | none =>
    refine .inr ⟨fun k hk => ?_, rfl⟩
    have := List.find?_range_eq_none.1 hf k hk
    simpa using this

/-- Looking at nodes is allowed while the segment is attached and has them. -/
theorem guarded_looks : Guarded nodes true (looks n ++ es) ↔ n ≤ nodes ∧ Guarded nodes true es := by
  have hrun : ∀ d i, Guarded nodes true ((List.range' i d).map .access ++ es) ↔
      (d = 0 ∨ i + d ≤ nodes) ∧ Guarded nodes true es := by
    intro d
    induction d with
    | zero => simp
    | succ d ih =>
      intro i
      rw [List.range'_succ, List.map_cons, List.cons_append, Guarded, ih]
      exact ⟨fun ⟨_, hi, _, hes⟩ => ⟨.inr (by omega), hes⟩, fun ⟨_, hes⟩ => ⟨rfl, by omega, by omega, hes⟩⟩
  rw [looks, List.range_eq_range', hrun]
  exact and_congr_left fun _ => by omega

@[simp] theorem store_notMem_looks (i n : Nat) : .store i ∉ looks n := by simp [looks]

/-- A copy into the node that a loop has ended at, and the end of the call. -/
theorem guarded_found : Guarded nodes true (looks (k + 1) ++ [.store k, .shmdt]) ↔ k < nodes := by
  rw [guarded_looks]
  simp only [Guarded, and_true, true_and]
  omega

end Scan

namespace SecKeyShm

section Calls

variable {o : SecKeyShm} {mem : Nat → NodeSHMInfo} {test : NodeSHMInfo → Bool} {i : Nat}

/-- The node that a loop ends at is in the segment when any node that passes is. -/
theorem finds_iff (hi : i < o.nodes) (htest : test (mem i) = true) (hbefore : ∀ k < i, test (mem k) = false) :
    o.Finds mem test ↔ i < o.requested := by
  refine ⟨fun ⟨k, _, hk, hpass⟩ => ?_, fun h => ⟨i, hi, h, htest⟩⟩
  by_contra hr
  rw [hbefore k (by omega)] at hpass
  cases hpass

theorem Misses.not_finds (h : o.Misses mem test) : ¬ o.Finds mem test := by
  rintro ⟨k, hk, -, hpass⟩
  rw [h k hk] at hpass
  cases hpass

theorem not_misses (hi : i < o.nodes) (htest : test (mem i) = true) : ¬ o.Misses mem test := by
  intro h
  rw [h i hi] at htest
  cases htest

/-- What a loop of the object finds. -/
theorem scan_nodes (o : SecKeyShm) (mem : Nat → NodeSHMInfo) (test : NodeSHMInfo → Bool) :
    (∃ i < o.nodes, test (mem i) = true ∧ (o.Finds mem test ↔ i < o.requested) ∧ ¬ o.Misses mem test ∧
      scan test mem o.nodes = (looks (i + 1), some i)) ∨
    (o.Misses mem test ∧ scan test mem o.nodes = (looks o.nodes, none)) := by
  rcases scan_cases test mem o.nodes with ⟨i, hi, htest, hbefore, hscan⟩ | h
  · exact .inl ⟨i, hi, htest, finds_iff hi htest hbefore, not_misses hi htest, hscan⟩
  · exact .inr h

theorem mapShm_none (o : SecKeyShm) : o.mapShm none = ({ o with ptr := -1 }, 0) := rfl

theorem mapShm_some (o : SecKeyShm) (a : Address) : o.mapShm (some a) = ({ o with ptr := a.val }, a.val) := by
  simp [mapShm, shmat, a.ne_failed]

theorem tableSize_eq_zero (maxNode : Int32) : tableSize maxNode = 0 ↔ maxNode = 0 := by
  have hlo := maxNode.le_toInt
  have hhi := maxNode.toInt_lt
  rw [← Int32.toInt_inj, Int32.toInt_zero]
  unfold tableSize nodeSize
  constructor
  · intro h
    have hbound : |maxNode.toInt * (160 : Nat)| < 2 ^ 64 := by
      rw [abs_lt]
      clear h
      constructor <;> omega
    have hmod : maxNode.toInt * (160 : Nat) % 2 ^ 64 = 0 :=
      le_antisymm (Int.toNat_eq_zero.1 h) (Int.emod_nonneg _ (by norm_num))
    have := Int.eq_zero_of_abs_lt_dvd (Int.dvd_of_emod_eq_zero hmod) hbound
    clear h hbound hmod
    omega
  · intro h
    rw [h, zero_mul, Int.zero_emod, Int.toNat_zero]

/-- The exits of `ShmWrite` behind an attachment. -/
theorem shmWrite_attached (o : SecKeyShm) (a : Address) (mem : Nat → NodeSHMInfo) (info : NodeSHMInfo) :
    (∃ i, (o.Finds mem info.sameIds ↔ i < o.requested) ∧ ¬ o.Misses mem info.sameIds ∧
      o.shmWrite (some a) mem info = (0, ⟨{ o with ptr := a.val }, Function.update mem i info,
        .shmat true :: (looks (i + 1) ++ [.store i, .shmdt])⟩)) ∨
    (o.Misses mem info.sameIds ∧
      ∃ i, (o.Finds mem NodeSHMInfo.isBlank ↔ i < o.requested) ∧ ¬ o.Misses mem NodeSHMInfo.isBlank ∧
        o.shmWrite (some a) mem info = (0, ⟨{ o with ptr := a.val }, Function.update mem i info,
          .shmat true :: (looks o.nodes ++ looks (i + 1) ++ [.store i, .shmdt, .shmdt])⟩)) ∨
    (o.Misses mem info.sameIds ∧ o.Misses mem NodeSHMInfo.isBlank ∧
      o.shmWrite (some a) mem info = (-1, ⟨{ o with ptr := a.val }, mem,
        .shmat true :: (looks o.nodes ++ looks o.nodes ++ [.shmdt])⟩)) := by
  -- the loops do not look at the pointer
  have hloop : ({ o with ptr := a.val } : SecKeyShm).nodes = o.nodes := rfl
  rcases o.scan_nodes mem info.sameIds with ⟨i, -, -, hfinds, hmiss, hscan⟩ | ⟨hmiss, hscan⟩
  · refine .inl ⟨i, hfinds, hmiss, ?_⟩
    simp only [shmWrite, mapShm_some, a.ne_null, if_false, hloop, hscan]
  · rcases o.scan_nodes mem NodeSHMInfo.isBlank with ⟨i, -, -, hfinds, hnone, hblank⟩ | ⟨hnone, hblank⟩
    · refine .inr (.inl ⟨hmiss, i, hfinds, hnone, ?_⟩)
      simp only [shmWrite, mapShm_some, a.ne_null, if_false, hloop, hscan, hblank]
    · refine .inr (.inr ⟨hmiss, hnone, ?_⟩)
      simp only [shmWrite, mapShm_some, a.ne_null, if_false, hloop, hscan, hblank]

/-- The exits of `ShmRead` behind an attachment. -/
theorem shmRead_attached (o : SecKeyShm) (a : Address) (mem : Nat → NodeSHMInfo) (clientId serverId : List UInt8) :
    (∃ i < o.nodes, (o.Finds mem (·.hasIds clientId serverId) ↔ i < o.requested) ∧
      o.shmRead (some a) mem clientId serverId = (mem i, ⟨{ o with ptr := a.val }, mem,
        .shmat true :: (looks (i + 1) ++ [.access i, .shmdt])⟩)) ∨
    (o.Misses mem (·.hasIds clientId serverId) ∧ o.shmRead (some a) mem clientId serverId =
      (.blank, ⟨{ o with ptr := a.val }, mem, .shmat true :: (looks o.nodes ++ [.shmdt])⟩)) := by
  have hloop : ({ o with ptr := a.val } : SecKeyShm).nodes = o.nodes := rfl
  rcases o.scan_nodes mem (·.hasIds clientId serverId) with ⟨i, hi, -, hfinds, -, hscan⟩ | ⟨hmiss, hscan⟩
  · refine .inl ⟨i, hi, hfinds, ?_⟩
    simp only [shmRead, mapShm_some, a.ne_null, if_false, hloop, hscan]
  · refine .inr ⟨hmiss, ?_⟩
    simp only [shmRead, mapShm_some, a.ne_null, if_false, hloop, hscan]

/-! ## One call -/

theorem guarded_initShm (o : SecKeyShm) : Guarded o.requested false o.initShm ↔ o.ptr = 0 ∨ o.maxNode = 0 := by
  unfold initShm
  split
  · rename_i hptr
    simp [Guarded, tableSize_eq_zero, hptr]
  · rename_i hptr
    exact iff_of_true rfl (.inl (not_not.1 hptr))

theorem guarded_shmWrite (o : SecKeyShm) (attached : Option Address) (mem : Nat → NodeSHMInfo) (info : Terminated) :
    Guarded o.requested false (o.shmWrite attached mem info.toNodeSHMInfo).2.events ↔
    o.Careful (.shmWrite attached mem info) := by
  cases attached with
  | none => exact iff_of_true ⟨rfl, rfl⟩ (.inl rfl)
  | some a =>
    rw [Careful, or_iff_right (Option.some_ne_none a)]
    rcases o.shmWrite_attached a mem info.toNodeSHMInfo with
      ⟨i, hfinds, hmiss, hw⟩ | ⟨hmiss, i, hfinds, hnone, hw⟩ | ⟨hmiss, hnone, hw⟩
    · rw [hw, hfinds, or_iff_left fun h => hmiss h.2.1, Guarded, guarded_found]
      exact and_iff_right rfl
    · rw [hw, or_iff_right hmiss.not_finds]
      refine iff_of_false ?_ fun h => hnone h.2.2
      -- the second `unmapShm`
      simp [Guarded, guarded_looks]
    · rw [hw, or_iff_right hmiss.not_finds]
      simp [Guarded, guarded_looks, hmiss, hnone]

theorem guarded_shmRead (o : SecKeyShm) (attached : Option Address) (mem : Nat → NodeSHMInfo)
    (clientId serverId : List UInt8) : Guarded o.requested false (o.shmRead attached mem clientId serverId).2.events ↔
      o.Careful (.shmRead attached mem clientId serverId) := by
  cases attached with
  | none => exact iff_of_true ⟨rfl, rfl⟩ (.inl rfl)
  | some a =>
    rw [Careful, or_iff_right (Option.some_ne_none a)]
    rcases o.shmRead_attached a mem clientId serverId with ⟨i, hi, hfinds, hr⟩ | ⟨hmiss, hr⟩
    · rw [hr, hfinds]
      simp only [Guarded, guarded_looks, true_and, and_true]
      omega
    · rw [hr, or_iff_right hmiss.not_finds]
      simp [Guarded, guarded_looks]

theorem guarded_call (o : SecKeyShm) (c : Call) : Guarded o.requested false (o.call c).2 ↔ o.Careful c := by
  cases c with
  | initShm => exact o.guarded_initShm
  | shmWrite attached mem info => exact o.guarded_shmWrite attached mem info
  | shmRead attached mem clientId serverId => exact o.guarded_shmRead attached mem clientId serverId

/-- A call leaves the size of the segment as it is. -/
theorem requested_call (o : SecKeyShm) (c : Call) : (o.call c).1.requested = o.requested := by
  cases c with
  | initShm => rfl
  | shmWrite attached mem info =>
    show (o.shmWrite attached mem info.toNodeSHMInfo).2.object.requested = o.requested
    cases attached with
    | none => rfl
    | some a =>
      rcases o.shmWrite_attached a mem info.toNodeSHMInfo with ⟨i, -, -, hw⟩ | ⟨-, i, -, -, hw⟩ | ⟨-, -, hw⟩
        <;> rw [hw] <;> rfl
  | shmRead attached mem clientId serverId =>
    show (o.shmRead attached mem clientId serverId).2.object.requested = o.requested
    cases attached with
    | none => rfl
    | some a =>
      rcases o.shmRead_attached a mem clientId serverId with ⟨i, -, -, hr⟩ | ⟨-, hr⟩ <;> rw [hr] <;> rfl

/-! ## All calls -/

theorem guarded_traces (o : SecKeyShm) (calls : List Call) :
    (∀ es ∈ o.traces calls, Guarded o.requested false es) ↔ o.AllCareful calls := by
  induction calls generalizing o with
  | nil => exact iff_of_true (by simp [traces]) trivial
  | cons c cs ih =>
    rw [traces, List.forall_mem_cons, AllCareful, guarded_call, ← requested_call o c, ih]

/-- A call that reports 0 and has written node `i` is truthful when that is in the segment. -/
theorem truthful_stored {object : SecKeyShm} {events : List Event} {info : NodeSHMInfo}
    (hstore : ∀ j, .store j ∈ events ↔ j = i) :
    o.Truthful mem info (0, ⟨object, Function.update mem i info, events⟩) ↔ i < o.requested := by
  constructor
  · rintro ⟨h, -⟩
    obtain ⟨j, hj, hmem, -⟩ := h.1 rfl
    rwa [← (hstore j).1 hmem]
  · intro hi
    exact ⟨iff_of_true rfl ⟨i, hi, (hstore i).2 rfl, Function.update_self ..⟩, fun h => absurd rfl h⟩

theorem truthful_iff (o : SecKeyShm) (attached : Option Address) (mem : Nat → NodeSHMInfo) (info : NodeSHMInfo) :
    o.Truthful mem info (o.shmWrite attached mem info) ↔ attached ≠ none ∧
      (o.Misses mem info.sameIds ∨ o.Finds mem info.sameIds) ∧
      (o.Misses mem info.sameIds → o.Misses mem NodeSHMInfo.isBlank ∨ o.Finds mem NodeSHMInfo.isBlank) := by
  cases attached with
  | none =>
    refine iff_of_false ?_ fun h => h.1 rfl
    rintro ⟨h, -⟩
    obtain ⟨i, -, hstore, -⟩ := h.1 rfl
    cases hstore with
    | tail _ h => cases h
  | some a =>
    rw [and_iff_right (Option.some_ne_none a)]
    rcases o.shmWrite_attached a mem info with
      ⟨i, hfinds, hmiss, hw⟩ | ⟨hmiss, i, hfinds, hnone, hw⟩ | ⟨hmiss, hnone, hw⟩
    · rw [hw, truthful_stored (by simp), ← hfinds]
      tauto
    · rw [hw, truthful_stored (by simp), ← hfinds]
      tauto
    · rw [hw]
      have hret : (-1 : Int) ≠ 0 := by decide
      refine iff_of_true ⟨iff_of_false hret ?_, fun _ => rfl⟩ ⟨.inl hmiss, fun _ => .inl hnone⟩
      simp

end Calls

/-! ## The table -/

/-- The nodes that the loops look at. -/
def table (o : SecKeyShm) (mem : Nat → NodeSHMInfo) : List NodeSHMInfo := (List.range o.nodes).map mem

theorem findIdx?_table (o : SecKeyShm) (mem : Nat → NodeSHMInfo) (test : NodeSHMInfo → Bool) :
    (o.table mem).findIdx? test = (scan test mem o.nodes).2 := by
  unfold table
  rcases scan_cases test mem o.nodes with ⟨i, hi, htest, hbefore, hscan⟩ | ⟨hmiss, hscan⟩
  · rw [hscan, List.findIdx?_eq_some_iff_getElem]
    refine ⟨by simpa using hi, by simpa using htest, fun j hj => ?_⟩
    simp [hbefore j hj]
  · rw [hscan, List.findIdx?_eq_none_iff]
    intro node hnode
    obtain ⟨k, hk, rfl⟩ := List.mem_map.1 hnode
    exact hmiss k (List.mem_range.1 hk)

theorem table_update (o : SecKeyShm) (mem : Nat → NodeSHMInfo) (i : Nat) (info : NodeSHMInfo) :
    o.table (Function.update mem i info) = (o.table mem).set i info := by
  refine List.ext_getElem? fun k => ?_
  simp only [table, List.getElem?_set, List.getElem?_map, List.length_map, List.length_range]
  by_cases hk : k < o.nodes
  · by_cases hik : i = k
    · subst hik
      simp [hk]
    · simp [hk, hik, Ne.symm hik]
  · simp [hk]
    omega

/-- With an attachment `ShmWrite` is the operation on the table. -/
theorem shmWrite_table (o : SecKeyShm) (a : Address) (mem : Nat → NodeSHMInfo) (info : NodeSHMInfo) :
    ((o.shmWrite (some a) mem info).1, o.table (o.shmWrite (some a) mem info).2.mem) =
      Shm.shmWrite info (o.table mem) := by
  have hloop : ({ o with ptr := a.val } : SecKeyShm).nodes = o.nodes := rfl
  have hsame : (o.table mem).findIdx? (fun temp => temp.hasIds info.clientID.toList info.serverID.toList) =
      (scan info.sameIds mem o.nodes).2 := o.findIdx?_table mem info.sameIds
  have hblank : (o.table mem).findIdx? (fun temp => temp == .blank) = (scan NodeSHMInfo.isBlank mem o.nodes).2 :=
    o.findIdx?_table mem NodeSHMInfo.isBlank
  unfold Shm.shmWrite
  rw [hsame, hblank]
  simp only [shmWrite, mapShm_some, a.ne_null, if_false, hloop]
  rcases scan info.sameIds mem o.nodes with ⟨es, _ | i⟩
  · rcases scan NodeSHMInfo.isBlank mem o.nodes with ⟨es', _ | i⟩
    · rfl
    · simp only [table_update]
  · simp only [table_update]

/-- An object of the key constructor looks at the nodes of its segment, unless their size is no `int`. -/
theorem nodes_key {maxNode : Int32} (h0 : 0 ≤ maxNode.toInt) (hint : maxNode.toInt * nodeSize < 2 ^ 31) (ptr : UInt64)
    (garbage : Int32) :
    (construct ptr garbage (.key maxNode)).nodes = (construct ptr garbage (.key maxNode)).requested := by
  have hfits : ∀ n : Int, 0 ≤ n → n < 2 ^ 31 → n % 2 ^ 64 = n := fun n h h' => Int.emod_eq_of_lt h (by omega)
  have hsize : (tableSize maxNode : Int) = maxNode.toInt * nodeSize := by
    have hpos : 0 ≤ maxNode.toInt * nodeSize := mul_nonneg h0 (Int.natCast_nonneg _)
    rw [tableSize, hfits _ hpos hint, Int.toNat_of_nonneg hpos]
  have hrequested : (Int32.ofNat (tableSize maxNode)).toInt = maxNode.toInt * nodeSize := by
    rw [Int32.toInt_ofNat_of_lt (by omega), hsize]
  show maxNode.toInt.toNat = ((Int32.ofNat (tableSize maxNode)).toInt % 2 ^ 64).toNat / nodeSize
  rw [hrequested, hfits _ (mul_nonneg h0 (Int.natCast_nonneg _)) hint, nodeSize]
  omega

/-! ## When the calls keep to their attachments -/

/-- Every call touches the segment only while it is attached, and detaches it once, exactly when no `InitShm`
finds a pointer and a number of nodes other than 0, and each `ShmWrite` and `ShmRead` finds the segment not
attached, or the ids in the segment, or no node beyond it and, when it writes, none that is blank. -/
theorem guarded_exact (ctor : Constructor) (ptr : UInt64) (garbage : Int32) (calls : List Call) :
    (∀ es ∈ (construct ptr garbage ctor).traces calls, Guarded (construct ptr garbage ctor).requested false es) ↔
      (construct ptr garbage ctor).AllCareful calls :=
  guarded_traces _ calls

theorem blank_nul : 0 ∈ NodeSHMInfo.blank.serverID.toList := by decide

/-- The record of a client with a one-letter id. -/
def keyA : Terminated := { NodeSHMInfo.blank with
  clientID := .ofFn fun i => if i = 0 then 97 else 0
  clientID_nul := by decide
  serverID_nul := blank_nul }

/-- A record in a blank node is followed by two calls of `shmdt`. -/
theorem detached_twice : ¬ ∀ (ctor : Constructor) (ptr : UInt64) (garbage : Int32) (calls : List Call),
    ∀ es ∈ (construct ptr garbage ctor).traces calls, Guarded (construct ptr garbage ctor).requested false es := by
  intro h
  have hes : (construct 0 0 (.key 1)).traces [.shmWrite (some ⟨4096, by decide, by decide⟩) (fun _ => .blank) keyA] =
    [[.shmat true, .access 0, .access 0, .store 0, .shmdt, .shmdt]] := by decide +kernel
  have := h (.key 1) 0 0 [.shmWrite (some ⟨4096, by decide, by decide⟩) (fun _ => .blank) keyA]
  rw [hes] at this
  simp [Guarded] at this

/-- The result of `ShmWrite` matches what it does exactly when the segment is attached and the node that the
record belongs into, if there is one, is in the segment. -/
theorem truthful_exact (ctor : Constructor) (ptr : UInt64) (garbage : Int32) (attached : Option Address)
    (mem : Nat → NodeSHMInfo) (info : Terminated) :
    let o := construct ptr garbage ctor
    o.Truthful mem info.toNodeSHMInfo (o.shmWrite attached mem info.toNodeSHMInfo) ↔ attached ≠ none ∧
      (o.Misses mem info.sameIds ∨ o.Finds mem info.sameIds) ∧
      (o.Misses mem info.sameIds → o.Misses mem NodeSHMInfo.isBlank ∨ o.Finds mem NodeSHMInfo.isBlank) :=
  truthful_iff _ attached mem info.toNodeSHMInfo

/-- Without an attachment 0 is returned and nothing is written. -/
theorem unattached_returns_zero : ¬ ∀ (ctor : Constructor) (ptr : UInt64) (garbage : Int32) (attached : Option Address)
    (mem : Nat → NodeSHMInfo) (info : Terminated), (construct ptr garbage ctor).Truthful mem info.toNodeSHMInfo
      ((construct ptr garbage ctor).shmWrite attached mem info.toNodeSHMInfo) := by
  intro h
  obtain ⟨i, -, hstore, -⟩ := (h (.key 1) 0 0 none (fun _ => .blank) keyA).1.1 rfl
  revert hstore
  simp [shmWrite, mapShm_none]

end SecKeyShm

end LinuxProgram.Shm
