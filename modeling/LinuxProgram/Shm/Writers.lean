/-
Processes that write into one segment at the same time. Nothing keeps the others away between the
comparison that finds a slot blank and the copy into it: a record is lost when two writers have found
the same slot blank, and never otherwise.
-/
import LinuxProgram.Machine.Reach
import LinuxProgram.Shm.SecKeyShm

namespace LinuxProgram.Shm

open LinuxProgram.Data LinuxProgram.Machine

/-! ## The steps of `ShmWrite` -/

/-- Where a `ShmWrite` call stands: at a comparison of a slot, or in front of a copy into it. -/
inductive Pc where
  | keyTest (i : Nat)
  | cover (i : Nat)
  | blankTest (i : Nat)
  | write (i : Nat)
  deriving DecidableEq, Repr

/-- A process: the records it will write, its call, and what its calls have returned. -/
structure Writer where
  todo : List Record
  call : Option (Record × Pc)
  returned : List (Record × Int)

def Writer.ret (w : Writer) (info : Record) (r : Int) : Writer :=
  { w with call := none, returned := w.returned ++ [(info, r)] }

/-- One step of a process: a comparison of one slot or the copy of one record. -/
def Writer.step (slots : List NodeSHMInfo) (w : Writer) : Option (List NodeSHMInfo × Writer) :=
  match w.call with
  | none =>
    match w.todo with
    | [] => none
    | info :: rest => some (slots, { w with todo := rest, call := some (info, .keyTest 0) })
  | some (info, .keyTest i) =>
    match slots[i]? with
    | some temp =>
      if temp.hasIds info.clientID.toList info.serverID.toList then
        some (slots, { w with call := some (info, .cover i) })
      else some (slots, { w with call := some (info, .keyTest (i + 1)) })
    | none => some (slots, { w with call := some (info, .blankTest 0) })
  | some (info, .cover i) => some (slots.set i info.toNodeSHMInfo, w.ret info 0)
  | some (info, .blankTest i) =>
    match slots[i]? with
    | some temp =>
      if temp == .blank then some (slots, { w with call := some (info, .write i) })
      else some (slots, { w with call := some (info, .blankTest (i + 1)) })
    | none => some (slots, w.ret info (-1))
  | some (info, .write i) => some (slots.set i info.toNodeSHMInfo, w.ret info 0)

/-- The segment and the processes that are attached to it. -/
structure Shared where
  slots : List NodeSHMInfo
  writers : List Writer

/-- A step of the `i`-th process. -/
def step (s : Shared) (i : Nat) : Option Shared :=
  s.writers[i]?.bind fun w => (w.step s.slots).map fun (slots, w') => ⟨slots, s.writers.set i w'⟩

/-- What the processes are to write: records with different ids, none of which is in the segment. -/
structure Workload where
  slots : List NodeSHMInfo
  todos : List (List Record)
  table : ∀ (i j : Nat) (node node' : NodeSHMInfo), slots[i]? = some node → slots[j]? = some node' → i ≠ j →
    node.ids = node'.ids → node = .blank ∧ node' = .blank
  distinct : (todos.flatMap fun todo => todo.map fun info => info.ids).Nodup
  fresh : ∀ todo ∈ todos, ∀ info ∈ todo, ∀ node ∈ slots, node.ids ≠ info.ids

def Workload.start (load : Workload) : Shared where
  slots := load.slots
  writers := load.todos.map fun todo => ⟨todo, none, []⟩

/-- Every record whose `ShmWrite` has returned 0 is in the segment, and no pair of ids is in two slots. -/
structure NoneLost (s : Shared) : Prop where
  present : ∀ w ∈ s.writers, ∀ info, (info, 0) ∈ w.returned → info.toNodeSHMInfo ∈ s.slots
  once : ∀ (i j : Nat) (node node' : NodeSHMInfo), s.slots[i]? = some node → s.slots[j]? = some node' → i ≠ j →
    node.ids = node'.ids → node = .blank ∧ node' = .blank

/-- When the process finds a slot blank, no other process has found it blank and not yet written it. -/
def Alone (s : Shared) (i : Nat) : Prop :=
  ∀ w info k, s.writers[i]? = some w → w.call = some (info, .blankTest k) → s.slots[k]? = some .blank →
    ∀ i' w' info', i' ≠ i → s.writers[i']? = some w' → w'.call ≠ some (info', .write k)

/-! ## One process alone -/

/-- The steps of one process, with the segment to itself. -/
def stepAlone (p : List NodeSHMInfo × Writer) (_ : Unit) : Option (List NodeSHMInfo × Writer) := p.2.step p.1

def Writer.at (w : Writer) (info : Record) (pc : Pc) : Writer := { w with call := some (info, pc) }

/-- A loop over the slots, from its test of the first to the first that passes or to the end. -/
theorem reach_scan {slots : List NodeSHMInfo} {w : Writer} {info : Record} {test hit : Nat → Pc}
    {pass : NodeSHMInfo → Bool} (hstep : ∀ k temp, slots[k]? = some temp → (w.at info (test k)).step slots =
      some (slots, w.at info (if pass temp then hit k else test (k + 1)))) :
    Reach stepAlone (slots, w.at info (test 0)) (slots, w.at info (match slots.findIdx? pass with
      | some k => hit k
      | none => test slots.length)) := by
  have hrun : ∀ suf pre, slots = pre ++ suf → Reach stepAlone (slots, w.at info (test pre.length))
      (slots, w.at info (match suf.findIdx? pass with
        | some k => hit (pre.length + k)
        | none => test (pre.length + suf.length))) := by
    intro suf
    induction suf with
    | nil => exact fun pre _ => Reach.refl _
    | cons temp suf ih =>
      intro pre hslots
      have hk : slots[pre.length]? = some temp := by
        rw [hslots, List.getElem?_append_right (le_refl _), Nat.sub_self]
        rfl
      have hone := hstep pre.length temp hk
      rw [List.findIdx?_cons]
      by_cases hp : pass temp = true
      · rw [if_pos hp] at hone ⊢
        exact Reach.cons (a := ()) hone (Reach.refl _)
      · rw [if_neg hp] at hone ⊢
        have hnext := ih (pre ++ [temp]) (by rw [hslots, List.append_assoc]; rfl)
        rw [List.length_append, List.length_singleton] at hnext
        refine Reach.cons (a := ()) hone ?_
        cases hfind : suf.findIdx? pass with
        | none =>
          rw [hfind] at hnext
          rw [List.length_cons, Nat.add_comm suf.length 1, ← Nat.add_assoc]
          exact hnext
        | some k =>
          rw [hfind] at hnext
          show Reach stepAlone _ (slots, w.at info (hit (pre.length + (k + 1))))
          rw [Nat.add_comm k 1, ← Nat.add_assoc]
          exact hnext
  have hall := hrun slots [] rfl
  simp only [List.length_nil, Nat.zero_add] at hall
  exact hall

/-- A call that runs alone writes what `ShmWrite` writes, and returns what it returns. -/
theorem reach_shmWrite (slots : List NodeSHMInfo) (w : Writer) (info : Record) :
    Reach stepAlone (slots, w.at info (.keyTest 0))
      ((shmWrite info.toNodeSHMInfo slots).2, w.ret info (shmWrite info.toNodeSHMInfo slots).1) := by
  have hkeys := @reach_scan slots w info .keyTest .cover
    (fun temp => temp.hasIds info.clientID.toList info.serverID.toList) (by
      intro k temp hk
      simp only [Writer.step, Writer.at, hk]
      split <;> rfl)
  have hblanks := @reach_scan slots w info .blankTest .write (fun temp => temp == .blank) (by
    intro k temp hk
    simp only [Writer.step, Writer.at, hk]
    split <;> rfl)
  unfold shmWrite
  cases hfind : slots.findIdx? fun temp => temp.hasIds info.clientID.toList info.serverID.toList with
  | some k =>
    rw [hfind] at hkeys
    exact hkeys.snoc (a := ()) rfl
  | none =>
    rw [hfind] at hkeys
    have hend : stepAlone (slots, w.at info (.keyTest slots.length)) () = some (slots, w.at info (.blankTest 0)) := by
      simp only [stepAlone, Writer.step, Writer.at, List.getElem?_eq_none (le_refl slots.length)]
    have hkeys := (hkeys.snoc hend).trans hblanks
    cases hblank : slots.findIdx? fun temp => temp == .blank with
    | some k =>
      rw [hblank] at hkeys
      exact hkeys.snoc (a := ()) rfl
    | none =>
      rw [hblank] at hkeys
      refine hkeys.snoc (a := ()) ?_
      simp only [stepAlone, Writer.step, Writer.at, List.getElem?_eq_none (le_refl slots.length)]
      rfl

/-! ## What a step does -/

/-- The ids of the records of a process, in the order of its calls. -/
def Writer.ids (w : Writer) : List (List UInt8 × List UInt8) :=
  w.returned.map (fun x => x.1.ids) ++ (w.call.toList.map (fun x => x.1.ids) ++ w.todo.map fun info => info.ids)

/-- A step copies the record of the call into a slot and returns 0, or leaves the segment and what has
returned 0 as they are. -/
inductive Moves (slots : List NodeSHMInfo) (w : Writer) : List NodeSHMInfo → Writer → Prop where
  | copy (info : Record) (k : Nat) (pc : Pc) (h : w.call = some (info, pc)) (hpc : pc = .cover k ∨ pc = .write k) :
    Moves slots w (slots.set k info.toNodeSHMInfo) (w.ret info 0)
  | other (w' : Writer) (hids : w'.ids = w.ids) (hret : ∀ info, (info, 0) ∈ w'.returned ↔ (info, 0) ∈ w.returned)
    (hcover : ∀ info k, w'.call = some (info, .cover k) → w.call = some (info, .keyTest k) ∧
      ∃ node, slots[k]? = some node ∧ node.ids = info.ids)
    (hwrite : ∀ info k, w'.call = some (info, .write k) → w.call = some (info, .blankTest k) ∧
      slots[k]? = some .blank) : Moves slots w slots w'

theorem Writer.step_moves {slots slots' : List NodeSHMInfo} {w w' : Writer} (h : w.step slots = some (slots', w')) :
    Moves slots w slots' w' := by
  obtain ⟨todo, call, returned⟩ := w
  unfold Writer.step at h
  rcases call with _ | ⟨info, i | i | i | i⟩
  · cases todo with
    | nil => cases h
    | cons info rest =>
      cases h
      exact .other _ rfl (fun _ => Iff.rfl) (by simp) (by simp)
  · dsimp only at h
    split at h
    · rename_i temp hi
      split at h
      · rename_i hids
        cases h
        refine .other _ rfl (fun _ => Iff.rfl) (fun info' k he => ?_) (by simp)
        cases he
        exact ⟨rfl, temp, hi, hasIds_iff.1 hids⟩
      · cases h
        exact .other _ rfl (fun _ => Iff.rfl) (by simp) (by simp)
    · cases h
      exact .other _ rfl (fun _ => Iff.rfl) (by simp) (by simp)
  · cases h
    exact .copy info i _ rfl (.inl rfl)
  · dsimp only at h
    split at h
    · rename_i temp hi
      split at h
      · rename_i hb
        cases h
        refine .other _ rfl (fun _ => Iff.rfl) (by simp) fun info' k he => ?_
        cases he
        exact ⟨rfl, hi.trans (congrArg some (beq_iff_eq.1 hb))⟩
      · cases h
        exact .other _ rfl (fun _ => Iff.rfl) (by simp) (by simp)
    · cases h
      refine .other _ ?_ (fun _ => by simp [Writer.ret]) (by simp [Writer.ret]) (by simp [Writer.ret])
      simp [Writer.ids, Writer.ret]
  · cases h
    exact .copy info i _ rfl (.inr rfl)

theorem Moves.ids_eq {slots slots' : List NodeSHMInfo} {w w' : Writer} (h : Moves slots w slots' w') :
    w'.ids = w.ids := by
  cases h with
  | copy info k pc h _ => simp [Writer.ids, Writer.ret, h]
  | other _ hids => exact hids

theorem step_moves {s s' : Shared} {i : Nat} (h : step s i = some s') :
    ∃ w w', s.writers[i]? = some w ∧ s'.writers = s.writers.set i w' ∧ Moves s.slots w s'.slots w' := by
  obtain ⟨w, hi, hw⟩ := Option.bind_eq_some_iff.1 h
  obtain ⟨⟨slots', w'⟩, hstep, rfl⟩ := Option.map_eq_some_iff.1 hw
  exact ⟨w, w', hi, rfl, Writer.step_moves hstep⟩

/-! ## What holds in every run -/

/-- The ids of the records of a process that its calls have not returned for. -/
def Writer.pending (w : Writer) : List (List UInt8 × List UInt8) :=
  w.call.toList.map (fun x => x.1.ids) ++ w.todo.map fun info => info.ids

/-- The records keep their processes, and what is in the segment was there at the start or has been
written by a call that returned 0. -/
structure Tracked (load : Workload) (s : Shared) : Prop where
  distinct : (s.writers.flatMap Writer.ids).Nodup
  fresh : ∀ w ∈ s.writers, ∀ ids ∈ w.ids, ∀ node ∈ load.slots, node.ids ≠ ids
  origin : ∀ node ∈ s.slots, node ∈ load.slots ∨
    ∃ w ∈ s.writers, ∃ info : Record, (info, 0) ∈ w.returned ∧ node = info.toNodeSHMInfo
  once : ∀ (i j : Nat) (node node' : NodeSHMInfo), s.slots[i]? = some node → s.slots[j]? = some node' → i ≠ j →
    node.ids = node'.ids → node = .blank ∧ node' = .blank
  noCover : ∀ w ∈ s.writers, ∀ info k, w.call ≠ some (info, .cover k)

variable {load : Workload} {s s' : Shared}

theorem mem_ids_of_returned {w : Writer} {info : Record} {r : Int} (h : (info, r) ∈ w.returned) : info.ids ∈ w.ids :=
  List.mem_append_left _ (List.mem_map.2 ⟨(info, r), h, rfl⟩)

theorem mem_pending_of_call {w : Writer} {info : Record} {pc : Pc} (h : w.call = some (info, pc)) :
    info.ids ∈ w.pending := by
  refine List.mem_append_left _ ?_
  rw [h]
  exact List.mem_singleton_self _

theorem mem_ids_of_pending {w : Writer} {ids : List UInt8 × List UInt8} (h : ids ∈ w.pending) : ids ∈ w.ids :=
  List.mem_append_right _ h

/-- Different processes have different ids. -/
theorem Tracked.ids_apart (h : Tracked load s) {i j : Nat} {w w' : Writer} (hi : s.writers[i]? = some w)
    (hj : s.writers[j]? = some w') (hne : i ≠ j) {ids : List UInt8 × List UInt8} (hmem : ids ∈ w.ids) :
    ids ∉ w'.ids := by
  have hpair := List.pairwise_iff_getElem.1 (List.nodup_flatMap.1 h.distinct).2
  obtain ⟨hilt, rfl⟩ := List.getElem?_eq_some_iff.1 hi
  obtain ⟨hjlt, rfl⟩ := List.getElem?_eq_some_iff.1 hj
  rcases Nat.lt_or_gt_of_ne hne with hlt | hlt
  · exact fun hmem' => hpair i j hilt hjlt hlt hmem hmem'
  · exact fun hmem' => hpair j i hjlt hilt hlt hmem' hmem

/-- A record that is still to be written has other ids than any that has been returned for. -/
theorem Tracked.pending_ne_returned (h : Tracked load s) {w w' : Writer} (hw : w ∈ s.writers) (hw' : w' ∈ s.writers)
    {ids : List UInt8 × List UInt8} (hp : ids ∈ w.pending) {info : Record} {r : Int} (hr : (info, r) ∈ w'.returned) :
    info.ids ≠ ids := by
  rintro rfl
  obtain ⟨i, hi⟩ := List.mem_iff_getElem?.1 hw
  obtain ⟨j, hj⟩ := List.mem_iff_getElem?.1 hw'
  by_cases hij : i = j
  · subst hij
    obtain rfl := Option.some.inj (hi.symm.trans hj)
    have hnodup : w.ids.Nodup := (List.nodup_flatMap.1 h.distinct).1 w hw
    exact (List.nodup_append.1 hnodup).2.2 _ (List.mem_map.2 ⟨_, hr, rfl⟩) _ hp rfl
  · exact h.ids_apart hi hj hij (mem_ids_of_pending hp) (mem_ids_of_returned hr)

/-- and than any record in the segment. -/
theorem Tracked.pending_notMem (h : Tracked load s) {w : Writer} (hw : w ∈ s.writers) {ids : List UInt8 × List UInt8}
    (hp : ids ∈ w.pending) : ∀ node ∈ s.slots, node.ids ≠ ids := by
  intro node hnode
  rcases h.origin node hnode with hload | ⟨w', hw', info, hret, rfl⟩
  · exact h.fresh w hw ids (mem_ids_of_pending hp) node hload
  · exact h.pending_ne_returned hw hw' hp hret

theorem tracked_start (load : Workload) : Tracked load load.start where
  distinct := by
    have hids : load.start.writers.flatMap Writer.ids = load.todos.flatMap fun todo => todo.map fun info =>
        info.ids := by
      show (load.todos.map fun todo => (⟨todo, none, []⟩ : Writer)).flatMap Writer.ids = _
      rw [List.flatMap_map]
      rfl
    rw [hids]
    exact load.distinct
  fresh := by
    intro w hw ids hids
    obtain ⟨todo, htodo, rfl⟩ := List.mem_map.1 hw
    obtain ⟨info, hinfo, rfl⟩ : ∃ info ∈ todo, info.ids = ids := List.mem_map.1 hids
    exact load.fresh todo htodo info hinfo
  origin := fun node hnode => .inl hnode
  once := load.table
  noCover := by
    intro w hw info k h
    obtain ⟨todo, -, rfl⟩ := List.mem_map.1 hw
    cases h

/-- Replacing a process by one with the same ids. -/
theorem map_ids_set {ws : List Writer} {i : Nat} {w w' : Writer} (hi : ws[i]? = some w) (hids : w'.ids = w.ids) :
    (ws.set i w').map Writer.ids = ws.map Writer.ids := by
  refine List.ext_getElem? fun j => ?_
  rw [List.getElem?_map, List.getElem?_map]
  by_cases hij : i = j
  · subst hij
    rw [List.getElem?_set_self (List.getElem?_eq_some_iff.1 hi).1, hi, Option.map_some, Option.map_some, hids]
  · rw [List.getElem?_set_ne hij]

/-- What has been returned stays returned. -/
theorem returned_mono {i : Nat} {w w' : Writer} (hi : s.writers[i]? = some w) (hws : s'.writers = s.writers.set i w')
    (hm : Moves s.slots w s'.slots w') {u : Writer} (hu : u ∈ s.writers) :
    ∃ v ∈ s'.writers, ∀ info, (info, 0) ∈ u.returned → (info, 0) ∈ v.returned := by
  obtain ⟨slots', writers'⟩ := s'
  have hself : w' ∈ writers' := by
    rw [show writers' = _ from hws]
    exact List.mem_of_getElem? (List.getElem?_set_self (List.getElem?_eq_some_iff.1 hi).1)
  obtain ⟨j, hj⟩ := List.mem_iff_getElem?.1 hu
  by_cases hij : i = j
  · subst hij
    obtain rfl := Option.some.inj (hi.symm.trans hj)
    refine ⟨w', hself, fun info h => ?_⟩
    cases hm with
    | copy info' k pc _ _ => exact List.mem_append_left _ h
    | other _ _ hret => exact (hret info).2 h
  · refine ⟨u, ?_, fun _ h => h⟩
    rw [hws]
    exact List.mem_of_getElem? ((List.getElem?_set_ne hij).trans hj)

/-- A record copied into a slot is in no other slot, when its ids are in none. -/
theorem once_set {slots : List NodeSHMInfo} {info : NodeSHMInfo} (k : Nat)
    (h : ∀ (i j : Nat) (node node' : NodeSHMInfo), slots[i]? = some node → slots[j]? = some node' → i ≠ j →
      node.ids = node'.ids → node = .blank ∧ node' = .blank)
    (hnew : ∀ node ∈ slots, node.ids ≠ info.ids) (i j : Nat) (node node' : NodeSHMInfo)
    (hi : (slots.set k info)[i]? = some node) (hj : (slots.set k info)[j]? = some node') (hne : i ≠ j)
    (hids : node.ids = node'.ids) : node = .blank ∧ node' = .blank := by
  have hat : ∀ {i node}, (slots.set k info)[i]? = some node → i = k ∧ node = info ∨ slots[i]? = some node := by
    intro i node hi
    rw [List.getElem?_set] at hi
    split at hi
    · rename_i hki
      split at hi
      · exact .inl ⟨hki.symm, (Option.some.inj hi).symm⟩
      · cases hi
    · exact .inr hi
  rcases hat hi with ⟨rfl, rfl⟩ | hi' <;> rcases hat hj with ⟨rfl, rfl⟩ | hj'
  · exact absurd rfl hne
  · exact absurd hids.symm (hnew _ (List.mem_of_getElem? hj'))
  · exact absurd hids (hnew _ (List.mem_of_getElem? hi'))
  · exact h i j node node' hi' hj' hne hids

theorem Tracked.step (h : Tracked load s) {i : Nat} (hs : step s i = some s') : Tracked load s' := by
  obtain ⟨w, w', hi, hws, hm⟩ := step_moves hs
  have hw : w ∈ s.writers := List.mem_of_getElem? hi
  have hmem : ∀ {v}, v ∈ s'.writers → v = w' ∨ v ∈ s.writers := by
    intro v hv
    rw [hws] at hv
    exact (List.mem_or_eq_of_mem_set hv).symm
  have hkeep : ∀ {node : NodeSHMInfo}, node ∈ s.slots → node ∈ load.slots ∨
      ∃ v ∈ s'.writers, ∃ info : Record, (info, 0) ∈ v.returned ∧ node = info.toNodeSHMInfo := by
    intro node hnode
    refine (h.origin node hnode).imp_right ?_
    rintro ⟨u, hu, info, hret, rfl⟩
    obtain ⟨v, hv, hmono⟩ := returned_mono hi hws hm hu
    exact ⟨v, hv, info, hmono info hret, rfl⟩
  have hself : w' ∈ s'.writers := by
    rw [hws]
    exact List.mem_of_getElem? (List.getElem?_set_self (List.getElem?_eq_some_iff.1 hi).1)
  refine ⟨?_, fun v hv ids hids => ?_, fun node hnode => ?_, ?_, fun v hv info k hcall => ?_⟩
  · rw [hws, List.flatMap_def, map_ids_set hi hm.ids_eq, ← List.flatMap_def]
    exact h.distinct
  · rcases hmem hv with rfl | hv
    · rw [hm.ids_eq] at hids
      exact h.fresh w hw ids hids
    · exact h.fresh v hv ids hids
  · obtain ⟨slots', writers'⟩ := s'
    cases hm with
    | copy info k pc hcall hpc =>
      rcases List.mem_or_eq_of_mem_set hnode with hnode | rfl
      · exact hkeep hnode
      · exact .inr ⟨_, hself, info, List.mem_append_right _ (List.mem_singleton_self _), rfl⟩
    | other => exact hkeep hnode
  · obtain ⟨slots', writers'⟩ := s'
    cases hm with
    | copy info k pc hcall hpc => exact once_set k h.once (h.pending_notMem hw (mem_pending_of_call hcall))
    | other => exact h.once
  · rcases hmem hv with rfl | hv
    · obtain ⟨slots', writers'⟩ := s'
      cases hm with
      | copy info' k' pc _ _ => cases hcall
      | other _ _ _ hcover =>
        obtain ⟨hprev, node, hk, hids⟩ := hcover info k hcall
        exact h.pending_notMem hw (mem_pending_of_call hprev) node (List.mem_of_getElem? hk) hids
    · exact h.noCover v hv info k hcall

theorem tracked {load : Workload} (h : Reach Shm.step load.start s) : Tracked load s :=
  h.invariant (tracked_start load) fun _ _ _ hI hs => hI.step hs

/-! ## Runs in which the writers keep apart -/

/-- A slot that a process has found blank is blank until it writes it, and every returned record is in
the segment. -/
structure Kept (s : Shared) : Prop where
  reserved : ∀ {i : Nat} {w : Writer} {info : Record} {k : Nat}, s.writers[i]? = some w →
    w.call = some (info, .write k) → s.slots[k]? = some .blank
  single : ∀ {i i' : Nat} {w w' : Writer} {info info' : Record} {k : Nat}, s.writers[i]? = some w →
    s.writers[i']? = some w' → w.call = some (info, .write k) → w'.call = some (info', .write k) → i = i'
  present : ∀ w ∈ s.writers, ∀ info, (info, 0) ∈ w.returned → info.toNodeSHMInfo ∈ s.slots

theorem kept_start (load : Workload) : Kept load.start := by
  have hidle : ∀ {w}, w ∈ load.start.writers → w.call = none ∧ w.returned = [] := by
    intro w hw
    obtain ⟨todo, -, rfl⟩ := List.mem_map.1 hw
    exact ⟨rfl, rfl⟩
  refine ⟨fun hi hcall => ?_, fun hi _ hcall _ => ?_, fun w hw info hret => ?_⟩
  · rw [(hidle (List.mem_of_getElem? hi)).1] at hcall
    cases hcall
  · rw [(hidle (List.mem_of_getElem? hi)).1] at hcall
    cases hcall
  · rw [(hidle hw).2] at hret
    cases hret

/-- The copy of a record into the slot its process has found blank. -/
theorem Kept.copied (ht : Tracked load s) (h : Kept s) {i : Nat} {w : Writer} {info : Record} {k : Nat} {pc : Pc}
    (hi : s.writers[i]? = some w) (hcall : w.call = some (info, pc)) (hpc : pc = .cover k ∨ pc = .write k) :
    w.call = some (info, .write k) ∧ s.slots[k]? = some .blank ∧ info.toNodeSHMInfo ∈ s.slots.set k info.toNodeSHMInfo ∧
      ∀ u ∈ s.writers, ∀ info', (info', 0) ∈ u.returned → info'.toNodeSHMInfo ∈ s.slots.set k info.toNodeSHMInfo := by
  have hwrite : pc = .write k := hpc.resolve_left fun hc => ht.noCover w (List.mem_of_getElem? hi) info k (hc ▸ hcall)
  subst hwrite
  have hblank := h.reserved hi hcall
  refine ⟨hcall, hblank, List.mem_of_getElem? (List.getElem?_set_self (List.getElem?_eq_some_iff.1 hblank).1), ?_⟩
  intro u hu info' hret
  obtain ⟨j, hj⟩ := List.mem_iff_getElem?.1 (h.present u hu info' hret)
  have hkj : k ≠ j := by
    rintro rfl
    have hb : info'.toNodeSHMInfo = .blank := Option.some.inj (hj.symm.trans hblank)
    exact info'.ids_ne_blank (congrArg NodeSHMInfo.ids hb)
  exact List.mem_of_getElem? ((List.getElem?_set_ne hkj).trans hj)

theorem Kept.step (ht : Tracked load s) (h : Kept s) {i : Nat} (hok : Alone s i) (hs : step s i = some s') :
    Kept s' := by
  obtain ⟨w, w', hi, hws, hm⟩ := step_moves hs
  have hat : ∀ {j v}, s'.writers[j]? = some v → j = i ∧ v = w' ∨ j ≠ i ∧ s.writers[j]? = some v := by
    intro j v hj
    rw [hws] at hj
    by_cases hji : j = i
    · subst hji
      rw [List.getElem?_set_self (List.getElem?_eq_some_iff.1 hi).1] at hj
      exact .inl ⟨rfl, (Option.some.inj hj).symm⟩
    · rw [List.getElem?_set_ne (Ne.symm hji)] at hj
      exact .inr ⟨hji, hj⟩
  obtain ⟨slots', writers'⟩ := s'
  cases hm with
  | copy info k pc hcall hpc =>
    obtain ⟨hcall, hblank, hnew, hold⟩ := h.copied ht hi hcall hpc
    refine ⟨fun {j v info' k'} hj hv => ?_, fun {j j' v v' info' info'' k'} hj hj' hv hv' => ?_,
      fun v hv info' hret => ?_⟩
    · rcases hat hj with ⟨-, rfl⟩ | ⟨hji, hj⟩
      · cases hv
      · have hkk : k ≠ k' := by
          rintro rfl
          exact hji (h.single hj hi hv hcall)
        exact (List.getElem?_set_ne hkk).trans (h.reserved hj hv)
    · rcases hat hj with ⟨-, rfl⟩ | ⟨-, hj⟩
      · cases hv
      · rcases hat hj' with ⟨-, rfl⟩ | ⟨-, hj'⟩
        · cases hv'
        · exact h.single hj hj' hv hv'
    · obtain ⟨j, hj⟩ := List.mem_iff_getElem?.1 hv
      rcases hat hj with ⟨-, rfl⟩ | ⟨-, hj⟩
      · rcases List.mem_append.1 hret with hret | hret
        · exact hold w (List.mem_of_getElem? hi) info' hret
        · obtain ⟨rfl, -⟩ := Prod.mk.inj (List.mem_singleton.1 hret)
          exact hnew
      · exact hold v (List.mem_of_getElem? hj) info' hret
  | other _ _ hret' _ hwrite =>
    refine ⟨fun {j v info' k'} hj hv => ?_, fun {j j' v v' info' info'' k'} hj hj' hv hv' => ?_,
      fun v hv info' hret => ?_⟩
    · rcases hat hj with ⟨-, rfl⟩ | ⟨-, hj⟩
      · exact (hwrite info' k' hv).2
      · exact h.reserved hj hv
    · rcases hat hj with ⟨rfl, rfl⟩ | ⟨hji, hj⟩ <;> rcases hat hj' with ⟨rfl, rfl⟩ | ⟨hji', hj'⟩
      · rfl
      · obtain ⟨hprev, hblank⟩ := hwrite info' k' hv
        exact absurd hv' (hok w info' k' hi hprev hblank j' v' info'' hji' hj')
      · obtain ⟨hprev, hblank⟩ := hwrite info'' k' hv'
        exact absurd hv (hok w info'' k' hi hprev hblank j v info' hji hj)
      · exact h.single hj hj' hv hv'
    · obtain ⟨j, hj⟩ := List.mem_iff_getElem?.1 hv
      rcases hat hj with ⟨-, rfl⟩ | ⟨-, hj⟩
      · exact h.present w (List.mem_of_getElem? hi) info' ((hret' info').1 hret)
      · exact h.present v (List.mem_of_getElem? hj) info' hret

/-! ## A slot that two processes have found blank -/

theorem step_eq {i : Nat} {w w' : Writer} {slots' : List NodeSHMInfo} (hi : s.writers[i]? = some w)
    (hw : w.step s.slots = some (slots', w')) : Shm.step s i = some ⟨slots', s.writers.set i w'⟩ := by
  rw [Shm.step, hi, Option.bind_some, hw, Option.map_some]

theorem step_write {w : Writer} {info : Record} {k : Nat} (h : w.call = some (info, .write k))
    (slots : List NodeSHMInfo) : w.step slots = some (slots.set k info.toNodeSHMInfo, w.ret info 0) := by
  rw [Writer.step, h]

theorem step_blankTest {w : Writer} {info : Record} {k : Nat} {slots : List NodeSHMInfo}
    (h : w.call = some (info, .blankTest k)) (hk : slots[k]? = some .blank) :
    w.step slots = some (slots, { w with call := some (info, .write k) }) := by
  rw [Writer.step, h]
  dsimp only
  rw [hk]
  exact if_pos (beq_self_eq_true _)

/-- Both processes write the slot, and the record of the first is lost. -/
theorem lost_of_not_alone {load : Workload} (ht : Tracked load s) {i : Nat} (hs : step s i = some s')
    (hok : ¬ Alone s i) : ∃ v, Reach step s' v ∧ ¬ NoneLost v := by
  simp only [Alone, not_forall, not_not] at hok
  obtain ⟨w, info, k, hi, hcall, hblank, i', w', info', hne, hi', hcall'⟩ := hok
  rw [step_eq hi (step_blankTest hcall hblank)] at hs
  cases hs
  have hlt : i < s.writers.length := (List.getElem?_eq_some_iff.1 hi).1
  have hlt' : i' < s.writers.length := (List.getElem?_eq_some_iff.1 hi').1
  -- first the process that was there before
  have hfirst := step_eq (s := ⟨s.slots, s.writers.set i { w with call := some (info, .write k) }⟩) (i := i')
    ((List.getElem?_set_ne (Ne.symm hne)).trans hi') (step_write hcall' _)
  have hsecond := step_eq (s := ⟨s.slots.set k info'.toNodeSHMInfo,
      (s.writers.set i { w with call := some (info, .write k) }).set i' (w'.ret info' 0)⟩) (i := i)
    (w := { w with call := some (info, .write k) })
    ((List.getElem?_set_ne hne).trans (List.getElem?_set_self hlt)) (step_write rfl _)
  refine ⟨_, Reach.cons hfirst (Reach.cons hsecond (Reach.refl _)), fun hv => ?_⟩
  have hmem : w'.ret info' 0 ∈
      ((s.writers.set i { w with call := some (info, .write k) }).set i' (w'.ret info' 0)).set i
      ({ w with call := some (info, .write k) }.ret info 0) := by
    refine List.mem_of_getElem? (i := i') ?_
    rw [List.getElem?_set_ne (Ne.symm hne), List.getElem?_set_self]
    rwa [List.length_set]
  have hpresent := hv.present _ hmem info' (List.mem_append_right _ (List.mem_singleton_self _))
  dsimp only at hpresent
  rw [List.set_set] at hpresent
  rcases List.mem_or_eq_of_mem_set hpresent with hold | heq
  · exact ht.pending_notMem (List.mem_of_getElem? hi') (mem_pending_of_call hcall') _ hold rfl
  · refine ht.ids_apart hi' hi hne (mem_ids_of_pending (mem_pending_of_call hcall')) ?_
    rw [show info'.ids = info.ids from congrArg NodeSHMInfo.ids heq]
    exact mem_ids_of_pending (mem_pending_of_call hcall)

/-- No record is lost exactly in the runs in which no process finds a slot blank that another has found
blank and is about to write. -/
theorem noneLost_exact (load : Workload) : ExactFor step Alone NoneLost load.start where
  safe t h := by
    have hkept : Kept t := ReachWith.invariant h (fun u hu => tracked hu) (kept_start load)
      fun u a u' ht hI hok hs => hI.step ht hok hs
    exact ⟨hkept.present, (tracked h.reach).once⟩
  needed t i u h hs hok := lost_of_not_alone (tracked h) hs hok

/-! ## Two processes -/

/-- The record of the client with a one-letter id. -/
def letterA : Record := { NodeSHMInfo.blank with
  clientID := (Vector.replicate 12 0).set 0 97
  clientID_nul := by decide
  serverID_nul := by decide
  named := by decide }

def letterB : Record := { NodeSHMInfo.blank with
  clientID := (Vector.replicate 12 0).set 0 98
  clientID_nul := by decide
  serverID_nul := by decide
  named := by decide }

/-- Two processes with one record each, and a segment with room for both. -/
def twoWriters : Workload where
  slots := initShm 2
  todos := [[letterA], [letterB]]
  table := by
    intro i j node node' hi hj _ _
    exact ⟨List.eq_of_mem_replicate (List.mem_of_getElem? hi), List.eq_of_mem_replicate (List.mem_of_getElem? hj)⟩
  distinct := by decide
  fresh := by
    intro todo htodo info hinfo node hnode hids
    rw [List.eq_of_mem_replicate hnode] at hids
    exact info.ids_ne_blank hids.symm

/-- Both find the first slot blank; the second copy is over the first. -/
def overlap : List Nat := [0, 0, 0, 0, 0, 1, 1, 1, 1, 1, 0, 1]

theorem overlapping_write_lost : ¬ ∀ (load : Workload) (s : Shared), Reach step load.start s → NoneLost s := by
  intro h
  have hkept := h twoWriters _ (reach_after twoWriters.start overlap)
  have hret : ∃ w ∈ (after step twoWriters.start overlap).writers, (letterA, 0) ∈ w.returned := by decide +kernel
  have hlost : letterA.toNodeSHMInfo ∉ (after step twoWriters.start overlap).slots := by decide +kernel
  obtain ⟨w, hw, hw'⟩ := hret
  exact hlost (hkept.present w hw letterA hw')

end LinuxProgram.Shm
