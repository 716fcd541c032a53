/-
The table of the threads. A slot is given to a new thread when it is empty or its thread has terminated,
so every worker that has not terminated keeps its slot, also after it has counted itself out, and there
are never more workers than slots. Ids of terminated threads may come back, and other threads of the
process may start and end at any time.
-/
import LinuxProgram.Threadpool.Counters

namespace LinuxProgram.Threadpool

open LinuxProgram.Machine

variable {F A : Type}

/-! ## Workers and slots -/

/-- The id of a worker that has not terminated. -/
def Loc.id? : Loc F A → Option Nat
  | .worker _ .exited => none
  | .worker tid _ => some tid
  | _ => none

/-- The ids of the workers that exist. -/
def workerIds (s : PoolState F A) : List Nat := s.locs.filterMap Loc.id?

theorem ids_eq (l : Loc F A) : l.ids = (l.id?.toList : Multiset Nat) := by
  rcases l with ⟨tid, pc⟩ | ⟨task, pc⟩ | pc | pc | _
  · cases pc <;> rfl
  all_goals rfl

theorem tally_ids (ls : List (Loc F A)) : tally Loc.ids ls = (ls.filterMap Loc.id? : List Nat) := by
  induction ls with
  | nil => rfl
  | cons l ls ih =>
    rw [tally_cons, ih, ids_eq, Multiset.coe_add]
    cases h : l.id? with
    | none => rw [List.filterMap_cons_none h]; rfl
    | some tid => rw [List.filterMap_cons_some h]; rfl

/-- The slots, when the workers `ids` exist. -/
structure Slots (cfg : Config) (p : Pool F A) (ids : Multiset Nat) : Prop where
  length : p.threads.length = cfg.maxThrNum
  apart : ids.Nodup
  nonzero : 0 ∉ ids
  alive : ∀ tid ∈ ids, tid ∈ p.alive
  slot : ∀ tid ∈ ids, tid ∈ p.threads

theorem SameBooks.slots {cfg : Config} {p p' : Pool F A} {ids : Multiset Nat} (hp : SameBooks p p')
    (h : Slots cfg p ids) : Slots cfg p' ids where
  length := hp.threads ▸ h.length
  apart := h.apart
  nonzero := h.nonzero
  alive := hp.alive ▸ h.alive
  slot := hp.threads ▸ h.slot

/-- The slot of a worker is not free. -/
theorem Slots.taken {cfg : Config} {p : Pool F A} {ids : Multiset Nat} (h : Slots cfg p ids) {i tid : Nat}
    (hi : p.threads[i]? = some tid) (htid : tid ∈ ids) : p.slotFree i = false := by
  have hget : p.threads.getD i 0 = tid := by rw [List.getD_eq_getElem?_getD, hi, Option.getD_some]
  have hne : tid ≠ 0 := by
    rintro rfl
    exact h.nonzero htid
  have halive : p.isThreadAlive tid = true := List.contains_iff_mem.2 (h.alive tid htid)
  rw [Pool.slotFree, hget, halive, Bool.not_true, Bool.or_false, beq_eq_false_iff_ne]
  exact hne

/-- A new thread in a free slot. -/
theorem Slots.create {cfg : Config} {p : Pool F A} {ids : Multiset Nat} (h : Slots cfg p ids) {i tid : Nat}
    (hi : i < cfg.maxThrNum) (hfree : p.slotFree i = true) (htid : tid ≠ 0) (halive : p.isThreadAlive tid = false) :
    Slots cfg (p.create i tid) (tid ::ₘ ids) := by
  have hnew : tid ∉ p.alive := by
    intro hmem
    rw [Pool.isThreadAlive, List.contains_iff_mem.2 hmem] at halive
    cases halive
  constructor
  · show (p.threads.set i tid).length = _
    rw [List.length_set]
    exact h.length
  · exact Multiset.nodup_cons.2 ⟨fun hmem => hnew (h.alive tid hmem), h.apart⟩
  · rw [Multiset.mem_cons, not_or]
    exact ⟨htid.symm, h.nonzero⟩
  · intro x hx
    show x ∈ tid :: p.alive
    rcases Multiset.mem_cons.1 hx with rfl | hx
    · exact List.mem_cons_self
    · exact List.mem_cons_of_mem _ (h.alive x hx)
  · intro x hx
    show x ∈ p.threads.set i tid
    rcases Multiset.mem_cons.1 hx with rfl | hx
    · exact List.mem_set (by rw [h.length]; exact hi) x
    · obtain ⟨j, hj⟩ := List.mem_iff_getElem?.1 (h.slot x hx)
      refine List.mem_iff_getElem?.2 ⟨j, ?_⟩
      have hij : i ≠ j := by
        rintro rfl
        rw [h.taken hj hx] at hfree
        cases hfree
      rw [List.getElem?_set_ne hij]
      exact hj

/-- A worker that terminates. -/
theorem Slots.exit {cfg : Config} {p : Pool F A} {ids : Multiset Nat} {tid : Nat} (h : Slots cfg p (tid ::ₘ ids)) :
    Slots cfg { p with alive := p.alive.erase tid } ids := by
  obtain ⟨hnot, hnodup⟩ := Multiset.nodup_cons.1 h.apart
  refine ⟨h.length, hnodup, fun hz => h.nonzero (Multiset.mem_cons_of_mem hz), ?_,
    fun x hx => h.slot x (Multiset.mem_cons_of_mem hx)⟩
  intro x hx
  refine (List.mem_erase_of_ne ?_).2 (h.alive x (Multiset.mem_cons_of_mem hx))
  rintro rfl
  exact hnot hx

theorem slots (cfg : Config) : Tallying (code (F := F) (A := A) cfg) Loc.ids Always (Slots cfg) := by
  refine tallying_of_books (fun hl => hl.ids) ?_
  intro l p p' l' new x n hbooks _ hI
  cases hbooks with
  | keep hp hl hnew =>
    rw [tally_calls (fun _ => rfl) hnew, hl.ids, add_zero]
    exact hp.slots hI
  | @exit tid hp =>
    have hn : n + Loc.ids (.worker tid .exiting : Loc F A) = tid ::ₘ n := by
      rw [add_comm]
      exact Multiset.singleton_add tid n
    rw [hn] at hI
    rw [tally_nil, add_zero]
    show Slots cfg p' (n + 0)
    rw [add_zero]
    exact hp.slots hI.exit
  | @create i tid add live busy hi hlive hfree htid halive hp =>
    subst hp
    have hI : Slots cfg p (n + 0) := hI
    have hids : Loc.ids (.worker tid .lock : Loc F A) = {tid} := rfl
    rw [add_zero] at hI
    rw [tally_cons, tally_nil, add_zero, hids, add_comm, Multiset.singleton_add]
    show Slots cfg (p.create i tid) (tid ::ₘ (n + 0))
    rw [add_zero]
    exact hI.create hi hfree htid halive
  | stay hwait hp | retire hwait hmin hp | leave hshut hp | begin hp | finish hp | request hp | close hp =>
    rw [tally_nil, add_zero]
    exact hp.slots ⟨hI.length, hI.apart, hI.nonzero, hI.alive, hI.slot⟩

/-! ## The process -/

/-- A step of the pool, or another thread of the process that starts with an id that nobody has or ends. -/
inductive Event (F A : Type) where
  | step (a : Action (Outcome F A))
  | start (id : Nat)
  | stop (id : Nat)

def PoolState.setAlive (s : PoolState F A) (alive : List Nat) : PoolState F A :=
  { s with shared := { s.shared with alive := alive } }

def processStep (cfg : Config) (s : PoolState F A) : Event F A → Option (PoolState F A)
  | .step a => step (code cfg) s a
  | .start id => if id ≠ 0 ∧ id ∉ s.shared.alive then some (PoolState.setAlive s (id :: s.shared.alive)) else none
  | .stop id =>
    if id ∈ s.shared.alive ∧ id ∉ workerIds s then some (PoolState.setAlive s (s.shared.alive.erase id)) else none

/-- The slots hold in a state of the process. -/
def Owned (cfg : Config) (s : PoolState F A) : Prop := Slots cfg s.shared (tally Loc.ids s.locs)

variable {cfg : Config} {s s₀ s' : PoolState F A}

theorem Owned.step {e : Event F A} (h : Owned cfg s) (hs : processStep cfg s e = some s') : Owned cfg s' := by
  cases e with
  | step a => exact (slots cfg).step_valid (by cases a <;> simp [ExecMeets, Always]) h hs
  | start id =>
    obtain ⟨-, hs⟩ := Option.ite_none_right_eq_some.1 hs
    cases hs
    exact ⟨h.length, h.apart, h.nonzero, fun tid ht => List.mem_cons_of_mem _ (h.alive tid ht), h.slot⟩
  | stop id =>
    obtain ⟨⟨-, hnot⟩, hs⟩ := Option.ite_none_right_eq_some.1 hs
    cases hs
    refine ⟨h.length, h.apart, h.nonzero, fun tid ht => (List.mem_erase_of_ne ?_).2 (h.alive tid ht), h.slot⟩
    rintro rfl
    have ht : tid ∈ tally Loc.ids s.locs := ht
    rw [tally_ids] at ht
    exact hnot ht

theorem owned_created (hle : cfg.minThrNum ≤ cfg.maxThrNum) (h0 : Created cfg s₀) : Owned cfg s₀ := by
  obtain ⟨tids, others, garbage, hlen, hnodup, hzero, rfl⟩ := h0.start
  have hids : ∀ ts : List Nat, (ts.map fun tid => (.worker tid .lock : Loc F A)).filterMap Loc.id? = ts := by
    intro ts
    induction ts with
    | nil => rfl
    | cons t ts ih =>
      have ht : Loc.id? (.worker t .lock : Loc F A) = some t := rfl
      rw [List.map_cons, List.filterMap_cons_some ht, ih]
  have hlocs : (threadpoolCreate cfg tids others garbage).locs =
      [.client, .destroy .store, .adjust .loop] ++ tids.map fun tid => .worker tid .lock := by
    simp [State.locs, threadpoolCreate, Thread.loc, Function.comp_def]
  rw [Owned, tally_ids, hlocs, List.filterMap_append, hids]
  show Slots cfg _ (tids : Multiset Nat)
  constructor
  · show (tids ++ List.replicate _ _).length = _
    rw [List.length_append, List.length_replicate]
    omega
  · exact hnodup.sublist (List.sublist_append_left tids others)
  · exact fun h => hzero (List.mem_append_left _ h)
  · exact fun tid h => List.mem_append_left _ h
  · exact fun tid h => List.mem_append_left _ h

theorem owned (hle : cfg.minThrNum ≤ cfg.maxThrNum) (h0 : Created cfg s₀) (h : Reach (processStep cfg) s₀ s) :
    Owned cfg s :=
  h.invariant (owned_created hle h0) fun _ _ _ hI hs => hI.step hs

/-- What a statement can do to the slots. -/
theorem Books.threads {p p' : Pool F A} {l l' : Loc F A} {new : List (Loc F A)} (h : Books cfg p p' l l' new) :
    p'.threads = p.threads ∨ ∃ i tid, p.slotFree i = true ∧ p'.threads = p.threads.set i tid := by
  cases h with
  | create hi hlive hfree htid halive hp => exact .inr ⟨_, _, hfree, by rw [hp]; rfl⟩
  | keep hp | stay _ hp | retire _ _ hp | leave _ hp | exit hp | begin hp | finish hp | request hp | close hp =>
    exact .inl hp.threads

theorem step_threads {e : Event F A} (hs : processStep cfg s e = some s') : s'.shared.threads = s.shared.threads ∨
    ∃ i tid, s.shared.slotFree i = true ∧ s'.shared.threads = s.shared.threads.set i tid := by
  cases e with
  | step a =>
    rcases step_shared hs with h | ⟨i, x, ws, l, f, l', new, -, -, hc, hf, -⟩
    · rw [h]
      exact .inl rfl
    · exact ((booked cfg l).of hc hf).threads
  | start id =>
    obtain ⟨-, hs⟩ := Option.ite_none_right_eq_some.1 hs
    cases hs
    exact .inl rfl
  | stop id =>
    obtain ⟨-, hs⟩ := Option.ite_none_right_eq_some.1 hs
    cases hs
    exact .inl rfl

/-- A step leaves the slots of the workers alone. -/
theorem Owned.slot_kept {e : Event F A} (h : Owned cfg s) (hs : processStep cfg s e = some s') {i tid : Nat}
    (hi : s.shared.threads[i]? = some tid) (htid : tid ∈ workerIds s) : s'.shared.threads[i]? = some tid := by
  have hmem : tid ∈ tally Loc.ids s.locs := by
    rw [tally_ids]
    exact htid
  rcases step_threads hs with hsame | ⟨k, new, hfree, hset⟩
  · rw [hsame]
    exact hi
  · have hik : k ≠ i := by
      rintro rfl
      rw [h.taken hi hmem] at hfree
      cases hfree
    rw [hset, List.getElem?_set_ne hik]
    exact hi

/-- In a list without duplicates a value is found at one place. -/
theorem place_unique {α β : Type} {f : α → Option β} {ls : List α} (h : (ls.filterMap f).Nodup) {i j : Nat}
    {a b : α} {t : β} (hi : ls[i]? = some a) (ha : f a = some t) (hj : ls[j]? = some b) (hb : f b = some t) :
    i = j := by
  have hpair := List.pairwise_filterMap.1 h
  obtain ⟨hi', rfl⟩ := List.getElem?_eq_some_iff.1 hi
  obtain ⟨hj', rfl⟩ := List.getElem?_eq_some_iff.1 hj
  rcases Nat.lt_trichotomy i j with hlt | heq | hlt
  · exact absurd rfl (List.pairwise_iff_getElem.1 hpair i j hi' hj' hlt t ha t hb)
  · exact heq
  · exact absurd rfl (List.pairwise_iff_getElem.1 hpair j i hj' hi' hlt t hb t ha)

/-- Every worker that exists has a slot of its own, which no step takes from it, and there are no more workers than
slots. -/
theorem slots_owned (hle : cfg.minThrNum ≤ cfg.maxThrNum) (h0 : Created cfg s₀) (h : Reach (processStep cfg) s₀ s) :
    (∃ slot : Nat → Nat, (∀ j l tid, s.locs[j]? = some l → l.id? = some tid → s.shared.threads[slot j]? = some tid) ∧
      ∀ j j' l l' tid tid', s.locs[j]? = some l → l.id? = some tid → s.locs[j']? = some l' → l'.id? = some tid' →
        slot j = slot j' → j = j') ∧
    (∀ (e : Event F A) (s' : PoolState F A), processStep cfg s e = some s' →
      ∀ i tid : Nat, s.shared.threads[i]? = some tid → tid ∈ workerIds s → s'.shared.threads[i]? = some tid) ∧
    (workerIds s).length ≤ cfg.maxThrNum := by
  have hown := owned hle h0 h
  have hapart : (workerIds s).Nodup := by
    have := hown.apart
    rwa [tally_ids, Multiset.coe_nodup] at this
  have hslot : ∀ tid ∈ workerIds s, tid ∈ s.shared.threads := by
    intro tid ht
    refine hown.slot tid ?_
    rw [tally_ids]
    exact ht
  -- the first slot that has the id of the worker
  have hfirst : ∀ {j : Nat} {l : Loc F A} {tid : Nat}, s.locs[j]? = some l → l.id? = some tid →
      s.shared.threads[s.shared.threads.idxOf ((s.locs[j]?.bind Loc.id?).getD 0)]? = some tid := by
    intro j l tid hj hl
    rw [hj, Option.bind_some, hl, Option.getD_some]
    exact List.getElem?_idxOf (hslot tid (List.mem_filterMap.2 ⟨l, List.mem_of_getElem? hj, hl⟩))
  refine ⟨⟨fun j => s.shared.threads.idxOf ((s.locs[j]?.bind Loc.id?).getD 0), ?_, ?_⟩, ?_, ?_⟩
  · intro j l tid hj hl
    exact hfirst hj hl
  · intro j j' l l' tid tid' hj hl hj' hl' heq
    have hsame : some tid = some tid' :=
      (hfirst hj hl).symm.trans ((congrArg (s.shared.threads[·]?) heq).trans (hfirst hj' hl'))
    cases hsame
    exact place_unique hapart hj hl hj' hl'
  · intro e s' hs i tid hi htid
    exact hown.slot_kept hs hi htid
  · rw [← hown.length]
    exact (hapart.subperm hslot).length_le

/-- The second worker retires; its id goes to another thread of the process, and when that has ended, to the worker
that the manager creates in the same slot. -/
def reuseRun : List (Event Nat Nat) :=
  (growRun 4 2 ++ retireRun 14).map .step ++ [.start 2, .start 5, .stop 2] ++ (growRun 15 2).map .step

def reused : PoolState Nat Nat := after (processStep ⟨1, 2, 10⟩) twoPool reuseRun

theorem slots_owned_reused :
    workerIds reused = [1, 2] ∧ reused.shared.threads = [1, 2] ∧ reused.shared.alive = [2, 5, 1] ∧
    (∃ slot : Nat → Nat, (∀ j l tid, reused.locs[j]? = some l → l.id? = some tid →
        reused.shared.threads[slot j]? = some tid) ∧
      ∀ j j' l l' tid tid', reused.locs[j]? = some l → l.id? = some tid → reused.locs[j']? = some l' →
      l'.id? = some tid' →
        slot j = slot j' → j = j') ∧
    (∀ (e : Event Nat Nat) (s' : PoolState Nat Nat), processStep ⟨1, 2, 10⟩ reused e = some s' →
      s'.shared.threads[1]? = some 2) ∧
    (workerIds reused).length ≤ 2 := by
  have hids : workerIds reused = [1, 2] := by decide +kernel
  have hthreads : reused.shared.threads = [1, 2] := by decide +kernel
  have hreach : Reach (processStep ⟨1, 2, 10⟩) twoPool reused := reach_after twoPool _
  obtain ⟨hslot, hkept, hlen⟩ := slots_owned (by decide) twoPool_created hreach
  refine ⟨hids, hthreads, by decide +kernel, hslot, fun e s' hs => hkept e s' hs 1 2 ?_ ?_, hlen⟩
  · rw [hthreads]
    rfl
  · rw [hids]
    decide

end LinuxProgram.Threadpool
