/-
Whether one iteration of the manager lets the pool grow and shrink. The two tests are independent and look
at the same snapshot, in which no worker need be busy yet when ten tasks have come. An iteration takes
both branches in some run of every pool whose queue has room for ten tasks and whose bounds leave a number
of live workers strictly between them.
-/
import LinuxProgram.Threadpool.Growth
import LinuxProgram.Machine.Solo

namespace LinuxProgram.Threadpool

open LinuxProgram.Machine

variable {F A : Type}

/-! ## The property -/

/-- The manager is at the end of the growth branch, and its snapshot makes the test for the shrink branch,
which it comes to next, succeed. -/
def TakesBoth (cfg : Config) (s : PoolState F A) : Prop :=
  ∃ (m : Nat) (live busy : Int), s.threads[m]? = some (.run (.adjust (.growUnlock live busy))) ∧
    (decide (busy * 2 < live) && decide (live > cfg.minThrNum)) = true

/-! ## What the snapshot says -/

/-- What the manager's locals say: the tasks were in the queue; in the growth branch there were ten, and
there was room for workers. -/
def AdjustPc.snapshot (cfg : Config) : AdjustPc → Prop
  | .unlock size _ | .counterLock size _ | .readBusy size _ | .counterUnlock size _ _ | .growTest size _ _ =>
    size ≤ cfg.queueMaxSize
  | .growLock live _ | .grow _ _ live _ | .growUnlock live _ => minWaitTaskNum ≤ cfg.queueMaxSize ∧ live < cfg.maxThrNum
  | _ => True

def Snapshot (cfg : Config) (_ : Nat) (o : Option (Loc F A)) (_ : Pool F A) : Prop :=
  ∀ pc, o = some (.adjust pc) → pc.snapshot cfg

def QueueFits (cfg : Config) (s : PoolState F A) (_ : Nat) (_ : Loc F A) : Prop := s.shared.queueSize ≤ cfg.queueMaxSize

section Snapshot

variable {cfg : Config} {l : Loc F A}

/-- A statement behind which the locals say nothing more than before it. -/
theorem ownedUnder_snapshot (f : Nat → Pool F A → Pool F A) (next : Pool F A → Loc F A)
    (hn : ∀ s : PoolState F A, s.shared.queueSize ≤ cfg.queueMaxSize → Snapshot cfg 0 (some l) s.shared →
      Snapshot cfg 0 (some (next s.shared)) s.shared) :
    (Instr.update f next : PoolInstr F A).OwnedUnder (QueueFits cfg) (Snapshot cfg) l :=
  ownedUnder_update _ _ (fun _ s hP h => hn s hP h) fun _ _ _ _ _ h => h

/-- A thread other than the manager has no such locals. -/
theorem snapshot_away {i : Nat} {p : Pool F A} (h : ∀ pc, l ≠ .adjust pc) : Snapshot cfg i (some l) p :=
  fun pc hl => absurd (Option.some.inj hl) (h pc)

theorem snapshotOwning (cfg : Config) : OwningUnder (code (F := F) (A := A) cfg) (QueueFits cfg) (Snapshot cfg) := by
  rintro (⟨tid, pc⟩ | ⟨task, pc⟩ | pc | pc)
  · cases pc with
    | test | shutdownTest | exitTest =>
      refine ownedUnder_snapshot _ _ fun s _ _ => ?_
      split <;> exact snapshot_away fun _ h => by cases h
    | take | exiting | busyInc | busyDec | call | running =>
      exact ownedUnder_snapshot _ _ fun s _ _ => snapshot_away fun _ h => by cases h
    | exited => trivial
    | _ => exact fun i p _ => snapshot_away fun _ h => by cases h
  · cases pc with
    | test | shutdownTest =>
      refine ownedUnder_snapshot _ _ fun s _ _ => ?_
      split <;> exact snapshot_away fun _ h => by cases h
    | put => exact ownedUnder_snapshot _ _ fun s _ _ => snapshot_away fun _ h => by cases h
    | returned => trivial
    | _ => exact fun i p _ => snapshot_away fun _ h => by cases h
  · cases pc with
    | grow k add live busy =>
      intro i s x p' l' new h _
      refine ⟨fun hI pc hl => ?_, fun j _ hj => hj, fun n hn j _ => ?_⟩
      · have hsnap := hI _ rfl
        rcases growStep_cases h with ⟨-, -, rfl | rfl⟩ | ⟨tid, -, -, -, -, -, -, -, rfl, -⟩ <;> cases hl <;> exact hsnap
      · rcases growStep_cases h with ⟨-, rfl, -⟩ | ⟨tid, -, -, -, -, -, -, -, -, rfl⟩
        · cases hn
        · simp only [List.mem_singleton] at hn
          subst hn
          exact snapshot_away fun _ h => by cases h
    | growTest size live busy =>
      refine ownedUnder_snapshot _ _ fun s _ hI pc hl => ?_
      have hsize : size ≤ cfg.queueMaxSize := hI _ rfl
      split at hl
      · rename_i hb
        cases hl
        simp only [Bool.and_eq_true, decide_eq_true_eq] at hb
        exact ⟨hb.1.trans hsize, hb.2⟩
      · cases hl
        trivial
    | read =>
      refine ownedUnder_snapshot _ _ fun s hfit _ pc hl => ?_
      cases hl
      exact hfit
    | readBusy size live =>
      refine ownedUnder_snapshot _ _ fun s _ hI pc hl => ?_
      have hsnap := hI _ rfl
      cases hl
      exact hsnap
    | signal k =>
      simp only [code, adjustThread]
      split
      · intro i p _ pc hl
        cases hl
        trivial
      · refine ownedUnder_snapshot _ _ fun s _ _ pc hl => ?_
        cases hl
        trivial
    | loop | shrinkTest =>
      refine ownedUnder_snapshot _ _ fun s _ _ pc hl => ?_
      split at hl <;> cases hl <;> trivial
    | sleep | shrinkSet =>
      refine ownedUnder_snapshot _ _ fun s _ _ pc hl => ?_
      cases hl
      trivial
    | returned => trivial
    | unlock | counterLock | counterUnlock | growLock =>
      intro i p hI pc hl
      have hsnap := hI _ rfl
      cases hl
      exact hsnap
    | lock | growUnlock | shrinkLock | shrinkUnlock =>
      intro i p _ pc hl
      cases hl
      trivial
  · cases pc with
    | loop =>
      refine ownedUnder_snapshot _ _ fun s _ _ => ?_
      split <;> exact snapshot_away fun _ h => by cases h
    | bcast | lockLock | lockCounter => exact fun i p _ => snapshot_away fun _ h => by cases h
    | returned => trivial
    | _ => exact ownedUnder_snapshot _ _ fun s _ _ => snapshot_away fun _ h => by cases h
  · intro i s x p' l' new h _
    obtain ⟨-, rfl, task, rfl⟩ := client_acts cfg i s.shared x p' l' new h
    refine ⟨id, fun _ _ => id, fun n hn j _ => ?_⟩
    obtain rfl := List.mem_singleton.1 hn
    exact snapshot_away fun _ h => by cases h

end Snapshot

theorem snapshot {cfg : Config} {s₀ s : PoolState F A} (h0 : Created cfg s₀)
    (h : Reach (step (code cfg)) s₀ s) (i : Nat) : Snapshot cfg i s.locs[i]? s.shared := by
  refine (snapshotOwning cfg).valid (fun u a hu (_ : True) => ?_) (fun j pc hpc => ?_) h i
  · intro i x ws l _ _
    exact (queueSize_le h0 hu).2
  · rcases h0.mem_locs (List.mem_of_getElem? hpc) with hl | hl | hl | ⟨tid, hl⟩ <;> cases hl
    trivial

/-- An iteration that takes both branches has seen a number of workers between the bounds, and ten tasks. -/
theorem TakesBoth.bounds {cfg : Config} {s₀ s : PoolState F A} (h : TakesBoth cfg s) (h0 : Created cfg s₀)
    (hr : Reach (step (code cfg)) s₀ s) : cfg.minThrNum + 1 < cfg.maxThrNum ∧ 10 ≤ cfg.queueMaxSize := by
  obtain ⟨m, live, busy, ht, hb⟩ := h
  have hloc : s.locs[m]? = some (.adjust (.growUnlock live busy)) := by simp [State.locs, ht, Thread.loc]
  obtain ⟨hsize, hlive⟩ := snapshot h0 hr m _ hloc
  simp only [Bool.and_eq_true, decide_eq_true_eq] at hb
  have hten : (10 : Int) ≤ cfg.queueMaxSize := hsize
  omega

/-! ## A run that takes both -/

instance : Inhabited (Outcome F A) := ⟨.none⟩

/-- No worker is busy in the open pool, and it counts `size` tasks and `live` workers. -/
structure Idle (p : Pool F A) (size : Nat) (live : Int) : Prop where
  running : p.shutdown = false
  released : p.released = []
  busy : p.busyThrNum = 0
  size : p.queueSize = size
  live : p.liveThrNum = live

/-- Nobody is in the way: the program can make calls, the manager is before its loop, and the mutexes are
free. -/
structure Quiet (s : PoolState F A) (size : Nat) (live : Int) : Prop where
  client : s.threads[0]? = some (.run .client)
  manager : s.threads[2]? = some (.run (.adjust .loop))
  owner : s.owner = fun _ => none
  idle : Idle s.shared size live

/-- Some worker is before its loop. -/
def HasWorker (s : PoolState F A) : Prop := ∃ w tid, 3 ≤ w ∧ s.threads[w]? = some (.run (.worker tid .lock))

section Runs

variable (cfg : Config) {s u : PoolState F A} {size i w tid : Nat} {live busy : Int} {p : Pool F A}
    {own : Mutex → Option Nat}
  {l : Loc F A}

theorem Quiet.free (h : Quiet s size live) (m : Mutex) : s.owner m = none := by rw [h.owner]

/-- A worker is still there after the run of another thread. -/
theorem HasWorker.mono (h : HasWorker s) (hi : i < 3)
    (hothers : ∀ (j : Nat) l, j ≠ i → s.threads[j]? = some (.run l) → u.threads[j]? = some (.run l)) : HasWorker u := by
  obtain ⟨w, tid, hw, ht⟩ := h
  exact ⟨w, tid, hw, hothers w _ (by omega) ht⟩

/-! ### The program -/

/-- A call of `threadpool_add` that finds room. -/
theorem Quiet.add (h : Quiet s size live) (hroom : size < cfg.queueMaxSize) (task : ThreadpoolTask F A) :
    ∃ u, Reach (step (code cfg)) s u ∧ Quiet u (size + 1) live ∧ u.shared.threads = s.shared.threads := by
  let s₁ : PoolState F A := { s with threads := s.threads.set 0 (.run .client) ++ [.run (.add task .lock)] }
  have hcall : step (code cfg) s (.exec 0 (.task task) []) = some s₁ := by
    rw [step_run h.client]
    simp [code, State.exec, h.idle.released, s₁]
  have hnew : s₁.threads[s.threads.length]? = some (.run (.add task .lock)) := by
    simp [s₁]
  have hclient : s₁.threads[0]? = some (.run .client) := by
    have hlt := (List.getElem?_eq_some_iff.1 h.client).1
    exact (List.getElem?_append_left (by simpa using hlt)).trans (set_getElem?_self h.client _)
  have hmanager : s₁.threads[2]? = some (.run (.adjust .loop)) := run_kept hcall (by decide) h.manager
  have hfull : (s.shared.queueSize == (cfg.queueMaxSize : Int) && !s.shared.shutdown) = false := by
    rw [h.idle.size, Bool.and_eq_false_iff]
    exact .inl (beq_eq_false_iff_ne.2 (by omega))
  have hsolo :=
    (((((Solo.start (code cfg) hnew).lock rfl (h.free _)).branch rfl hfull).branch rfl h.idle.running).update
    rfl).signal rfl
  obtain ⟨u, hr, hsh, hown, -, hothers⟩ := hsolo.unlock rfl (h.free _)
  have hlen : 2 < s.threads.length := (List.getElem?_eq_some_iff.1 h.manager).1
  refine ⟨u, Reach.cons hcall hr,
    ⟨hothers _ _ (by omega) hclient, hothers _ _ (by omega) hmanager, hown.trans h.owner, ?_⟩, ?_⟩
  · rw [hsh]
    refine ⟨h.idle.running, h.idle.released, h.idle.busy, ?_, h.idle.live⟩
    show s.shared.queueSize + 1 = _
    rw [h.idle.size, Nat.cast_add, Nat.cast_one]
  · rw [hsh]
    rfl

theorem Quiet.adds (h : Quiet s 0 live) (n : Nat) (hroom : n ≤ cfg.queueMaxSize) :
    ∃ u, Reach (step (code cfg)) s u ∧ Quiet u n live ∧ u.shared.threads = s.shared.threads := by
  induction n with
  | zero => exact ⟨s, Reach.refl s, h, rfl⟩
  | succ n ih =>
    obtain ⟨u, hr, hq, hk⟩ := ih (by omega)
    obtain ⟨v, hr', hq', hk'⟩ := hq.add cfg (show n < cfg.queueMaxSize by omega) (u.shared.taskQueue 0)
    exact ⟨v, hr.trans hr', hq', hk'.trans hk⟩

/-! ### The manager -/

/-- The manager takes its snapshot. -/
theorem Quiet.observe (h : Quiet s size live) :
    Solo (code cfg) 2 s s.shared s.owner (.adjust (.growTest size live 0)) := by
  have hopen : (!s.shared.shutdown) = true := by rw [h.idle.running]; rfl
  have hread := ((((Solo.start (code cfg) h.manager).branch rfl hopen).update rfl).lock rfl (h.free _)).update rfl
  have hsolo := ((((hread.unlock rfl (h.free _)).lock rfl (h.free _)).update rfl).unlock rfl (h.free _))
  simpa only [id_eq, h.idle.size, h.idle.live, h.idle.busy] using hsolo

/-- The manager is back before its loop. -/
theorem Quiet.again (h : Quiet s size live) (hsolo : Solo (code cfg) 2 s p s.owner (.adjust .loop)) {live' : Int}
    (hp : Idle p size live') :
    ∃ u, Reach (step (code cfg)) s u ∧ Quiet u size live' ∧ u.shared = p ∧ (HasWorker s → HasWorker u) := by
  obtain ⟨u, hr, hsh, hown, hu, hothers⟩ := hsolo
  exact ⟨u, hr, ⟨hothers _ _ (by decide) h.client, hu, hown.trans h.owner, hsh ▸ hp⟩, hsh,
    fun hw => hw.mono (by decide) hothers⟩

/-- The growing loop has come to its end. -/
structure Grown (s u : PoolState F A) (live busy : Int) : Prop where
  manager : u.threads[2]? = some (.run (.adjust (.growUnlock live busy)))
  owner : u.owner = s.owner
  idle : ∀ size n, Idle s.shared size n → Idle u.shared size u.shared.liveThrNum
  le : s.shared.liveThrNum ≤ u.shared.liveThrNum
  others : ∀ (j : Nat) l, j ≠ 2 → s.threads[j]? = some (.run l) → u.threads[j]? = some (.run l)

/-- The growing loop is left. -/
theorem exists_ended {k add : Nat} (ht : s.threads[2]? = some (.run (.adjust (.grow k add live busy))))
    (hend : ¬ (k < cfg.maxThrNum ∧ add < defaultThreadVary ∧ s.shared.liveThrNum < cfg.maxThrNum)) :
    ∃ u, Reach (step (code cfg)) s u ∧ Grown s u live busy := by
  have hstep : growStep cfg k add live busy s.shared .none = some (s.shared, .adjust (.growUnlock live busy), []) := by
    unfold growStep
    rw [if_neg hend]
  obtain ⟨u, hr, hsh, hown, hu, hothers⟩ := (Solo.start (code cfg) ht).act rfl hstep
  refine ⟨u, hr, hu, hown, fun size n h => ?_, by rw [hsh], hothers⟩
  rw [hsh]
  exact ⟨h.running, h.released, h.busy, h.size, rfl⟩

/-- One slot is looked at. -/
theorem exists_turn {k add : Nat} (ht : s.threads[2]? = some (.run (.adjust (.grow k add live busy))))
    (hex : k < cfg.maxThrNum ∧ add < defaultThreadVary ∧ s.shared.liveThrNum < cfg.maxThrNum) :
    ∃ u add', Reach (step (code cfg)) s u ∧ u.threads[2]? = some (.run (.adjust (.grow (k + 1) add' live busy))) ∧
      (∀ v, Grown u v live busy → Grown s v live busy) ∧
      (s.shared.slotFree k = false → add' = add ∧ u.shared = s.shared) ∧
      (s.shared.slotFree k = true → s.shared.liveThrNum < u.shared.liveThrNum ∧ HasWorker u) := by
  have hlen : 2 < s.threads.length := (List.getElem?_eq_some_iff.1 ht).1
  cases hfree : s.shared.slotFree k with
  | false =>
    have hstep : growStep cfg k add live busy s.shared .none =
        some (s.shared, .adjust (.grow (k + 1) add live busy), []) := by
      unfold growStep
      rw [if_pos hex, hfree]
      rfl
    obtain ⟨u, hr, hsh, hown, hu, hothers⟩ := (Solo.start (code cfg) ht).act rfl hstep
    refine ⟨u, add, hr, hu, fun v hv => ?_, fun _ => ⟨rfl, hsh⟩, fun h => by cases h⟩
    exact ⟨hv.manager, hv.owner.trans hown, hsh ▸ hv.idle, hsh ▸ hv.le,
      fun j l hj hl => hv.others j l hj (hothers j l hj hl)⟩
  | true =>
    -- an id that nobody has
    obtain ⟨tid, hnew⟩ := Infinite.exists_notMem_finset (0 :: s.shared.alive).toFinset
    rw [List.mem_toFinset, List.mem_cons, not_or] at hnew
    have halive : s.shared.isThreadAlive tid = false := by
      rw [Pool.isThreadAlive, Bool.eq_false_iff]
      exact fun h => hnew.2 (List.contains_iff_mem.1 h)
    let u : PoolState F A := { s with
      shared := s.shared.create k tid
      threads := s.threads.set 2 (.run (.adjust (.grow (k + 1) (add + 1) live busy))) ++ [.run (.worker tid .lock)] }
    have hs : step (code cfg) s (.exec 2 (.tid tid) []) = some u := by
      rw [step_run ht]
      simp [code, adjustThread, State.exec, growStep, hex, hfree, hnew.1, halive, u]
    have hu : u.threads[2]? = some (.run (.adjust (.grow (k + 1) (add + 1) live busy))) :=
      (List.getElem?_append_left (by simpa using hlen)).trans (set_getElem?_self ht _)
    have hlt : s.shared.liveThrNum < u.shared.liveThrNum := Int.lt_succ _
    refine ⟨u, add + 1, (Reach.refl s).snoc hs, hu, fun v hv => ?_, fun h => (by cases h),
      fun _ => ⟨hlt, s.threads.length, tid, hlen, by simp [u]⟩⟩
    exact ⟨hv.manager, hv.owner,
      fun size n h => hv.idle size (n + 1) ⟨h.running, h.released, h.busy, h.size, congrArg (· + 1) h.live⟩,
      hlt.le.trans hv.le, fun j l hj hl => hv.others j l hj (run_kept hs hj hl)⟩

/-- The growing loop comes to its end, and creates a worker if there is room and a slot for one. -/
theorem exists_grown {k add : Nat} (ht : s.threads[2]? = some (.run (.adjust (.grow k add live busy)))) :
    ∃ u, Reach (step (code cfg)) s u ∧ Grown s u live busy ∧
      ((∃ j, k ≤ j ∧ j < cfg.maxThrNum ∧ s.shared.slotFree j = true) → add < defaultThreadVary →
        s.shared.liveThrNum < cfg.maxThrNum → s.shared.liveThrNum < u.shared.liveThrNum ∧ HasWorker u) := by
  obtain ⟨d, hd⟩ : ∃ d, d = cfg.maxThrNum - k := ⟨_, rfl⟩
  induction d generalizing s k add with
  | zero =>
    obtain ⟨u, hr, hu⟩ := exists_ended cfg ht (by omega)
    refine ⟨u, hr, hu, ?_⟩
    rintro ⟨j, hj, hlt, -⟩
    omega
  | succ d ih =>
    by_cases hex : k < cfg.maxThrNum ∧ add < defaultThreadVary ∧ s.shared.liveThrNum < cfg.maxThrNum
    · obtain ⟨u, add', hr, hu, hgrown, hpass, hcreate⟩ := exists_turn cfg ht hex
      obtain ⟨v, hr', hv, hlater⟩ := ih hu (by omega)
      refine ⟨v, hr.trans hr', hgrown v hv, ?_⟩
      rintro ⟨j, hj, hlt, hfree⟩ hadd hlive
      cases hk : s.shared.slotFree k with
      | false =>
        obtain ⟨rfl, hsh⟩ := hpass hk
        have hjk : j ≠ k := by
          rintro rfl
          rw [hk] at hfree
          cases hfree
        rw [hsh] at hlater
        exact hlater ⟨j, by omega, hlt, hfree⟩ hadd hlive
      | true =>
        obtain ⟨hlt', hw⟩ := hcreate hk
        exact ⟨lt_of_lt_of_le hlt' hv.le, hw.mono (by decide) hv.others⟩
    · obtain ⟨u, hr, hu⟩ := exists_ended cfg ht hex
      exact ⟨u, hr, hu, fun _ hadd hlive => absurd ⟨by omega, hadd, hlive⟩ hex⟩

/-- The manager with ten tasks and room for workers comes to the end of the growth branch. -/
theorem Quiet.grow (h : Quiet s 10 live) (hlive : live < cfg.maxThrNum) :
    ∃ v, Reach (step (code cfg)) s v ∧ v.threads[0]? = some (.run .client) ∧
      v.threads[2]? = some (.run (.adjust (.growUnlock live 0))) ∧ v.owner = Function.update s.owner .lock (some 2) ∧
      Idle v.shared 10 v.shared.liveThrNum ∧
      ((∃ j, j < cfg.maxThrNum ∧ s.shared.slotFree j = true) → live < v.shared.liveThrNum ∧ HasWorker v) := by
  have htest : (decide (((10 : Nat) : Int) ≥ minWaitTaskNum) && decide (live < cfg.maxThrNum)) = true := by
    simp [minWaitTaskNum, hlive]
  obtain ⟨u, hr, hsh, hown, hu, hothers⟩ := ((h.observe cfg).branch rfl htest).lock rfl (h.free _)
  obtain ⟨v, hr', hv, hcreate⟩ := exists_grown cfg hu
  refine ⟨v, hr.trans hr', hv.others _ _ (by decide) (hothers _ _ (by decide) h.client), hv.manager,
    hv.owner.trans hown, hv.idle 10 live (hsh ▸ h.idle), ?_⟩
  rintro ⟨j, hj, hfree⟩
  rw [hsh, h.idle.live] at hcreate
  exact hcreate ⟨j, Nat.zero_le j, hj, hfree⟩ (by decide) hlive

/-- With ten tasks and a number of idle workers strictly between the bounds the manager takes both branches. -/
theorem Quiet.both (h : Quiet s 10 live) (h0 : 0 ≤ live) (hmin : cfg.minThrNum < live) (hmax : live < cfg.maxThrNum) :
    ∃ u, Reach (step (code cfg)) s u ∧ TakesBoth cfg u := by
  obtain ⟨v, hr, -, hv, -⟩ := h.grow cfg hmax
  refine ⟨v, hr, 2, live, 0, hv, ?_⟩
  simp only [Bool.and_eq_true, decide_eq_true_eq]
  omega

/-- With the fewest workers the manager only grows. -/
theorem Quiet.expand (h : Quiet s 10 cfg.minThrNum) (hlt : cfg.minThrNum < cfg.maxThrNum)
    (hslot : ∃ j, j < cfg.maxThrNum ∧ s.shared.slotFree j = true) :
    ∃ u, Reach (step (code cfg)) s u ∧ ∃ live, (cfg.minThrNum : Int) < live ∧ Quiet u 10 live ∧ HasWorker u := by
  obtain ⟨v, hr, hclient, hv, hown, hidle, hmore⟩ := h.grow cfg (by omega)
  obtain ⟨hlive, hw⟩ := hmore hslot
  have hstart := Solo.start (code cfg) hv
  rw [hown] at hstart
  have htest : (decide ((0 : Int) * 2 < cfg.minThrNum) && decide ((cfg.minThrNum : Int) > cfg.minThrNum)) = false := by
    simp
  obtain ⟨u, hr', hsh, hown', hu, hothers⟩ := (hstart.unlock rfl (h.free _)).branch rfl htest
  exact ⟨u, hr.trans hr', _, hlive, ⟨hothers _ _ (by decide) hclient, hu, hown'.trans h.owner, hsh ▸ hidle⟩,
    hw.mono (by decide) hothers⟩

/-- The signals that ask the workers to retire. -/
theorem signals_sent {n k : Nat} (hn : k + n = defaultThreadVary)
    (h : Solo (code cfg) 2 s p own (.adjust (.signal k))) : Solo (code cfg) 2 s p own (.adjust .loop) := by
  induction n generalizing k with
  | zero =>
    have hc : code (F := F) (A := A) cfg (.adjust (.signal k)) = .skip (.adjust .loop) := if_neg (by omega)
    exact h.update hc
  | succ n ih =>
    have hc : code (F := F) (A := A) cfg (.adjust (.signal k)) = .signal .queueNotEmpty (.adjust (.signal (k + 1))) :=
      if_pos (by omega)
    exact ih (by omega) (h.signal hc)

/-- With the most workers the manager only shrinks. -/
theorem Quiet.request (h : Quiet s size cfg.maxThrNum) (hlt : cfg.minThrNum < cfg.maxThrNum) (hw : HasWorker s) :
    ∃ u, Reach (step (code cfg)) s u ∧ Quiet u size cfg.maxThrNum ∧ 0 < u.shared.waitExitThrNum ∧ HasWorker u := by
  have hgrow : (decide ((size : Int) ≥ minWaitTaskNum) && decide ((cfg.maxThrNum : Int) < cfg.maxThrNum)) = false := by
    simp
  have hshrink : (decide ((0 : Int) * 2 < cfg.maxThrNum) && decide ((cfg.maxThrNum : Int) > cfg.minThrNum)) = true := by
    simp only [Bool.and_eq_true, decide_eq_true_eq]
    omega
  have hset := ((((h.observe cfg).branch rfl hgrow).branch rfl hshrink).lock rfl (h.free _)).update rfl
  have hsolo := signals_sent cfg (Nat.zero_add _) (hset.unlock rfl (h.free _))
  obtain ⟨u, hr, hu, hsh, hw'⟩ := h.again cfg hsolo
    ⟨h.idle.running, h.idle.released, h.idle.busy, h.idle.size, h.idle.live⟩
  refine ⟨u, hr, hu, ?_, hw' hw⟩
  rw [hsh]
  exact Int.natCast_pos.2 (by decide)

/-! ### A worker -/

/-- A worker has run alone. -/
theorem Quiet.worked (h : Quiet s size live) (hi : 3 ≤ w) (hsolo : Solo (code cfg) w s p s.owner l) {size' : Nat}
    {live' : Int} (hp : Idle p size' live') :
    ∃ u, Reach (step (code cfg)) s u ∧ Quiet u size' live' ∧ u.shared = p ∧ u.threads[w]? = some (.run l) := by
  obtain ⟨u, hr, hsh, hown, hu, hothers⟩ := hsolo
  exact ⟨u, hr,
    ⟨hothers _ _ (by omega) h.client, hothers _ _ (by omega) h.manager, hown.trans h.owner, hsh ▸ hp⟩, hsh, hu⟩

/-- A worker calls a task. -/
theorem Quiet.serve (h : Quiet s (size + 1) live) (hw : HasWorker s) :
    ∃ u, Reach (step (code cfg)) s u ∧ Quiet u size live ∧ u.shared.waitExitThrNum = s.shared.waitExitThrNum ∧
    HasWorker u := by
  obtain ⟨w, tid, hi, ht⟩ := hw
  have htest : (s.shared.queueSize == 0 && !s.shared.shutdown) = false := by
    rw [h.idle.size, Bool.and_eq_false_iff]
    exact .inl (beq_eq_false_iff_ne.2 (by omega))
  have htake := (((Solo.start (code cfg) ht).lock rfl (h.free _)).branch rfl htest).branch rfl h.idle.running
  have hcall := ((((htake.update rfl).broadcast rfl).unlock rfl (h.free _)).lock rfl (h.free _)).update rfl
  have hdone := (((hcall.unlock rfl (h.free _)).update rfl).update rfl).lock rfl (h.free _)
  obtain ⟨u, hr, hu, hsh, ht'⟩ := h.worked cfg hi ((hdone.update rfl).unlock rfl (h.free _)) (show Idle _ size live by
    refine ⟨h.idle.running, h.idle.released, ?_, ?_, h.idle.live⟩
    · show s.shared.busyThrNum + 1 - 1 = 0
      rw [h.idle.busy]
      rfl
    · show s.shared.queueSize - 1 = size
      rw [h.idle.size]
      push_cast
      omega)
  refine ⟨u, hr, hu, ?_, w, tid, hi, ht'⟩
  rw [hsh]
  rfl

theorem Quiet.drain (h : Quiet s size live) (hw : HasWorker s) :
    ∃ u, Reach (step (code cfg)) s u ∧ Quiet u 0 live ∧ u.shared.waitExitThrNum = s.shared.waitExitThrNum ∧
    HasWorker u := by
  induction size generalizing s with
  | zero => exact ⟨s, Reach.refl s, h, rfl, hw⟩
  | succ size ih =>
    obtain ⟨u, hr, hu, hwait, hw'⟩ := h.serve cfg hw
    obtain ⟨v, hr', hv, hwait', hw''⟩ := ih hu hw'
    exact ⟨v, hr.trans hr', hv, hwait'.trans hwait, hw''⟩

/-- A worker that finds no task retires when asked to. -/
theorem Quiet.retire (h : Quiet s 0 live) (hw : HasWorker s) (hwait : 0 < s.shared.waitExitThrNum)
    (hmin : cfg.minThrNum < live) : ∃ u, Reach (step (code cfg)) s u ∧ Quiet u 0 (live - 1) := by
  obtain ⟨w, tid, hi, ht⟩ := hw
  have htest : (s.shared.queueSize == 0 && !s.shared.shutdown) = true := by
    rw [h.idle.size, h.idle.running]
    rfl
  have hretires : s.shared.retires cfg = true := by
    simp only [Pool.retires, h.idle.live, Bool.and_eq_true, decide_eq_true_eq]
    omega
  have hexit := ((((Solo.start (code cfg) ht).lock rfl (h.free _)).branch rfl htest).wait rfl).update rfl
  rw [hretires] at hexit
  obtain ⟨u, hr, hu, -⟩ := h.worked cfg hi (hexit.unlock rfl (h.free _)) (show Idle _ 0 (live - 1) by
    unfold Pool.exitTest
    rw [if_pos hwait]
    refine ⟨h.idle.running, h.idle.released, h.idle.busy, h.idle.size, ?_⟩
    rw [if_pos (by rw [h.idle.live]; exact hmin), h.idle.live])
  exact ⟨u, hr, hu⟩

end Runs

/-! ## When an iteration takes both -/

theorem quiet_created {cfg : Config} {s₀ : PoolState F A} (h0 : Created cfg s₀) (hlt : cfg.minThrNum < cfg.maxThrNum) :
    Quiet s₀ 0 cfg.minThrNum ∧ s₀.shared.threads.getD cfg.minThrNum 0 = 0 := by
  obtain ⟨tids, others, garbage, hlen, -, -, rfl⟩ := h0.start
  refine ⟨⟨rfl, rfl, rfl, rfl, rfl, rfl, rfl, rfl⟩, ?_⟩
  show (tids ++ List.replicate (cfg.maxThrNum - cfg.minThrNum) 0).getD cfg.minThrNum 0 = 0
  rw [List.getD_eq_getElem?_getD, List.getElem?_append_right hlen.le, hlen, Nat.sub_self,
    List.getElem?_replicate_of_lt (by omega)]
  rfl

/-- Some run of the pool has an iteration of the manager that takes both branches if and only if the queue has
room for ten tasks and there are numbers of workers strictly between the bounds. -/
theorem takesBoth_iff {cfg : Config} (hle : cfg.minThrNum ≤ cfg.maxThrNum) {s₀ : PoolState F A} (h0 : Created cfg s₀) :
    (∃ s, Reach (step (code cfg)) s₀ s ∧ TakesBoth cfg s) ↔
    cfg.minThrNum + 1 < cfg.maxThrNum ∧ 10 ≤ cfg.queueMaxSize := by
  refine ⟨fun ⟨s, hr, hs⟩ => hs.bounds h0 hr, fun ⟨hgap, hroom⟩ => ?_⟩
  obtain ⟨hquiet, hslot⟩ := quiet_created h0 (by omega)
  obtain ⟨s₁, hr₁, hq₁, hthreads⟩ := hquiet.adds cfg 10 hroom
  have hfree : s₁.shared.slotFree cfg.minThrNum = true := by
    rw [Pool.slotFree, hthreads, hslot]
    rfl
  obtain ⟨s₂, hr₂, live, hmin, hq₂, hw₂⟩ := hq₁.expand cfg (by omega) ⟨_, by omega, hfree⟩
  have hreach₂ := hr₁.trans hr₂
  have hmax : live ≤ cfg.maxThrNum := by
    rw [← hq₂.idle.live]
    exact ((counters cfg).always (counters_created hle h0) hreach₂).live_le
  rcases hmax.lt_or_eq with hmax | rfl
  · obtain ⟨u, hr, hu⟩ := hq₂.both cfg (by omega) hmin hmax
    exact ⟨u, hreach₂.trans hr, hu⟩
  · -- the pool is full, and one worker has to retire first
    obtain ⟨s₃, hr₃, hq₃, hwait, hw₃⟩ := hq₂.request cfg (by omega) hw₂
    obtain ⟨s₄, hr₄, hq₄, hwait', hw₄⟩ := hq₃.drain cfg hw₃
    obtain ⟨s₅, hr₅, hq₅⟩ := hq₄.retire cfg hw₄ (hwait' ▸ hwait) hmin
    obtain ⟨s₆, hr₆, hq₆, -⟩ := hq₅.adds cfg 10 hroom
    obtain ⟨u, hr, hu⟩ := hq₆.both cfg (by omega) (by omega) (by omega)
    exact ⟨u, ((((hreach₂.trans hr₃).trans hr₄).trans hr₅).trans hr₆).trans hr, hu⟩

theorem takesBoth_iff_twoPool : ¬ ∃ s, Reach (step (code ⟨1, 2, 10⟩)) twoPool s ∧ TakesBoth ⟨1, 2, 10⟩ s := by
  rw [takesBoth_iff (by decide) twoPool_created]
  decide

/-- A pool of up to twelve workers, one at first. -/
def widePool : PoolState Nat Nat := threadpoolCreate ⟨1, 12, 10⟩ [1] [] fun _ => ⟨0, none⟩

theorem widePool_created : Created ⟨1, 12, 10⟩ widePool :=
  ⟨⟨[1], [], fun _ => ⟨0, none⟩, rfl, by decide, by decide, rfl⟩⟩

/-- Ten tasks come and no worker gets to run. The manager creates ten workers, and in its next iteration one. -/
def wideRun : List (Action (Outcome Nat Nat)) :=
  (List.range 10).flatMap (fun k => callAdd (4 + k) ++ go (4 + k) 2) ++
    go 2 11 ++ (List.range 10).map (fun k => .exec 2 (.tid (2 + k)) []) ++ go 2 3 ++
    go 2 21 ++ .exec 2 (.tid 12) [] :: go 2 1

/-- After it has created a worker, the manager goes on to ask ten to retire. -/
theorem grows_and_shrinks :
    ¬ ∀ (cfg : Config) (s₀ s : PoolState Nat Nat), cfg.minThrNum ≤ cfg.maxThrNum → Created cfg s₀ →
    Reach (step (code cfg)) s₀ s → ¬ TakesBoth cfg s := by
  intro h
  have hm : managerPc (after (step (code ⟨1, 12, 10⟩)) widePool wideRun).threads[2]? = some (.growUnlock 11 0) := by
    decide +kernel
  exact h ⟨1, 12, 10⟩ widePool _ (by decide) widePool_created (reach_after widePool wideRun) ⟨2, 11, 0,
    eq_of_managerPc hm, by decide⟩

end LinuxProgram.Threadpool
