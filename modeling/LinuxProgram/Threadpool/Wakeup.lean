/-
Which wakeups of the thread pool are lost. `threadpool_add` signals `queue_not_empty` once for
each task, and the woken worker may retire instead of taking the task, because `wait_exit_thr_num`
is still positive from an earlier shrink. If every worker that retires leaves no task or another
worker that is up, a task is never left in the queue with all workers asleep; and each retirement
that does not do so leaves one.
-/
import LinuxProgram.Threadpool.Queue
import LinuxProgram.Threadpool.Account

namespace LinuxProgram.Threadpool

open LinuxProgram.Machine

variable {F A : Type}

/-! ## The property -/

/-- A worker that has not retired and is not blocked un-woken. -/
def awake (t : Thread Mutex Cond (Loc F A)) : Bool := t.loc.serving && !t.isBlocked

/-- While the pool is in use and its lock is free, a queued task finds some worker awake. -/
def NoLostWakeup (s : PoolState F A) : Prop :=
  s.shared.shutdown = false → s.owner .lock = none → 0 < s.shared.queueSize → ∃ t ∈ s.threads, awake t = true

/-- Worker `i` may retire in `s`: the queue is empty, or another worker is awake. -/
def MayRetire (s : PoolState F A) (i : Nat) : Prop :=
  s.shared.queueSize ≤ 0 ∨
    ∃ (j : Nat) (t : Thread Mutex Cond (Loc F A)), j ≠ i ∧ s.threads[j]? = some t ∧ awake t = true

/-- A woken worker that is about to retire, before shutdown, may do so. -/
def RetiresSafely (cfg : Config) (s : PoolState F A) : Action (Outcome F A) → Prop
  | .exec i _ _ => ∀ tid, s.threads[i]? = some (.run (.worker tid .exitTest)) → s.shared.retires cfg = true →
      s.shared.shutdown = false → MayRetire s i
  | .spurious _ => True

instance (s : PoolState F A) : Decidable (NoLostWakeup s) := by unfold NoLostWakeup; infer_instance

/-! ## What a statement does to the workers and the queue -/

/-- The waits of the program. -/
theorem wait_cases {cfg : Config} {l l' : Loc F A} {c : Cond} {m : Mutex} (h : code cfg l = .wait c m l') :
    m = .lock ∧ ((∃ tid, l = .worker tid .condWait ∧ c = .queueNotEmpty ∧ l' = .worker tid .exitTest) ∨
      ∃ task, l = .add task .condWait ∧ c = .queueNotFull ∧ l' = .add task .test) := by
  rcases l with ⟨tid, pc⟩ | ⟨task, pc⟩ | pc | pc | _
  · cases pc <;> cases h
    exact ⟨rfl, .inl ⟨tid, rfl, rfl, rfl⟩⟩
  · cases pc <;> cases h
    exact ⟨rfl, .inr ⟨task, rfl, rfl, rfl⟩⟩
  · cases pc with
    | signal k =>
      simp only [code, adjustThread] at h
      split at h <;> cases h
    | _ => cases h
  · cases pc <;> cases h
  · cases h

/-- A statement on the shared data does not take shutdown back, fills the queue only before a
signal, and takes a worker out of service only at shutdown or when it retires. -/
structure Served (cfg : Config) (l : Loc F A) (p p' : Pool F A) (l' : Loc F A) : Prop where
  shutdown : p'.shutdown = false → p.shutdown = false
  filled : p.queueSize < p'.queueSize → ∃ task, l' = .add task .signal
  serving : l.serving = true → l'.serving = true ∨ p'.shutdown = true ∨
    (∃ tid, l = .worker tid .exitTest) ∧ p.retires cfg = true ∧ p'.queueSize = p.queueSize

/-- Only the call of `threadpool_destroy` changes the flag. -/
theorem Books.shutdown {cfg : Config} {p p' : Pool F A} {l l' : Loc F A} {new : List (Loc F A)}
    (h : Books cfg p p' l l' new) (hs : p'.shutdown = false) : p.shutdown = false := by
  cases h with
  | create hi hlive hfree htid halive hp =>
    subst hp
    exact hs
  | close hp =>
    rw [hp.shutdown] at hs
    cases hs
  | keep hp | stay _ hp | retire _ _ hp | leave _ hp | exit hp | begin hp | finish hp | request hp =>
    exact hp.shutdown.symm.trans hs

theorem served (cfg : Config) (l : Loc F A) : (code cfg l).Acts fun _ p p' l' _ => Served cfg l p p' l' := by
  cases hc : code cfg l with
  | act f =>
    intro i p x p' l' new hf
    have hbooks := (booked cfg l).of hc hf
    have hsizes := (sizes cfg l).of hc hf
    refine ⟨hbooks.shutdown, fun hlt => ?_, fun hserv => ?_⟩
    · rcases hsizes with hsize | ⟨tid, rfl, hsize⟩ | ⟨task, rfl, -⟩
      · omega
      · omega
      · cases hc
        cases hf
        exact ⟨task, rfl⟩
    · cases hbooks with
      | keep hp hl hnew => exact .inl (hl.serving.trans hserv)
      | stay | begin | finish => exact .inl rfl
      | leave hshut hp => exact .inr (.inl (hp.shutdown.trans hshut))
      | @retire tid hwait hmin hp =>
        refine .inr (.inr ⟨⟨tid, rfl⟩, by simp [Pool.retires, hwait, hmin], ?_⟩)
        rcases hsizes with hsize | ⟨_, hl, -⟩ | ⟨_, hl, -⟩
        · exact hsize
        · cases hl
        · cases hl
      | exit | create | request | close => cases hserv
  | _ => trivial

/-! ## The invariant -/

/-- A queued task finds a worker awake, or the signal of some `threadpool_add` is on its way. -/
def Covered (s : PoolState F A) : Prop :=
  s.shared.shutdown = false → 0 < s.shared.queueSize →
    (∃ t ∈ s.threads, awake t = true) ∨ ∃ task, Thread.run (.add task .signal) ∈ s.threads

theorem awake_run {l : Loc F A} (h : l.serving = true) : awake (.run l) = true := by
  simp [awake, Thread.loc, Thread.isBlocked, h]

/-- A worker that does not execute a statement stays awake. -/
theorem awake_of_passive {t t' : Thread Mutex Cond (Loc F A)} (h : awake t = true) (hl : t'.loc = t.loc)
    (hb : t'.isBlocked = true → t' = t) : awake t' = true := by
  unfold awake at h ⊢
  rw [Bool.and_eq_true, Bool.not_eq_true'] at h ⊢
  refine ⟨hl ▸ h.1, ?_⟩
  cases hb' : t'.isBlocked with
  | false => rfl
  | true => rw [← hb hb', hb'] at h; cases h.2

/-- The shared data is unchanged, or a statement on it was executed. -/
theorem shared_cases {cfg : Config} {s s' : PoolState F A} {a : Action (Outcome F A)}
    (hs : step (code cfg) s a = some s') :
    s'.shared = s.shared ∨ ∃ l l' : Loc F A, Thread.run l' ∈ s'.threads ∧ Served cfg l s.shared s'.shared l' := by
  rcases step_shared hs with h | ⟨i, x, ws, l, f, l', new, -, -, hc, hf, h'⟩
  · exact .inl h
  · exact .inr ⟨l, l', List.mem_of_getElem? h', (served cfg _).of hc hf⟩

/-- Some worker awake stays awake, if a retiring worker leaves another one. -/
theorem awake_step {cfg : Config} {s s' : PoolState F A} {a : Action (Outcome F A)}
    (hO : OutlineInv (Pool.RingIf cfg) (fun _ l => l.asserts cfg) s) (hok : RetiresSafely cfg s a)
    (hs : step (code cfg) s a = some s') (hsd : s'.shared.shutdown = false) (hq : 0 < s'.shared.queueSize)
    {j : Nat} {t : Thread Mutex Cond (Loc F A)} (hj : s.threads[j]? = some t) (ht : awake t = true) :
    ∃ t' ∈ s'.threads, awake t' = true := by
  have hserv : t.loc.serving = true := (Bool.and_eq_true _ _ ▸ ht : _ ∧ _).1
  obtain ⟨t', h, hstep⟩ := step_thread hs hj
  cases hstep with
  | passive hl hb hr => exact ⟨_, List.mem_of_getElem? h, awake_of_passive ht hl hb⟩
  | @wait l x ws c m l' ha hc hsh =>
    -- a worker goes to sleep on an empty queue only
    obtain ⟨-, ⟨tid, rfl, -, -⟩ | ⟨task, rfl, -, -⟩⟩ := wait_cases hc
    · have h0 : s.shared.queueSize = 0 := hO.run j _ hj
      rw [hsh, h0] at hq
      exact absurd hq (Int.lt_irrefl 0)
    · cases hserv
  | @next l x ws l' ha hc hsh =>
    exact ⟨_, List.mem_of_getElem? h, awake_run ((kin_next hc).serving.trans hserv)⟩
  | @act l x ws f l' new ha hc hf =>
    obtain ⟨h1, -, h3⟩ := (served cfg _).of hc hf
    rcases h3 hserv with h3 | h3 | ⟨⟨tid, rfl⟩, hr, hsize⟩
    · exact ⟨_, List.mem_of_getElem? h, awake_run h3⟩
    · rw [h3] at hsd; cases hsd
    · subst ha
      rcases hok tid hj hr (h1 hsd) with h0 | ⟨k, t₁, hk, ht₁, hawake⟩
      · omega
      · obtain ⟨t₂, h₂, hstep⟩ := step_thread hs ht₁
        cases hstep with
        | passive hl hb _ => exact ⟨_, List.mem_of_getElem? h₂, awake_of_passive hawake hl hb⟩
        | wait ha | next ha | act ha => cases ha; exact absurd rfl hk

/-- A thread blocked on `queue_not_empty` is a worker in its wait loop. -/
theorem blocked_worker {cfg : Config} {s : PoolState F A} (hm : MutexInv (code cfg) Loc.holds s) {j : Nat}
    {t : Thread Mutex Cond (Loc F A)} (hj : s.threads[j]? = some t) (hb : t.blockedOn .queueNotEmpty = true) :
    ∃ tid, t = .blocked .queueNotEmpty .lock (.worker tid .exitTest) := by
  cases t with
  | blocked c m l =>
    have hc : c = .queueNotEmpty := by simpa [Thread.blockedOn] using hb
    obtain ⟨l₀, h⟩ := hm.blocked j c m l hj
    obtain ⟨rfl, ⟨tid, -, -, rfl⟩ | ⟨task, -, e, -⟩⟩ := wait_cases h
    · exact ⟨tid, by rw [hc]⟩
    · rw [hc] at e; cases e
  | _ => cases hb

/-- A blocked worker is blocked on `queue_not_empty`. -/
theorem serving_blocked {cfg : Config} {s : PoolState F A} (hm : MutexInv (code cfg) Loc.holds s) {j : Nat}
    {t : Thread Mutex Cond (Loc F A)} (hj : s.threads[j]? = some t) (hs : t.loc.serving = true)
    (hb : t.isBlocked = true) : t.blockedOn .queueNotEmpty = true := by
  cases t with
  | blocked c m l =>
    obtain ⟨l₀, h⟩ := hm.blocked j c m l hj
    obtain ⟨rfl, ⟨tid, -, rfl, -⟩ | ⟨task, -, -, rfl⟩⟩ := wait_cases h
    · rfl
    · cases hs
  | _ => cases hb

/-- The signal of `threadpool_add` wakes a worker unless one is awake. -/
theorem awake_of_signal {cfg : Config} {s : PoolState F A} {task : ThreadpoolTask F A} {i : Nat} {ws : List Nat}
    (hm : MutexInv (code cfg) Loc.holds s) (hw : SignalOk .queueNotEmpty ws s.threads)
    (hi : s.threads[i]? = some (.run (.add task .signal))) (hserv : ∃ l ∈ s.locs, l.serving = true) :
    ∃ t' ∈ (wakeAt ws s.threads).set i (.run (.add task .unlock)), awake t' = true := by
  obtain ⟨l, hl, hl'⟩ := hserv
  obtain ⟨t, ht, rfl⟩ := List.mem_map.1 hl
  obtain ⟨j, hj⟩ := List.mem_iff_getElem?.1 ht
  -- a thread other than `i` in the list after the signal
  have hmem : ∀ {k : Nat} {t' : Thread Mutex Cond (Loc F A)}, s.threads[k]? = some t' → t'.loc.serving = true →
      (if k ∈ ws then t'.wake else t') ∈ (wakeAt ws s.threads).set i (.run (.add task .unlock)) := by
    intro k t' hk hserv
    have hki : i ≠ k := by rintro rfl; rw [hi] at hk; cases hk; cases hserv
    refine List.mem_of_getElem? (i := k) ?_
    rw [List.getElem?_set_ne hki, wakeAt_getElem?, hk]; rfl
  by_cases hb : t.isBlocked = true
  · have hne : ws ≠ [] := hw.2 (List.any_eq_true.2 ⟨t, ht, serving_blocked hm hj hl' hb⟩)
    obtain ⟨k, hk⟩ := List.exists_mem_of_ne_nil ws hne
    obtain ⟨t₁, ht₁, hb₁⟩ : ∃ t₁, s.threads[k]? = some t₁ ∧ t₁.blockedOn .queueNotEmpty = true := by
      simpa [Option.any_eq_true] using hw.1 k hk
    obtain ⟨tid, rfl⟩ := blocked_worker hm ht₁ hb₁
    refine ⟨_, hmem ht₁ rfl, ?_⟩
    rw [if_pos hk]; rfl
  · refine ⟨_, hmem hj hl', ?_⟩
    split <;> simp [awake, hl', hb]

/-- One step keeps every queued task covered. -/
theorem covered_step {cfg : Config} {s s' : PoolState F A} {a : Action (Outcome F A)}
    (hm : MutexInv (code cfg) Loc.holds s) (hO : OutlineInv (Pool.RingIf cfg) (fun _ l => l.asserts cfg) s)
    (hserv : s.shared.shutdown = false → ∃ l ∈ s.locs, l.serving = true) (h : Covered s) (hok : RetiresSafely cfg s a)
    (hs : step (code cfg) s a = some s') : Covered s' := by
  intro hsd hq
  by_cases hfill : s.shared.queueSize < s'.shared.queueSize
  · -- the queue was filled
    rcases shared_cases hs with e | ⟨l, l', hl', hS⟩
    · rw [e] at hfill; exact absurd hfill (Int.lt_irrefl _)
    · obtain ⟨task, rfl⟩ := hS.filled hfill
      exact .inr ⟨task, hl'⟩
  have hsd₀ : s.shared.shutdown = false := by
    rcases shared_cases hs with e | ⟨l, l', hl', hS⟩
    · rw [← e]; exact hsd
    · exact hS.shutdown hsd
  rcases h hsd₀ (by omega) with ⟨t, ht, hawake⟩ | ⟨task, htask⟩
  · obtain ⟨j, hj⟩ := List.mem_iff_getElem?.1 ht
    exact .inl (awake_step hO hok hs hsd hq hj hawake)
  · obtain ⟨i, hi⟩ := List.mem_iff_getElem?.1 htask
    obtain ⟨t', h', hstep⟩ := step_thread hs hi
    cases hstep with
    | passive _ _ hr => exact .inr ⟨task, hr _ rfl ▸ List.mem_of_getElem? h'⟩
    | wait ha hc | act ha hc => cases hc
    | @next l x ws l' ha hc hsh =>
      subst ha
      rw [step_run hi] at hs
      simp only [code, threadpoolAdd, State.exec] at hs
      split at hs
      · rename_i hw; cases hs
        exact .inl (awake_of_signal hm hw hi (hserv hsd₀))
      · cases hs

/-- With the lock free no signal is on its way, so a worker is awake. -/
theorem Covered.noLostWakeup {cfg : Config} {s : PoolState F A} (hm : MutexInv (code cfg) Loc.holds s) (h : Covered s) :
    NoLostWakeup s := by
  intro hsd hfree hq
  rcases h hsd hq with h | ⟨task, htask⟩
  · exact h
  · obtain ⟨i, hi⟩ := List.mem_iff_getElem?.1 htask
    have := hm.free hfree hi
    cases this

/-! ## The step that loses a wakeup -/

/-- A worker that retires although it may not leaves, once it has given up the lock, a task in the
queue with every remaining worker asleep. -/
theorem lost_of_retires {cfg : Config} {s s' : PoolState F A} {a : Action (Outcome F A)}
    (hs : step (code cfg) s a = some s') (hok : ¬ RetiresSafely cfg s a) :
    ∃ v, Reach (step (code cfg)) s' v ∧ ¬ NoLostWakeup v := by
  cases a with
  | spurious i => exact absurd trivial hok
  | exec i x ws =>
    simp only [RetiresSafely, not_forall] at hok
    obtain ⟨tid, hi, hr, hsd, hmay⟩ := hok
    rw [step_update hi rfl, if_pos hr] at hs
    cases hs
    have hi' := set_getElem?_self hi (.run (.worker tid .exitUnlock))
    refine ⟨{ s with
        shared := s.shared.exitTest cfg, owner := Function.update s.owner .lock none,
        threads := (s.threads.set i (.run (.worker tid .exitUnlock))).set i (.run (.worker tid .exiting)) },
      (Reach.refl _).snoc (a := .exec i x ws) (by rw [step_run hi' x ws]; rfl), fun hno => hmay ?_⟩
    have hsize : (s.shared.exitTest cfg).queueSize = s.shared.queueSize := by
      unfold Pool.exitTest; split <;> rfl
    by_cases h0 : s.shared.queueSize ≤ 0
    · exact .inl h0
    · obtain ⟨t, ht, hawake⟩ := hno (by simpa using hsd) (by simp) (by rw [hsize]; omega)
      obtain ⟨j, hj⟩ := List.mem_iff_getElem?.1 ht
      simp only [List.set_set] at hj
      refine .inr ⟨j, t, ?_, ?_, hawake⟩
      · rintro rfl
        rw [set_getElem?_self hi] at hj
        cases hj; cases hawake
      · by_cases hij : i = j
        · subst hij
          rw [set_getElem?_self hi] at hj
          cases hj; cases hawake
        · rwa [List.getElem?_set_ne hij] at hj

/-- No wakeup is lost exactly in the runs in which every worker that retires leaves an empty queue
or another worker awake. -/
theorem noLostWakeup_exact (cfg : Config) (hmin : 1 ≤ cfg.minThrNum) (s₀ : PoolState F A) (h0 : Created cfg s₀) :
    ExactFor (step (code cfg)) (RetiresSafely cfg) NoLostWakeup s₀ := by
  refine ⟨fun t h => ?_, fun t a u _ hs hok => lost_of_retires hs hok⟩
  have hcovered : Covered t := by
    refine h.invariant (J := fun u => Reach (step (code cfg)) s₀ u) (fun u hu => hu) ?_
      fun u a u' hu hI hok hs => covered_step (mutexInv h0 hu) (ringInv h0 hu) (exists_serving hmin h0 hu) hI hok hs
    obtain ⟨tids, others, garbage, -, -, -, rfl⟩ := h0.start
    exact fun _ hq => absurd hq (Int.lt_irrefl 0)
  exact hcovered.noLostWakeup (mutexInv h0 h.reach)

/-- A pool of one worker, thread 3, that may grow to two. -/
def twoPool : PoolState Nat Nat := threadpoolCreate ⟨1, 2, 10⟩ [1] [] fun _ => ⟨0, none⟩

theorem twoPool_created : Created ⟨1, 2, 10⟩ twoPool :=
  ⟨⟨[1], [], fun _ => ⟨0, none⟩, rfl, by decide, by decide, rfl⟩⟩

/-- `n` statements of thread `i`. -/
def go (i n : Nat) : List (Action (Outcome Nat Nat)) := List.replicate n (.exec i .none [])

/-- A call of `threadpool_add`, as thread `i`, up to its signal. -/
def callAdd (i : Nat) : List (Action (Outcome Nat Nat)) := .exec 0 (.task ⟨0, none⟩) [] :: go i 4

/-- Ten calls fill the queue and the pool grows by thread 14. Thread 3 empties the queue. The manager asks
ten workers to retire and signals nobody, then both workers block. -/
def shrinkRun : List (Action (Outcome Nat Nat)) :=
  (List.range 10).flatMap (fun k => callAdd (4 + k) ++ go (4 + k) 2) ++
  go 2 11 ++ [.exec 2 (.tid 2) []] ++ go 2 3 ++
  go 3 140 ++ go 2 24 ++ go 3 3 ++ go 14 3

/-- One more call signals thread 3, which retires and gives up the lock. -/
def lostRun : List (Action (Outcome Nat Nat)) := shrinkRun ++ callAdd 15 ++ [.exec 15 .none [3]] ++ go 15 1 ++ go 3 3

/-- The woken worker retires and the task stays in the queue with the other worker asleep. -/
theorem retire_loses_wakeup : ¬ ∀ (cfg : Config) (s₀ s : PoolState Nat Nat), 1 ≤ cfg.minThrNum → Created cfg s₀ →
    Reach (step (code cfg)) s₀ s → NoLostWakeup s := by
  intro h
  exact absurd (h ⟨1, 2, 10⟩ twoPool _ (by decide) twoPool_created (reach_after twoPool lostRun)) (by decide +kernel)

theorem noLostWakeup_exact_twoPool :
    ExactFor (step (code ⟨1, 2, 10⟩)) (RetiresSafely ⟨1, 2, 10⟩) NoLostWakeup twoPool :=
  noLostWakeup_exact ⟨1, 2, 10⟩ (by decide) twoPool twoPool_created

end LinuxProgram.Threadpool
