/-
The counters of the pool. `live_thr_num` stays between its bounds, `busy_thr_num` is the number of
workers around a callback, and one request of the manager lets at most ten workers retire.
-/
import LinuxProgram.Threadpool.Wakeup

namespace LinuxProgram.Threadpool

open LinuxProgram.Machine

variable {F A : Type}

/-! ## Bounds -/

/-- A location counts one, or nothing. -/
def count (b : Loc F A → Bool) (l : Loc F A) : Int := if b l then 1 else 0

theorem tally_count (b : Loc F A → Bool) (ls : List (Loc F A)) : tally (count b) ls = ls.countP b := by
  induction ls with
  | nil => rfl
  | cons l ls ih =>
    rw [tally_cons, ih, List.countP_cons, count]
    split <;> simp [add_comm]

/-- The counters, when `n` workers are busy. -/
structure Counters (cfg : Config) (p : Pool F A) (n : Int) : Prop where
  live_le : p.liveThrNum ≤ cfg.maxThrNum
  wait_nonneg : 0 ≤ p.waitExitThrNum
  wait_le : p.waitExitThrNum ≤ defaultThreadVary
  busy : p.busyThrNum = n

/-- The fields that the counters are about. -/
theorem SameBooks.counters {cfg : Config} {p p' : Pool F A} {n : Int} (hp : SameBooks p p') (h : Counters cfg p n) :
    Counters cfg p' n where
  live_le := hp.live ▸ h.live_le
  wait_nonneg := hp.waitExit ▸ h.wait_nonneg
  wait_le := hp.waitExit ▸ h.wait_le
  busy := hp.busy ▸ h.busy

theorem counters (cfg : Config) : Tallying (code (F := F) (A := A) cfg) (count Loc.busy) Always (Counters cfg) := by
  refine tallying_of_books (fun hl => by rw [count, count, hl.busy]) ?_
  intro l p p' l' new x n hbooks _ hI
  cases hbooks with
  | keep hp hl hnew =>
    rw [tally_calls (fun _ => rfl) hnew, count, hl.busy, add_zero]
    exact hp.counters hI
  | stay hwait hp =>
    rw [tally_nil, add_zero]
    refine hp.counters ⟨hI.live_le, ?_, ?_, hI.busy⟩
    · show 0 ≤ p.waitExitThrNum - 1
      omega
    · have := hI.wait_le
      show p.waitExitThrNum - 1 ≤ _
      omega
  | retire hwait hmin hp =>
    rw [tally_nil, add_zero]
    refine hp.counters ⟨?_, ?_, ?_, hI.busy⟩
    · have := hI.live_le
      show p.liveThrNum - 1 ≤ _
      omega
    · show 0 ≤ p.waitExitThrNum - 1
      omega
    · have := hI.wait_le
      show p.waitExitThrNum - 1 ≤ _
      omega
  | leave hshut hp =>
    rw [tally_nil, add_zero]
    exact hp.counters hI
  | exit hp =>
    rw [tally_nil, add_zero]
    exact hp.counters ⟨hI.live_le, hI.wait_nonneg, hI.wait_le, hI.busy⟩
  | begin hp =>
    rw [tally_nil, add_zero]
    refine hp.counters ⟨hI.live_le, hI.wait_nonneg, hI.wait_le, ?_⟩
    have hn : p.busyThrNum = n + 0 := hI.busy
    show p.busyThrNum + 1 = n + 1
    omega
  | finish hp =>
    rw [tally_nil, add_zero]
    refine hp.counters ⟨hI.live_le, hI.wait_nonneg, hI.wait_le, ?_⟩
    have hn : p.busyThrNum = n + 1 := hI.busy
    show p.busyThrNum - 1 = n + 0
    omega
  | create hi hlive hfree htid halive hp =>
    subst hp
    have hn : p.busyThrNum = n + 0 := hI.busy
    refine ⟨?_, hI.wait_nonneg, hI.wait_le, ?_⟩
    · show p.liveThrNum + 1 ≤ _
      omega
    · show p.busyThrNum = n + 0 + (0 + 0)
      omega
  | request hp =>
    rw [tally_nil, add_zero]
    exact hp.counters ⟨hI.live_le, Int.natCast_nonneg _, le_refl _, hI.busy⟩
  | close hp =>
    rw [tally_nil, add_zero]
    exact hp.counters ⟨hI.live_le, hI.wait_nonneg, hI.wait_le, hI.busy⟩

/-! ## Retirement -/

/-- A step that is not a shrink request of the manager. -/
def NoRequest (s : PoolState F A) (a : Action (Outcome F A)) : Prop :=
  ∀ i x ws, a = .exec i x ws → s.threads[i]? ≠ some (.run (.adjust .shrinkSet))

/-- Before shutdown every worker that retires uses up one of the retirements requested; `n` workers have retired,
and `c` is the number they can come to. -/
def Retiring (c : Int) (p : Pool F A) (n : Int) : Prop := p.shutdown = false → p.waitExitThrNum + n ≤ c

theorem retiring (cfg : Config) (c : Int) : Tallying (code (F := F) (A := A) cfg) (count Loc.retired)
    (fun l _ _ _ => l ≠ .adjust .shrinkSet) (Retiring c) := by
  refine tallying_of_books (fun hl => by rw [count, count, hl.retired]) ?_
  intro l p p' l' new x n hbooks hK hI
  cases hbooks with
  | keep hp hl hnew =>
    rw [tally_calls (fun _ => rfl) hnew, count, hl.retired, add_zero, Retiring, hp.shutdown, hp.waitExit]
    exact hI
  | stay hwait hp =>
    rw [tally_nil, add_zero, Retiring, hp.shutdown, hp.waitExit]
    intro hs
    have : p.waitExitThrNum + (n + 0) ≤ c := hI hs
    show p.waitExitThrNum - 1 + (n + 0) ≤ c
    omega
  | retire hwait hmin hp =>
    rw [tally_nil, add_zero, Retiring, hp.shutdown, hp.waitExit]
    intro hs
    have : p.waitExitThrNum + (n + 0) ≤ c := hI hs
    show p.waitExitThrNum - 1 + (n + 1) ≤ c
    omega
  | leave hshut hp =>
    intro hs
    rw [hp.shutdown, hshut] at hs
    cases hs
  | exit hp | begin hp | finish hp =>
    rw [tally_nil, add_zero, Retiring, hp.shutdown, hp.waitExit]
    exact hI
  | create hi hlive hfree htid halive hp =>
    subst hp
    intro hs
    have : p.waitExitThrNum + (n + 0) ≤ c := hI hs
    show p.waitExitThrNum + (n + 0 + (0 + 0)) ≤ c
    omega
  | request hp => exact absurd rfl hK
  | close hp =>
    intro hs
    rw [hp.shutdown] at hs
    cases hs

/-- The number of workers that retire without a request in between is at most the number of retirements requested. -/
theorem retired_le {cfg : Config} {s t : PoolState F A} (h : ReachWith (step (code cfg)) NoRequest s t)
    (hs : t.shared.shutdown = false) :
    t.shared.waitExitThrNum + t.locs.countP Loc.retired ≤ s.shared.waitExitThrNum + s.locs.countP Loc.retired := by
  rw [← tally_count, ← tally_count]
  refine (retiring cfg _).valid (s := s) (fun _ => le_refl _) (h.mono fun u a hok => ?_) hs
  cases a with
  | exec i x ws =>
    rintro l hl rfl
    exact hok i x ws rfl hl
  | spurious i => trivial

/-! ## The accounts of the pool -/

/-- A busy worker has not retired. -/
theorem serving_of_busy {l : Loc F A} (h : l.busy = true) : l.serving = true := by
  rcases l with ⟨tid, pc⟩ | ⟨task, pc⟩ | pc | pc | _
  · cases pc <;> first | rfl | cases h
  all_goals cases h

theorem counters_created {cfg : Config} (hle : cfg.minThrNum ≤ cfg.maxThrNum) {s₀ : PoolState F A}
    (h0 : Created cfg s₀) : Counters cfg s₀.shared (tally (count Loc.busy) s₀.locs) := by
  obtain ⟨tids, others, garbage, -, -, -, rfl⟩ := h0.start
  have hidle : ∀ ts : List Nat, (ts.map fun tid => (.worker tid .lock : Loc F A)).countP Loc.busy = 0 := by
    intro ts
    rw [List.countP_eq_zero]
    intro l hl
    obtain ⟨tid, -, rfl⟩ := List.mem_map.1 hl
    exact Bool.false_ne_true
  refine ⟨Int.ofNat_le.2 hle, le_refl 0, Int.natCast_nonneg _, ?_⟩
  rw [tally_count]
  have hlocs : (threadpoolCreate cfg tids others garbage).locs =
      [.client, .destroy .store, .adjust .loop] ++ tids.map fun tid => .worker tid .lock := by
    simp [State.locs, threadpoolCreate, Thread.loc, Function.comp_def]
  rw [hlocs, List.countP_append, hidle]
  rfl

/-- Before shutdown, in every state: the live workers are counted and their number is within its bounds, at most ten
retire from one request to the next, and the busy ones are counted. -/
theorem thread_accounting {cfg : Config} (hle : cfg.minThrNum ≤ cfg.maxThrNum) {s₀ s : PoolState F A}
    (h0 : Created cfg s₀) (h : Reach (step (code cfg)) s₀ s) (hs : s.shared.shutdown = false) :
    (cfg.minThrNum ≤ s.shared.liveThrNum ∧ s.shared.liveThrNum ≤ cfg.maxThrNum) ∧
    s.shared.liveThrNum = s.locs.countP Loc.serving ∧
    (0 ≤ s.shared.waitExitThrNum ∧ s.shared.waitExitThrNum ≤ 10) ∧
    (∀ t, ReachWith (step (code cfg)) NoRequest s t → t.shared.shutdown = false →
      t.locs.countP Loc.retired ≤ s.locs.countP Loc.retired + 10) ∧
    s.shared.busyThrNum = s.locs.countP Loc.busy ∧
    (0 ≤ s.shared.busyThrNum ∧ s.shared.busyThrNum ≤ s.shared.liveThrNum) := by
  have hcounters : ∀ {t}, Reach (step (code cfg)) s₀ t → Counters cfg t.shared (tally (count Loc.busy) t.locs) :=
    fun ht => (counters cfg).always (counters_created hle h0) ht
  have hc := hcounters h
  have hwait : s.shared.waitExitThrNum ≤ 10 := hc.wait_le
  have hlive : s.shared.liveThrNum = s.locs.countP Loc.serving := by
    rw [← tally_count]
    exact ((account h0 h).exact hs).symm
  have hbusy : s.shared.busyThrNum = s.locs.countP Loc.busy := by
    rw [← tally_count]
    exact hc.busy
  refine ⟨⟨(account h0 h).min_le, hc.live_le⟩, hlive, ⟨hc.wait_nonneg, hwait⟩, ?_, hbusy, ?_, ?_⟩
  · intro t ht hts
    have hle := retired_le ht hts
    have ht0 := (hcounters (h.trans ht.reach)).wait_nonneg
    omega
  · rw [hbusy]
    exact Int.natCast_nonneg _
  · rw [hbusy, hlive]
    exact Int.ofNat_le.2 (List.countP_mono_left fun l _ hl => serving_of_busy hl)

/-- Ten calls of `threadpool_add`, from thread `i` on; then an iteration of the manager that creates a worker with the
id `tid` in the second slot. -/
def growRun (i tid : Nat) : List (Action (Outcome Nat Nat)) :=
  (List.range 10).flatMap (fun k => addRun (i + k) ⟨7, none⟩) ++ go 2 11 ++ [.exec 2 (.tid tid) []] ++ go 2 2

/-- Thread 3 executes ten tasks, worker `i` finds none and waits, and an iteration of the manager makes it retire. -/
def retireRun (i : Nat) : List (Action (Outcome Nat Nat)) :=
  go 3 140 ++ go i 3 ++ go 2 14 ++ [.exec 2 .none [i]] ++ go 2 10 ++ go i 4

/-- The second worker, thread 14, is about to call a task. -/
def grown : PoolState Nat Nat := after (step (code ⟨1, 2, 10⟩)) twoPool (growRun 4 2 ++ go 14 8)

/-- It has retired, and nine more may. -/
def shrunk : PoolState Nat Nat := after (step (code ⟨1, 2, 10⟩)) twoPool (growRun 4 2 ++ retireRun 14)

theorem thread_accounting_growRun :
    (grown.shared.liveThrNum = 2 ∧ grown.locs.countP Loc.serving = 2 ∧
      grown.shared.busyThrNum = 1 ∧ grown.locs.countP Loc.busy = 1) ∧
    shrunk.shared.liveThrNum = 1 ∧ shrunk.locs.countP Loc.serving = 1 ∧ shrunk.locs.countP Loc.retired = 1 ∧
    shrunk.shared.waitExitThrNum = 9 ∧
    ∀ t, ReachWith (step (code ⟨1, 2, 10⟩)) NoRequest shrunk t → t.shared.shutdown = false →
      t.locs.countP Loc.retired ≤ 11 := by
  have hgrown : Reach (step (code ⟨1, 2, 10⟩)) twoPool grown := reach_after twoPool _
  have hshrunk : Reach (step (code ⟨1, 2, 10⟩)) twoPool shrunk := reach_after twoPool _
  obtain ⟨-, hlive, -, -, hbusy, -⟩ := thread_accounting (by decide) twoPool_created hgrown (by decide +kernel)
  obtain ⟨-, hlive', -, hretired, -, -⟩ := thread_accounting (by decide) twoPool_created hshrunk (by decide +kernel)
  have htwo : grown.shared.liveThrNum = 2 := by decide +kernel
  have hone : grown.shared.busyThrNum = 1 := by decide +kernel
  have hleft : shrunk.shared.liveThrNum = 1 := by decide +kernel
  have hgone : shrunk.locs.countP Loc.retired = 1 := by decide +kernel
  rw [hgone] at hretired
  exact ⟨⟨htwo, by omega, hone, by omega⟩, hleft, by omega, hgone, by decide +kernel, hretired⟩

end LinuxProgram.Threadpool
