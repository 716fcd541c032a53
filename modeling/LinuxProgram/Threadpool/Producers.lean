/-
Why no producer of the thread pool sleeps beside a free place. A call of `threadpool_add` blocks on
`queue_not_full` only when the queue is full, and whoever takes a task broadcasts to all of them before
it gives up the lock. How many producers are woken for one place, who gets it and who goes back to sleep
does not matter.
-/
import LinuxProgram.Machine.Broadcasts
import LinuxProgram.Threadpool.Wakeup

namespace LinuxProgram.Threadpool

open LinuxProgram.Machine

variable {F A : Type} {cfg : Config}

/-- The reason of a producer to sleep: unless the pool is shutting down, the queue is full. -/
def Pool.Full (cfg : Config) (p : Pool F A) : Prop := p.shutdown = false → p.queueSize = cfg.queueMaxSize

/-- A worker has taken a task and not yet broadcast `queue_not_full`. -/
def Loc.freed : Loc F A → Bool
  | .worker _ (.notFull _) => true
  | _ => false

theorem Loc.freed_cases {l : Loc F A} (h : l.freed = true) : ∃ tid task, l = .worker tid (.notFull task) := by
  unfold Loc.freed at h
  split at h
  · exact ⟨_, _, rfl⟩
  · cases h

/-- A place is freed only with a broadcast to follow. -/
theorem posting (cfg : Config) : Posting (code (F := F) (A := A) cfg) .queueNotFull (Pool.Full cfg) (·.freed = true)
    fun _ l => l.asserts cfg := by
  intro l
  by_cases hl : l.freed = true
  · obtain ⟨tid, task, rfl⟩ := Loc.freed_cases hl
    exact fun hne => absurd rfl hne
  cases hc : code cfg l with
  | lock m l' | unlock m l' | signal c l' => exact fun h => absurd h hl
  | broadcast c l' => exact fun _ h => absurd h hl
  | wait c m l' =>
    refine ⟨fun hcc i p hA _ => ?_, fun _ => hl⟩
    obtain ⟨-, ⟨tid, rfl, rfl, -⟩ | ⟨task, rfl, -, -⟩⟩ := wait_cases hc
    · cases hcc
    · exact hA
  | act f =>
    intro i p x p' l' new hf hA
    refine ⟨fun hfull => ?_, fun h => absurd h hl⟩
    have hsd := ((served cfg l).of hc hf).shutdown
    rcases (sizes cfg l).of hc hf with hsize | ⟨tid, rfl, -⟩ | ⟨task, rfl, -⟩
    · exact .inl fun h => hsize.trans (hfull (hsd h))
    · cases hc
      cases hf
      exact .inr rfl
    · -- a producer that puts its task has found a place
      exact .inl fun h => absurd (hfull (hsd h)) hA
  | halt => trivial

variable {s₀ s : PoolState F A}

/-- A blocked producer has a full queue or a broadcast to come, in every reachable state. -/
theorem posted (h0 : Created cfg s₀) (h : Reach (step (code cfg)) s₀ s) :
    Posted .queueNotFull (Pool.Full cfg) (·.freed = true) s := by
  refine (posting cfg).valid (fun u hu => (ringInv h0 hu).run) ?_ h
  obtain ⟨tids, others, garbage, -, -, -, rfl⟩ := h0.start
  simp [threadpoolCreate, Thread.blockedOn]

/-- Before shutdown a producer blocked un-woken means a full queue whenever the lock is free, and at any
other time a full queue or a worker about to wake every producer. -/
theorem blocked_full (h0 : Created cfg s₀) (h : Reach (step (code cfg)) s₀ s) (hsd : s.shared.shutdown = false)
    (hb : s.threads.any (·.blockedOn .queueNotFull) = true) :
    (s.owner .lock = none → s.shared.queueSize = cfg.queueMaxSize) ∧
    (s.shared.queueSize = cfg.queueMaxSize ∨
      ∃ (i : Nat) (tid : Nat) (task : ThreadpoolTask F A),
        s.threads[i]? = some (.run (.worker tid (.notFull task)))) := by
  rcases posted h0 h hb with hfull | ⟨l, hl, hmem⟩
  · exact ⟨fun _ => hfull hsd, .inl (hfull hsd)⟩
  · obtain ⟨tid, task, rfl⟩ := Loc.freed_cases hl
    obtain ⟨i, hi⟩ := List.mem_iff_getElem?.1 hmem
    refine ⟨fun hfree => ?_, .inr ⟨i, tid, task, hi⟩⟩
    -- the worker broadcasts with the lock
    have := (mutexInv h0 h).free hfree hi
    cases this

/-- The first call fills the queue of one place, the second one blocks. -/
def blockedRun : List (Action (Outcome Nat Nat)) :=
  callAdd 4 ++ go 4 2 ++ .exec 0 (.task ⟨0, none⟩) [] :: go 5 3

theorem blocked_full_onePool : (after (step (code ⟨1, 1, 1⟩)) onePool blockedRun).shared.queueSize = 1 :=
  (blocked_full onePool_created (reach_after onePool blockedRun) (by decide +kernel) (by decide +kernel)).1
    (by decide +kernel)

end LinuxProgram.Threadpool
