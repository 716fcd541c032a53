/-
Mutual exclusion in the thread pool: which program counters hold `lock` and which hold
`thread_counter`, and that in every reachable state the holder of each mutex is the one thread
there. `threadpool_free` takes both mutexes and never gives them back.
-/
import LinuxProgram.Threadpool.Code

namespace LinuxProgram.Threadpool

open LinuxProgram.Machine

variable {F A : Type}

/-! ## Which locations hold which mutex -/

def WorkerPc.held : WorkerPc F A → List Mutex
  | .test | .condWait | .exitTest | .exitUnlock | .shutdownTest | .shutdownUnlock | .take | .notFull _
  | .unlock _ => [.lock]
  | .busyInc _ | .busyUnlock _ | .busyDec | .idleUnlock => [.threadCounter]
  | .lock | .exiting | .exited | .busyLock _ | .call _ | .running _ | .idleLock => []

def AddPc.held : AddPc → List Mutex
  | .test | .condWait | .shutdownTest | .shutdownBroadcast | .shutdownUnlock | .put | .signal | .unlock => [.lock]
  | .lock | .returned _ => []

def AdjustPc.held : AdjustPc → List Mutex
  | .read | .unlock .. | .grow .. | .growUnlock .. | .shrinkSet | .shrinkUnlock => [.lock]
  | .readBusy .. | .counterUnlock .. => [.threadCounter]
  | .loop | .sleep | .lock | .counterLock .. | .growTest .. | .growLock .. | .shrinkTest .. | .shrinkLock
  | .signal _ | .returned => []

def DestroyPc.held : DestroyPc → List Mutex
  | .store | .loop _ | .bcast _ | .freeQueue | .freeThreads | .lockLock => []
  | .destroyLock | .lockCounter => [.lock]
  | .destroyCounter | .destroyNotEmpty | .destroyNotFull | .freePool | .returned => [.lock, .threadCounter]

def Loc.held : Loc F A → List Mutex
  | .worker _ pc => pc.held
  | .add _ pc => pc.held
  | .adjust pc => pc.held
  | .destroy pc => pc.held
  | .client => []

def Loc.holds (m : Mutex) (l : Loc F A) : Bool := l.held.contains m

/-! ## Assignments of the program -/

section Acts

variable {cfg : Config} {f : Nat → Pool F A → Outcome F A → Option (Pool F A × Loc F A × List (Loc F A))}
  {i : Nat} {p p' : Pool F A} {x : Outcome F A} {l l' : Loc F A} {new : List (Loc F A)}

/-- One iteration of the growing loop: no new thread, or one in a free slot. -/
theorem growStep_cases {k add : Nat} {live busy : Int} (h : growStep cfg k add live busy p x = some (p', l', new)) :
    (p' = p ∧ new = [] ∧ (l' = .adjust (.grow (k + 1) add live busy) ∨ l' = .adjust (.growUnlock live busy))) ∨
    ∃ tid, k < cfg.maxThrNum ∧ add < defaultThreadVary ∧ p.liveThrNum < cfg.maxThrNum ∧ p.slotFree k = true ∧
      tid ≠ 0 ∧ p.isThreadAlive tid = false ∧ p' = p.create k tid ∧
      l' = .adjust (.grow (k + 1) (add + 1) live busy) ∧ new = [.worker tid .lock] := by
  unfold growStep at h
  split at h
  · rename_i hc
    split at h
    · rename_i hfree
      split at h
      · rename_i tid
        split at h
        · rename_i ht
          cases h
          exact .inr ⟨tid, hc.1, hc.2.1, hc.2.2, hfree, ht.1, ht.2, rfl, rfl, rfl⟩
        · cases h
      · cases h
    · cases h; exact .inl ⟨rfl, rfl, .inl rfl⟩
  · cases h; exact .inl ⟨rfl, rfl, .inr rfl⟩

/-- The program that makes the calls starts one call of `threadpool_add`. -/
theorem client_acts (cfg : Config) : (code (F := F) (A := A) cfg .client).Acts fun _ p p' l' new =>
    p' = p ∧ l' = .client ∧ ∃ task, new = [.add task .lock] := by
  intro i p x p' l' new h
  simp only at h
  split at h
  · rename_i task
    split at h
    · cases h; exact ⟨rfl, rfl, task, rfl⟩
    · cases h
  · cases h

end Acts

theorem growStep_held {cfg : Config} {k add : Nat} {live busy : Int} {p p' : Pool F A} {x : Outcome F A} {l' : Loc F A}
    {new : List (Loc F A)} (h : growStep cfg k add live busy p x = some (p', l', new)) :
    l'.held = [.lock] ∧ ∀ n ∈ new, n.held = [] := by
  rcases growStep_cases h with ⟨-, rfl, rfl | rfl⟩ | ⟨tid, -, -, -, -, -, -, -, rfl, rfl⟩ <;>
    simp [Loc.held, AdjustPc.held, WorkerPc.held]

/-- The program counters hold the mutexes as the statements take and release them. -/
theorem locking (cfg : Config) : Locking (code (F := F) (A := A) cfg) Loc.holds := by
  rintro (⟨tid, pc⟩ | ⟨task, pc⟩ | pc | pc)
  · cases pc with
    | exitTest =>
      refine locksAs_update _ _ fun p m => ?_
      split <;> rfl
    | _ => simp +contextual [code, threadpoolThread, Loc.holds, Loc.held, WorkerPc.held]
  · cases pc <;> simp +contextual [code, threadpoolAdd, Loc.holds, Loc.held, AddPc.held]
  · cases pc with
    | grow k add live busy =>
      intro i p x p' l' new h
      obtain ⟨h1, h2⟩ := growStep_held h
      exact ⟨fun m => by rw [Loc.holds, h1]; rfl, fun n hn m => by rw [Loc.holds, h2 n hn]; rfl⟩
    | signal k =>
      simp only [code, adjustThread]
      split <;> simp [Loc.holds, Loc.held, AdjustPc.held]
    | _ => simp +contextual [code, adjustThread, Loc.holds, Loc.held, AdjustPc.held]
  · cases pc <;> simp +contextual [code, threadpoolDestroy, Loc.holds, Loc.held, DestroyPc.held]
  · intro i p x p' l' new h
    obtain ⟨rfl, rfl, task, rfl⟩ := client_acts cfg i p x p' l' new h
    simp [Loc.holds, Loc.held, AddPc.held]

/-- The threads of a new pool. -/
theorem Created.mem_threads {cfg : Config} {s₀ : PoolState F A} (h0 : Created cfg s₀) {t : Thread Mutex Cond (Loc F A)}
    (ht : t ∈ s₀.threads) : t = .run .client ∨ t = .run (.destroy .store) ∨ t = .run (.adjust .loop) ∨
      ∃ tid, t = .run (.worker tid .lock) := by
  obtain ⟨tids, others, garbage, -, -, -, rfl⟩ := h0.start
  simp only [threadpoolCreate, List.mem_append, List.mem_cons, List.not_mem_nil, or_false, List.mem_map] at ht
  rcases ht with (rfl | rfl | rfl) | ⟨tid, -, rfl⟩
  · exact .inl rfl
  · exact .inr (.inl rfl)
  · exact .inr (.inr (.inl rfl))
  · exact .inr (.inr (.inr ⟨tid, rfl⟩))

theorem Created.mem_locs {cfg : Config} {s₀ : PoolState F A} (h0 : Created cfg s₀) {l : Loc F A} (hl : l ∈ s₀.locs) :
    l = .client ∨ l = .destroy .store ∨ l = .adjust .loop ∨ ∃ tid, l = .worker tid .lock := by
  obtain ⟨t, ht, rfl⟩ := List.mem_map.1 hl
  rcases h0.mem_threads ht with rfl | rfl | rfl | ⟨tid, rfl⟩
  · exact .inl rfl
  · exact .inr (.inl rfl)
  · exact .inr (.inr (.inl rfl))
  · exact .inr (.inr (.inr ⟨tid, rfl⟩))

/-- Mutual exclusion in every reachable state. -/
theorem mutexInv {cfg : Config} {s₀ s : PoolState F A} (h0 : Created cfg s₀) (h : Reach (step (code cfg)) s₀ s) :
    MutexInv (code cfg) Loc.holds s := by
  refine (locking cfg).mutex ?_ h
  refine MutexInv.start (fun m => ?_) fun t ht => ?_
  · obtain ⟨tids, others, garbage, -, -, -, rfl⟩ := h0.start
    rfl
  · rcases h0.mem_threads ht with rfl | rfl | rfl | ⟨tid, rfl⟩ <;> exact ⟨_, rfl, fun m => rfl⟩

end LinuxProgram.Threadpool
