/-
Why the simple pool strands nobody. Each task that `addtask` adds and each task that `thrRun` takes is
announced by one signal, and a newcomer may take the task or the place before the woken thread has the
lock. Still, a worker that is blocked finds every queued task matched by a worker on its way to the
queue or by a signal on its way, and a blocked caller finds every free place matched by a caller on its
way.
-/
import LinuxProgram.Machine.Wakeups
import LinuxProgram.Simple.Queue

namespace LinuxProgram.Simple

open LinuxProgram.Machine

variable {E X K R G : Type}

/-! ## The property -/

/-- A worker woken from `not_empty_task` that has not tested the queue again. -/
def wokenWorker : Thread Mutex Cond (Loc K R G) → Bool
  | .woken _ (.worker _ .test) => true
  | _ => false

/-- A caller woken from `empty_task` that has not tested the queue again. -/
def wokenCaller : Thread Mutex Cond (Loc K R G) → Bool
  | .woken _ (.add _ _ _ .test) => true
  | _ => false

/-- A call of `addtask` that has unlocked and not signalled. -/
def unsignalled : Thread Mutex Cond (Loc K R G) → Bool
  | .run (.add _ _ _ .signal) => true
  | _ => false

/-- While a worker is blocked, the queued tasks are matched by woken workers and signals to come; while
a caller is blocked, the free places are matched by woken callers. -/
structure NobodyStranded (cfg : Config) (s : SimpleState E K R G) : Prop where
  workers : s.threads.any (·.blockedOn .notEmptyTask) = true →
    s.shared.pool.jobNum ≤ s.threads.countP wokenWorker + s.threads.countP unsignalled
  callers : s.threads.any (·.blockedOn .emptyTask) = true →
    cfg.maxJobNum - s.shared.pool.jobNum ≤ s.threads.countP wokenCaller

/-! ## Credits -/

/-- Who will take a task or signal for one. -/
def Loc.taskCredit : Loc K R G → Int
  | .worker _ .test | .worker _ .jobTest | .add _ _ _ .unlock | .add _ _ _ .signal => 1
  | _ => 0

def Loc.taskWoken : Loc K R G → Int
  | .worker _ .test => 1
  | _ => 0

/-- Who will take a place or signal for one. -/
def Loc.placeCredit : Loc K R G → Int
  | .add _ _ _ .test | .worker _ .signal => 1
  | _ => 0

def Loc.placeWoken : Loc K R G → Int
  | .add _ _ _ .test => 1
  | _ => 0

theorem Loc.taskCredit_nonneg (l : Loc K R G) : 0 ≤ l.taskCredit := by
  unfold Loc.taskCredit; split <;> omega

theorem Loc.taskWoken_nonneg (l : Loc K R G) : 0 ≤ l.taskWoken := by
  unfold Loc.taskWoken; split <;> omega

theorem Loc.placeCredit_nonneg (l : Loc K R G) : 0 ≤ l.placeCredit := by
  unfold Loc.placeCredit; split <;> omega

theorem Loc.placeWoken_nonneg (l : Loc K R G) : 0 ≤ l.placeWoken := by
  unfold Loc.placeWoken; split <;> omega

/-- A statement on the data outside the pool. -/
theorem announces_env {c : Cond} {need : Sys E G → Int} {cr wk : Loc K R G → Int} {A : Nat → Loc K R G → Sys E G → Prop}
    {l : Loc K R G} {f : Nat → Sys E G → X → Option (Sys E G × Loc K R G × List (Loc K R G))}
    (hf : ∀ i s x s' l' new, f i s x = some (s', l', new) → need s' = need s ∧ cr l' = cr l) :
    (Instr.act f : SimpleInstr E X K R G).Announces c need cr wk A l := by
  intro i s x s' l' new n h _ _ hle
  obtain ⟨h1, h2⟩ := hf i s x s' l' new h
  rw [h1, h2]
  exact hle

/-- Each added task is announced to the workers. -/
theorem taskAnnouncing (cfg : Config) (w : World E X K R G) :
    Announcing (code cfg w) .notEmptyTask (fun s => s.pool.jobNum)
    Loc.taskCredit Loc.taskWoken fun _ l => l.found cfg := by
  rintro (⟨task, pc⟩ | ⟨task, r⟩ | ⟨fd, evs, next, pc⟩ | k | pc)
  · cases pc with
    | test =>
      refine announces_update _ _ fun i s n _ hn hle => ?_
      simp only [Loc.taskCredit] at hle
      show s.pool.jobNum ≤ n + Loc.taskCredit (if _ then _ else _)
      split
      · rename_i hb
        rw [Bool.and_eq_true, decide_eq_true_eq] at hb
        exact le_trans hb.1 (by simpa [Loc.taskCredit] using hn)
      · exact hle
    | condWait => exact ⟨⟨fun _ _ hA => hA, le_refl _⟩, le_refl _⟩
    | jobTest =>
      refine announces_update _ _ fun i s n _ hn hle => ?_
      simp only [Loc.taskCredit] at hle
      dsimp only
      split
      · show s.pool.jobNum - 1 ≤ n + 0
        omega
      · show s.pool.jobNum ≤ n + 0
        omega
    | shutdownTest =>
      refine announces_same _ _ (fun _ _ => rfl) fun s => ?_
      split <;> exact le_refl _
    | exit | call => exact announces_same _ _ (fun _ _ => rfl) fun _ => le_refl _
    | signal => exact show (0 : Int) ≤ 0 + 0 by omega
    | lock => exact show (0 : Int) ≤ 1 by omega
    | exited => trivial
    | exitUnlock | unlock => exact le_refl (0 : Int)
  · simp only [code]
    split
    · refine announces_env fun i s x s' l' new h => ?_
      obtain ⟨e, -, he⟩ := Option.map_eq_some_iff.1 h
      cases he
      exact ⟨rfl, rfl⟩
    · exact announces_same _ _ (fun _ _ => rfl) fun _ => le_refl _
  · cases pc with
    | test =>
      refine announces_update _ _ fun i s n _ hn hle => ?_
      simp only [Loc.taskCredit] at hle
      split
      · exact hle
      · show s.pool.jobNum + 1 ≤ n + 1
        omega
    | condWait => exact ⟨le_refl (0 : Int), le_refl (0 : Int)⟩
    | signal => exact show (1 : Int) ≤ 0 + 1 by omega
    | lock => exact le_refl (0 : Int)
    | unlock => exact le_refl (1 : Int)
  · simp only [code]
    split
    · exact announces_same _ _ (fun _ _ => rfl) fun _ => le_refl _
    · refine announces_env fun i s x s' l' new h => ?_
      obtain ⟨e, -, he⟩ := Option.map_eq_some_iff.1 h
      cases he
      exact ⟨rfl, rfl⟩
    · trivial
  · cases pc with
    | broadcast => exact fun _ => le_refl (0 : Int)
    | returned => trivial
    | _ => exact announces_same _ _ (fun _ _ => rfl) fun _ => le_refl _

/-- Each freed place is announced to the callers. -/
theorem placeAnnouncing (cfg : Config) (w : World E X K R G) : Announcing (code cfg w) .emptyTask
    (fun s => cfg.maxJobNum - s.pool.jobNum) Loc.placeCredit Loc.placeWoken fun _ l => l.found cfg := by
  rintro (⟨task, pc⟩ | ⟨task, r⟩ | ⟨fd, evs, next, pc⟩ | k | pc)
  · cases pc with
    | test | shutdownTest =>
      refine announces_same _ _ (fun _ _ => rfl) fun s => ?_
      split <;> exact le_refl _
    | jobTest =>
      refine announces_update _ _ fun i s n _ hn hle => ?_
      simp only [Loc.placeCredit] at hle
      dsimp only
      split
      · show cfg.maxJobNum - (s.pool.jobNum - 1) ≤ n + 1
        omega
      · exact hle
    | exit | call => exact announces_same _ _ (fun _ _ => rfl) fun _ => le_refl _
    | signal => exact show (1 : Int) ≤ 0 + 1 by omega
    | condWait => exact ⟨le_refl (0 : Int), le_refl (0 : Int)⟩
    | exited => trivial
    | lock | exitUnlock | unlock => exact le_refl (0 : Int)
  · simp only [code]
    split
    · refine announces_env fun i s x s' l' new h => ?_
      obtain ⟨e, -, he⟩ := Option.map_eq_some_iff.1 h
      cases he
      exact ⟨rfl, rfl⟩
    · exact announces_same _ _ (fun _ _ => rfl) fun _ => le_refl _
  · cases pc with
    | test =>
      refine announces_update _ _ fun i s n _ hn hle => ?_
      simp only [Loc.placeCredit] at hle
      split
      · show cfg.maxJobNum - s.pool.jobNum ≤ n + 0
        omega
      · show cfg.maxJobNum - (s.pool.jobNum + 1) ≤ n + 0
        omega
    | condWait =>
      refine ⟨⟨fun i s hA => ?_, le_refl (1 : Int)⟩, le_refl (1 : Int)⟩
      have hfull : cfg.maxJobNum ≤ s.pool.jobNum := hA
      show cfg.maxJobNum - s.pool.jobNum ≤ 0
      omega
    | signal => exact show (0 : Int) ≤ 0 + 0 by omega
    | lock => exact show (0 : Int) ≤ 1 by omega
    | unlock => exact le_refl (0 : Int)
  · simp only [code]
    split
    · exact announces_same _ _ (fun _ _ => rfl) fun _ => show (0 : Int) ≤ 0 by omega
    · refine announces_env fun i s x s' l' new h => ?_
      obtain ⟨e, -, he⟩ := Option.map_eq_some_iff.1 h
      cases he
      exact ⟨rfl, rfl⟩
    · trivial
  · cases pc with
    | broadcast => exact fun _ => le_refl (0 : Int)
    | returned => trivial
    | _ => exact announces_same _ _ (fun _ _ => rfl) fun _ => le_refl _

/-! ## Counting with the lock free -/

section Free

variable {cfg : Config} {w : World E X K R G} {s : SimpleState E K R G}

/-- With the lock free the only credits are those of woken threads and of signals to come. -/
theorem tally_taskCredit_le (hm : MutexInv (code cfg w) Loc.holds s) (hfree : s.owner .poolLock = none) :
    tally (Thread.credit Loc.taskCredit Loc.taskWoken) s.threads ≤
      s.threads.countP wokenWorker + s.threads.countP unsignalled := by
  refine tally_le_countP fun t ht => ?_
  obtain ⟨i, hi⟩ := List.mem_iff_getElem?.1 ht
  cases t with
  | blocked c m l => exact le_refl (0 : Int)
  | woken m l =>
    rcases l with ⟨task, pc⟩ | ⟨task, r⟩ | ⟨fd, evs, next, pc⟩ | k | pc
    · cases pc <;> exact le_refl (0 : Int)
    all_goals exact le_refl (0 : Int)
  | run l =>
    have hl := hm.free hfree hi
    rcases l with ⟨task, pc⟩ | ⟨task, r⟩ | ⟨fd, evs, next, pc⟩ | k | pc
    · cases pc <;> first | exact le_refl (0 : Int) | cases hl
    · exact le_refl (0 : Int)
    · cases pc <;> first | exact le_refl (0 : Int) | exact le_refl (1 : Int) | cases hl
    all_goals exact le_refl (0 : Int)

theorem tally_placeCredit_le (hm : MutexInv (code cfg w) Loc.holds s) (hfree : s.owner .poolLock = none) :
    tally (Thread.credit Loc.placeCredit Loc.placeWoken) s.threads ≤ s.threads.countP wokenCaller := by
  have h : tally (Thread.credit Loc.placeCredit Loc.placeWoken) s.threads ≤
      s.threads.countP wokenCaller + s.threads.countP fun _ => false := by
    refine tally_le_countP fun t ht => ?_
    obtain ⟨i, hi⟩ := List.mem_iff_getElem?.1 ht
    cases t with
    | blocked c m l => exact le_refl (0 : Int)
    | woken m l =>
      rcases l with ⟨task, pc⟩ | ⟨task, r⟩ | ⟨fd, evs, next, pc⟩ | k | pc
      · exact le_refl (0 : Int)
      · exact le_refl (0 : Int)
      · cases pc <;> exact le_refl (0 : Int)
      all_goals exact le_refl (0 : Int)
    | run l =>
      have hl := hm.free hfree hi
      rcases l with ⟨task, pc⟩ | ⟨task, r⟩ | ⟨fd, evs, next, pc⟩ | k | pc
      · cases pc <;> first | exact le_refl (0 : Int) | cases hl
      · exact le_refl (0 : Int)
      · cases pc <;> first | exact le_refl (0 : Int) | cases hl
      all_goals exact le_refl (0 : Int)
  have h0 : s.threads.countP (fun _ => false) = 0 := by simp
  rw [h0, Nat.cast_zero, add_zero] at h
  exact h

end Free

/-- In every reachable state with the lock free and `shutdown` not set, neither side of the queue is
stranded. -/
theorem nobodyStranded (cfg : Config) (w : World E X K R G) (s₀ s : SimpleState E K R G) (h0 : Begun cfg s₀)
    (h : Reach (step (code cfg w)) s₀ s) (hfree : s.owner .poolLock = none) : NobodyStranded cfg s := by
  have hm : ∀ u, Reach (step (code cfg w)) s₀ u → MutexInv (code cfg w) Loc.holds u := fun _ hu => h0.mutexInv hu
  have hA : ∀ u, Reach (step (code cfg w)) s₀ u → ∀ (i : Nat) l, u.threads[i]? = some (.run l) → l.found cfg u.shared :=
    fun _ hu => (foundInv h0 hu).run
  have hnone : ∀ c, s₀.threads.any (·.blockedOn c) = false := by
    intro c
    rw [List.any_eq_false]
    intro t ht
    rcases h0.threads ht with rfl | ⟨k, rfl⟩ | ⟨task, rfl⟩ <;> exact Bool.false_ne_true
  constructor
  · intro hb
    have := (taskAnnouncing cfg w).valid Loc.taskCredit_nonneg Loc.taskWoken_nonneg hm hA (hnone _) h hb
    exact this.trans (tally_taskCredit_le (hm s h) hfree)
  · intro hb
    have := (placeAnnouncing cfg w).valid Loc.placeCredit_nonneg Loc.placeWoken_nonneg hm hA (hnone _) h hb
    exact this.trans (tally_placeCredit_le (hm s h) hfree)

/-- The worker of `oneAdd` waits, and the caller has unlocked and not signalled. -/
def waitRun : List (Action Unit) := List.replicate 3 (.exec 2 () []) ++ List.replicate 4 (.exec 1 () [])

theorem nobodyStranded_oneAdd :
    let s := after (step (code ⟨1, 1⟩ oneCall)) oneAdd waitRun
    s.threads.any (·.blockedOn .notEmptyTask) = true ∧ s.shared.pool.jobNum = 1 ∧ NobodyStranded ⟨1, 1⟩ s :=
  ⟨by decide +kernel, by decide +kernel,
    nobodyStranded ⟨1, 1⟩ oneCall oneAdd _ oneAdd_begun (reach_after oneAdd waitRun) (by decide +kernel)⟩

end LinuxProgram.Simple
