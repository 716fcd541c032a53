/-
Mutual exclusion in the simple pool: which program counters hold `pool_lock`, whatever the callers
and the callback do.
-/
import LinuxProgram.Simple.Code

namespace LinuxProgram.Simple

open LinuxProgram.Machine

variable {E X K R G : Type}

def WorkerPc.held : WorkerPc → Bool
  | .test | .condWait | .jobTest | .signal | .shutdownTest | .exitUnlock | .unlock => true
  | .lock | .exit | .exited | .call => false

def AddPc.held : AddPc → Bool
  | .test | .condWait | .unlock => true
  | .lock | .signal => false

def Loc.holds (_ : Mutex) : Loc K R G → Bool
  | .worker _ pc => pc.held
  | .add _ _ _ pc => pc.held
  | .callback .. | .caller _ | .destroy _ => false

/-- The program counters hold the lock as the statements take and release it. -/
theorem locking (cfg : Config) (w : World E X K R G) : Locking (code cfg w) Loc.holds := by
  rintro (⟨task, pc⟩ | ⟨task, r⟩ | ⟨fd, evs, next, pc⟩ | k | pc)
  · cases pc with
    | jobTest =>
      refine locksAs_update _ _ fun s m => ?_
      dsimp only
      split <;> rfl
    | test | shutdownTest => exact locksAs_branch _ (fun _ => rfl) fun _ => rfl
    | exit => exact locksAs_skip fun _ => rfl
    | call => exact locksAs_update _ _ fun _ _ => rfl
    | _ => simp +contextual [code, thrRun, Loc.holds, WorkerPc.held]
  · simp only [code]
    split
    · intro i s x s' l' new h
      obtain ⟨e, -, he⟩ := Option.map_eq_some_iff.1 h
      cases he
      exact ⟨fun _ => rfl, by simp⟩
    · exact locksAs_skip fun _ => rfl
  · cases pc with
    | test =>
      refine locksAs_update _ _ fun s m => ?_
      split <;> rfl
    | _ => simp +contextual [code, addtask, Loc.holds, AddPc.held]
  · simp only [code]
    split
    · exact locksAs_skip fun _ => rfl
    · intro i s x s' l' new h
      obtain ⟨e, -, he⟩ := Option.map_eq_some_iff.1 h
      cases he
      exact ⟨fun _ => rfl, fun n hn m => by obtain ⟨k', -, rfl⟩ := List.mem_map.1 hn; rfl⟩
    · trivial
  · cases pc with
    | broadcast => exact fun _ => rfl
    | returned => trivial
    | _ => exact locksAs_update _ _ fun _ _ => rfl

/-- Mutual exclusion in every reachable state. -/
theorem mutexInv {cfg : Config} {w : World E X K R G} {tasks : Int → PoolTask G} {copies : List (PoolTask G)} {env : E}
    {others : List (Loc K R G)} (ho : ∀ l ∈ others, ∀ m, l.holds m = false) {s : SimpleState E K R G}
    (h : Reach (step (code cfg w)) (createThreadpool tasks copies env others) s) :
    MutexInv (code cfg w) Loc.holds s := by
  refine (locking cfg w).mutex (MutexInv.start (fun _ => rfl) fun t ht => ?_) h
  simp only [createThreadpool, List.mem_append, List.mem_map] at ht
  rcases ht with ⟨l, hl, rfl⟩ | ⟨task, -, rfl⟩
  · exact ⟨l, rfl, ho l hl⟩
  · exact ⟨_, rfl, fun _ => rfl⟩

/-- The waits of the program. -/
theorem wait_cases {cfg : Config} {w : World E X K R G} {l l' : Loc K R G} {c : Cond} {m : Mutex}
    (h : code cfg w l = .wait c m l') :
    m = .poolLock ∧ ((∃ task, l = .worker task .condWait ∧ c = .notEmptyTask ∧ l' = .worker task .test) ∨
      ∃ fd evs next, l = .add fd evs next .condWait ∧ c = .emptyTask ∧ l' = .add fd evs next .test) := by
  rcases l with ⟨task, pc⟩ | ⟨task, r⟩ | ⟨fd, evs, next, pc⟩ | k | pc
  · cases pc <;> cases h
    exact ⟨rfl, .inl ⟨task, rfl, rfl, rfl⟩⟩
  · simp only [code] at h
    split at h <;> cases h
  · cases pc <;> cases h
    exact ⟨rfl, .inr ⟨fd, evs, next, rfl, rfl, rfl⟩⟩
  · simp only [code] at h
    split at h <;> cases h
  · cases pc <;> cases h

end LinuxProgram.Simple
