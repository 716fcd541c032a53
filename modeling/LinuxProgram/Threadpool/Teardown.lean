/-
When `threadpool_free` is safe. Nothing joins the workers or the manager, so the lock is destroyed
and the pool freed under threads that still use it, unless every worker, the manager and every call
of `threadpool_add` happen to have finished.
-/
import LinuxProgram.Threadpool.Wakeup
import LinuxProgram.Machine.Teardown

namespace LinuxProgram.Threadpool

open LinuxProgram.Machine

variable {F A : Type}

/-! ## Who uses the pool -/

/-- The lock is destroyed or the pool freed. -/
def Pool.gone (p : Pool F A) : Prop := Resource.lock ∈ p.released ∨ Resource.pool ∈ p.released

instance (p : Pool F A) : Decidable p.gone := by unfold Pool.gone; infer_instance

def Loc.closes : Loc F A → Bool
  | .destroy .destroyLock | .destroy .freePool => true
  | _ => false

/-- The statement calls a function on a mutex or a condition variable of the pool, or reads or writes
a field of it. `max_thr_num` and `min_thr_num` are read only after the first test succeeds. -/
def Loc.uses : Loc F A → Bool
  | .worker _ (.call _) | .worker _ (.running _) | .worker _ .exiting | .worker _ .exited => false
  | .worker _ _ => true
  | .add _ (.returned _) => false
  | .add _ _ => true
  | .adjust .sleep | .adjust .returned => false
  | .adjust (.growTest size _ _) => decide (size ≥ minWaitTaskNum)
  | .adjust (.shrinkTest live busy) => decide (busy * 2 < live)
  | .adjust (.signal i) => decide (i < defaultThreadVary)
  | .adjust _ => true
  | .destroy _ | .client => false

/-- A worker that is leaving, a call or a manager that has returned. The call of `threadpool_destroy`
and the program that makes the calls do not count. -/
def Loc.finished : Loc F A → Bool
  | .worker _ .exiting | .worker _ .exited => true
  | .worker _ _ => false
  | .add _ (.returned _) => true
  | .add _ _ => false
  | .adjust .returned => true
  | .adjust _ => false
  | .destroy _ | .client => true

theorem release_gone {p : Pool F A} {r : Resource} (h : (p.release r).gone) :
    p.gone ∨ r = .lock ∨ r = .pool := by
  unfold Pool.gone Pool.release at *
  simp only [List.mem_append, List.mem_singleton] at h
  rcases h with (h | h) | (h | h)
  · exact .inl (.inl h)
  · exact .inr (.inl h.symm)
  · exact .inl (.inr h)
  · exact .inr (.inr h.symm)

theorem gone_release {p : Pool F A} (r : Resource) (h : p.gone) : (p.release r).gone :=
  h.imp (List.mem_append_left _) (List.mem_append_left _)

/-- A statement that frees nothing. -/
theorem kept_gone {p p' : Pool F A} {b : Bool} (h : p'.released = p.released) (hb : b = false) :
    (p'.gone → p.gone ∨ b = true) ∧ (p.gone → p'.gone) ∧ (b = true → p'.gone) := by
  unfold Pool.gone
  rw [h, hb]
  exact ⟨.inl, id, fun h => by cases h⟩

theorem gone_acts (cfg : Config) (l : Loc F A) : (code cfg l).Acts fun _ p p' _ _ =>
    (p'.gone → p.gone ∨ l.closes = true) ∧ (p.gone → p'.gone) ∧ (l.closes = true → p'.gone) := by
  rcases l with ⟨tid, pc⟩ | ⟨task, pc⟩ | pc | pc | _
  · cases pc with
    | exitTest =>
      refine acts_update _ _ fun i p => kept_gone ?_ rfl
      unfold Pool.exitTest; split <;> rfl
    | lock | condWait | exitUnlock | shutdownUnlock | exited | notFull | unlock | busyLock | busyUnlock | idleLock
    | idleUnlock => trivial
    | _ => exact acts_update _ _ fun _ _ => kept_gone rfl rfl
  · cases pc with
    | test | shutdownTest | put => exact acts_update _ _ fun _ _ => kept_gone rfl rfl
    | _ => trivial
  · cases pc with
    | grow k add live busy =>
      intro i p x p' l' new h
      refine kept_gone ?_ rfl
      rcases growStep_cases h with ⟨rfl, -, -⟩ | ⟨tid, -, -, -, -, -, -, rfl, -, -⟩ <;> rfl
    | signal k =>
      simp only [code, adjustThread]
      split
      · trivial
      · exact acts_update _ _ fun _ _ => kept_gone rfl rfl
    | loop | growTest | shrinkTest | sleep | read | readBusy | shrinkSet =>
      exact acts_update _ _ fun _ _ => kept_gone rfl rfl
    | _ => trivial
  · cases pc with
    | store | loop => exact acts_update _ _ fun _ _ => kept_gone rfl rfl
    | bcast | lockLock | lockCounter | returned => trivial
    | destroyLock =>
      exact acts_update _ _ fun i p => ⟨fun _ => .inr rfl, gone_release _,
        fun _ => .inl (List.mem_append_right _ List.mem_cons_self)⟩
    | freePool =>
      exact acts_update _ _ fun i p => ⟨fun _ => .inr rfl, gone_release _,
        fun _ => .inr (List.mem_append_right _ List.mem_cons_self)⟩
    | _ =>
      refine acts_update _ _ fun i p => ⟨fun h => .inl ?_, gone_release _, fun h => by cases h⟩
      rcases release_gone h with h | h | h
      · exact h
      · cases h
      · cases h
  · intro i p x p' l' new h
    obtain ⟨rfl, rfl, task, rfl⟩ := client_acts cfg i p x p' l' new h
    exact kept_gone rfl rfl

/-- The threads of the pool against the pool. -/
theorem teardown (cfg : Config) :
    Teardown (code (F := F) (A := A) cfg) Pool.gone Loc.closes Loc.uses Loc.finished := by
  constructor
  · rintro (⟨tid, pc⟩ | ⟨task, pc⟩ | pc | pc | _) h
    · cases pc <;> first | rfl | exact absurd h Bool.false_ne_true
    · cases pc <;> first | rfl | exact absurd h Bool.false_ne_true
    · cases pc <;> first | rfl | exact absurd h Bool.false_ne_true
    · rfl
    · rfl
  · rintro (⟨tid, pc⟩ | ⟨task, pc⟩ | pc | pc | _) l' h hc
    · cases pc <;> first | exact absurd h Bool.false_ne_true | cases hc
    · cases pc <;> first | exact absurd h Bool.false_ne_true | cases hc
    · cases pc <;> first | exact absurd h Bool.false_ne_true | cases hc
    · cases pc <;> cases hc <;> rfl
    · cases hc
  · rintro (⟨tid, pc⟩ | ⟨task, pc⟩ | pc | pc | _) h
    · cases pc with
      | exiting => exact acts_update _ _ fun _ _ => ⟨rfl, fun _ _ hn => by cases hn⟩
      | exited => trivial
      | _ => cases h
    · cases pc <;> first | exact absurd h Bool.false_ne_true | trivial
    · cases pc <;> first | exact absurd h Bool.false_ne_true | trivial
    · cases pc with
      | loop =>
        refine acts_update _ _ fun _ _ => ⟨?_, fun _ _ hn => by cases hn⟩
        split <;> rfl
      | bcast | lockLock | lockCounter | returned => trivial
      | _ => exact acts_update _ _ fun _ _ => ⟨rfl, fun _ _ hn => by cases hn⟩
    · intro i p x p' l' new hf
      simp only at hf
      split at hf
      · split at hf
        · rename_i he
          cases hf
          refine ⟨rfl, fun hg => absurd hg ?_⟩
          simp [Pool.gone, List.isEmpty_iff.1 he]
        · cases hf
      · cases hf
  · exact gone_acts cfg
  · rintro (⟨tid, pc⟩ | ⟨task, pc⟩ | pc | pc | _) h
    · cases h
    · cases h
    · cases h
    · cases pc <;> first | exact absurd h Bool.false_ne_true | exact ⟨rfl, _, rfl⟩
    · cases h

/-- A thread that goes on after a wait uses the pool. -/
theorem uses_of_wait {cfg : Config} {l l' : Loc F A} {c : Cond} {m : Mutex} (h : code cfg l = .wait c m l') :
    l'.uses = true := by
  obtain ⟨-, ⟨tid, -, -, rfl⟩ | ⟨task, -, -, rfl⟩⟩ := wait_cases h <;> rfl

/-- From a location that has not finished a thread gets to use the pool. -/
theorem getsToUse (cfg : Config) {l : Loc F A} (h : l.finished = false) : GetsToUse (code cfg) Loc.uses l := by
  have hloop : GetsToUse (code cfg) Loc.uses (.adjust .loop : Loc F A) := .here rfl
  have hidle : ∀ tid, GetsToUse (code cfg) Loc.uses (.worker tid .idleLock : Loc F A) := fun _ => .here rfl
  rcases l with ⟨tid, pc⟩ | ⟨task, pc⟩ | pc | pc | _
  · have hrun : ∀ task, GetsToUse (code cfg) Loc.uses (.worker tid (.running task) : Loc F A) :=
      fun task => .step _ _ rfl fun _ => hidle tid
    cases pc with
    | call task => exact .step _ _ rfl fun _ => hrun task
    | running task => exact hrun task
    | exiting | exited => cases h
    | _ => exact .here rfl
  · cases pc with
    | returned => cases h
    | _ => exact .here rfl
  · have hshrink : ∀ live busy, GetsToUse (code cfg) Loc.uses (.adjust (.shrinkTest live busy) : Loc F A) := by
      intro live busy
      by_cases hu : busy * 2 < live
      · exact .here (by simpa [Loc.uses] using hu)
      · exact .step _ _ rfl fun _ => by simpa [hu] using hloop
    cases pc with
    | sleep => exact .step _ _ rfl fun _ => .here rfl
    | returned => cases h
    | growTest size live busy =>
      by_cases hu : size ≥ minWaitTaskNum
      · exact .here (by simpa [Loc.uses] using hu)
      · exact .step _ _ rfl fun _ => by simpa [hu] using hshrink live busy
    | shrinkTest live busy => exact hshrink live busy
    | signal k =>
      by_cases hk : k < defaultThreadVary
      · exact .here (by simpa [Loc.uses] using hk)
      · refine .step (fun _ => id) (fun _ => .adjust .loop) ?_ fun _ => hloop
        simp [code, adjustThread, hk, Instr.skip]
    | _ => exact .here rfl
  · cases h
  · cases h

/-- Once the lock is destroyed or the pool freed, no thread is left to use the pool: exactly in the
runs in which every worker, the manager and every call of `threadpool_add` have finished by then. -/
theorem untouched_exact (cfg : Config) {s₀ : PoolState F A} (h0 : Created cfg s₀) :
    ExactFor (step (code cfg)) (ClosesLast Loc.closes Loc.finished) (Untouched Pool.gone Loc.uses) s₀ := by
  have : Inhabited (Outcome F A) := ⟨.none⟩
  refine (teardown cfg).exact (fun _ => getsToUse cfg) (fun _ _ _ _ => uses_of_wait) ?_ fun s h => mutexInv h0 h
  obtain ⟨tids, others, garbage, -, -, -, rfl⟩ := h0.start
  simp [Pool.gone, threadpoolCreate]

end LinuxProgram.Threadpool
