/-
When `destroy_threadpool` and `threadpool_destroy` are safe. Neither waits for the workers: each pool
is safe to destroy exactly if every thread that uses it happens to have finished. For the pool of
`threadpoolsimple.c` there are any number of callers of `addtask`, and a callback may return at any
time.
-/
import LinuxProgram.Simple.Locks
import LinuxProgram.Threadpool.Teardown

namespace LinuxProgram.Simple

open LinuxProgram.Machine

/-! ## Any callers -/

/-- The program that starts calls of `addtask`, such a call to be made, and one that is over. -/
inductive Client where
  | client
  | calls (fd evs : Nat)
  | returned
  deriving DecidableEq, Repr

/-- Any number of calls of `addtask` until something of the pool is released; a callback that does
nothing with the pool. -/
def anyCallers : World Unit (Nat × Nat) Client Unit Unit where
  caller
    | .client => .act fun released _ x => if released.isEmpty then some ((), .client, [.calls x.1 x.2]) else none
    | .calls fd evs => .addtask fd evs .returned
    | .returned => .halt
  taskRun _ := ()
  callback _ _ := .ret
  record _ _ := ()

/-- The states in which `create_threadpool` can return. -/
structure Created (cfg : Config) (s : SimpleState Unit Client Unit Unit) : Prop where
  start : ∃ tasks copies, copies.length = cfg.thrNum ∧
    s = createThreadpool tasks copies () [.caller .client, .destroy .store]

/-! ## Who uses the pool -/

/-- The lock is destroyed or the pool freed. -/
def Pool.gone {G : Type} (p : Pool G) : Prop := Resource.poolLock ∈ p.released ∨ Resource.pool ∈ p.released

instance {G : Type} (p : Pool G) : Decidable p.gone := by unfold Pool.gone; infer_instance

section Uses

variable {K R G : Type}

def Loc.closes : Loc K R G → Bool
  | .destroy .destroyLock | .destroy .freePool => true
  | _ => false

/-- The statement calls a function on the lock or a condition variable of the pool, or reads or
writes a field of the pool or a task of its queue. -/
def Loc.uses : Loc K R G → Bool
  | .worker _ .call | .worker _ .exit | .worker _ .exited => false
  | .worker .. => true
  | .add .. => true
  | .callback .. | .caller _ | .destroy _ => false

end Uses

/-- A worker that is leaving, a call that has returned. The call of `destroy_threadpool` and the
program that starts the calls do not count. -/
def Loc.finished : Loc Client Unit Unit → Bool
  | .worker _ .exit | .worker _ .exited => true
  | .worker .. | .callback .. | .add .. => false
  | .caller (.calls ..) => false
  | .caller _ => true
  | .destroy _ => true

/-- A statement that releases nothing. -/
theorem kept_gone {G : Type} {p p' : Pool G} {b : Bool} (h : p'.released = p.released) (hb : b = false) :
    (p'.gone → p.gone ∨ b = true) ∧ (p.gone → p'.gone) ∧ (b = true → p'.gone) := by
  unfold Pool.gone
  rw [h, hb]
  exact ⟨.inl, id, fun h => by cases h⟩

/-- A statement that releases `r`. -/
theorem release_gone {G : Type} {p : Pool G} {r : Resource} {b : Bool} (hb : b = true ↔ r = .poolLock ∨ r = .pool) :
    ((p.release r).gone → p.gone ∨ b = true) ∧ (p.gone → (p.release r).gone) ∧ (b = true → (p.release r).gone) := by
  have h : (p.release r).gone ↔ p.gone ∨ b = true := by
    rw [hb]
    unfold Pool.gone Pool.release
    simp only [List.mem_append, List.mem_singleton, eq_comm (b := r)]
    tauto
  exact ⟨h.1, fun hg => h.2 (.inl hg), fun hb => h.2 (.inr hb)⟩

theorem gone_acts {E X K R G : Type} (cfg : Config) (w : World E X K R G) (l : Loc K R G) :
    (code cfg w l).Acts fun _ s s' _ _ =>
      (s'.pool.gone → s.pool.gone ∨ l.closes = true) ∧ (s.pool.gone → s'.pool.gone) ∧
      (l.closes = true → s'.pool.gone) := by
  rcases l with ⟨task, pc⟩ | ⟨task, r⟩ | ⟨fd, evs, next, pc⟩ | k | pc
  · cases pc with
    | jobTest =>
      refine acts_update _ _ fun i s => kept_gone ?_ rfl
      dsimp only
      split <;> rfl
    | test | shutdownTest | exit | call => exact acts_update _ _ fun _ _ => kept_gone rfl rfl
    | _ => trivial
  · simp only [code]
    split
    · intro i s x s' l' new h
      obtain ⟨e, -, he⟩ := Option.map_eq_some_iff.1 h
      cases he
      exact kept_gone rfl rfl
    · exact acts_update _ _ fun _ _ => kept_gone rfl rfl
  · cases pc with
    | test =>
      refine acts_update _ _ fun i s => kept_gone ?_ rfl
      split <;> rfl
    | _ => trivial
  · simp only [code]
    split
    · exact acts_update _ _ fun _ _ => kept_gone rfl rfl
    · intro i s x s' l' new h
      obtain ⟨e, -, he⟩ := Option.map_eq_some_iff.1 h
      cases he
      exact kept_gone rfl rfl
    · trivial
  · cases pc with
    | store => exact acts_update _ _ fun _ _ => kept_gone rfl rfl
    | broadcast | returned => trivial
    | _ => exact acts_update _ _ fun _ _ => release_gone (by simp [Loc.closes])

/-- The threads of the pool against the pool. -/
theorem teardown (cfg : Config) :
    Teardown (code cfg anyCallers) (fun s => s.pool.gone) Loc.closes Loc.uses Loc.finished := by
  constructor
  · rintro (⟨task, pc⟩ | ⟨task, r⟩ | ⟨fd, evs, next, pc⟩ | k | pc) h
    · cases pc <;> first | rfl | exact absurd h Bool.false_ne_true
    · rfl
    · cases h
    · rfl
    · rfl
  · rintro (⟨task, pc⟩ | ⟨task, r⟩ | ⟨fd, evs, next, pc⟩ | k | pc) l' h hc
    · cases pc <;> first | exact absurd h Bool.false_ne_true | cases hc
    · cases h
    · cases h
    · cases k <;> cases hc
    · cases pc <;> cases hc
      rfl
  · rintro (⟨task, pc⟩ | ⟨task, r⟩ | ⟨fd, evs, next, pc⟩ | k | pc) h
    · cases pc with
      | exit => exact acts_update _ _ fun _ _ => ⟨rfl, fun _ _ hn => by cases hn⟩
      | exited => trivial
      | _ => cases h
    · cases h
    · cases h
    · cases k with
      | client =>
        intro i s x s' l' new hf
        obtain ⟨e, he, he'⟩ := Option.map_eq_some_iff.1 hf
        cases he'
        dsimp only at he
        split at he
        · rename_i hemp
          cases he
          refine ⟨rfl, fun hg => absurd hg ?_⟩
          simp [Pool.gone, List.isEmpty_iff.1 hemp]
        · cases he
      | calls => cases h
      | returned => trivial
    · cases pc with
      | broadcast | returned => trivial
      | _ => exact acts_update _ _ fun _ _ => ⟨rfl, fun _ _ hn => by cases hn⟩
  · exact gone_acts cfg anyCallers
  · rintro (⟨task, pc⟩ | ⟨task, r⟩ | ⟨fd, evs, next, pc⟩ | k | pc) h
    · cases h
    · cases h
    · cases h
    · cases h
    · cases pc <;> first | exact absurd h Bool.false_ne_true | exact ⟨rfl, _, rfl⟩

/-- From a location that has not finished a thread gets to use the pool. -/
theorem getsToUse (cfg : Config) {l : Loc Client Unit Unit} (h : l.finished = false) :
    GetsToUse (code cfg anyCallers) Loc.uses l := by
  rcases l with ⟨task, pc⟩ | ⟨task, r⟩ | ⟨fd, evs, next, pc⟩ | k | pc
  · have hrun : GetsToUse (code cfg anyCallers) Loc.uses (.callback task ()) := .step _ _ rfl fun _ => .here rfl
    cases pc with
    | call => exact .step _ _ rfl fun _ => hrun
    | exit | exited => cases h
    | _ => exact .here rfl
  · exact .step _ _ rfl fun _ => .here rfl
  · exact .here rfl
  · cases k with
    | calls fd evs => exact .step _ _ rfl fun _ => .here rfl
    | client | returned => cases h
  · cases h

/-- Once the lock is destroyed or the pool freed, no thread is left to use the pool: exactly in the
runs in which every worker and every call of `addtask` have finished by then. -/
theorem untouched_exact (cfg : Config) {s₀ : SimpleState Unit Client Unit Unit} (h0 : Created cfg s₀) :
    ExactFor (step (code cfg anyCallers)) (ClosesLast Loc.closes Loc.finished)
      (Untouched (fun s => s.pool.gone) Loc.uses) s₀ := by
  obtain ⟨tasks, copies, -, rfl⟩ := h0.start
  refine (teardown cfg).exact (fun _ => getsToUse cfg) ?_ ?_ fun s h => mutexInv ?_ h
  · intro l c m l' hw
    obtain ⟨-, ⟨task, -, -, rfl⟩ | ⟨fd, evs, next, -, -, rfl⟩⟩ := wait_cases hw <;> rfl
  · simp [Pool.gone, createThreadpool]
  · simp [Loc.holds]

/-! ## Both pools -/

/-- Destroying either pool is safe exactly in the runs in which every thread that uses it has
finished when its lock is destroyed and when it is freed. -/
theorem destroy_exact (F A : Type) :
    (∀ (cfg : Threadpool.Config) (s₀ : Threadpool.PoolState F A), Threadpool.Created cfg s₀ →
      ExactFor (step (Threadpool.code cfg)) (ClosesLast Threadpool.Loc.closes Threadpool.Loc.finished)
        (Untouched Threadpool.Pool.gone Threadpool.Loc.uses) s₀) ∧
    ∀ (cfg : Config) (s₀ : SimpleState Unit Client Unit Unit), Created cfg s₀ →
      ExactFor (step (code cfg anyCallers)) (ClosesLast Loc.closes Loc.finished)
        (Untouched (fun s => s.pool.gone) Loc.uses) s₀ :=
  ⟨fun cfg _ h0 => Threadpool.untouched_exact cfg h0, fun cfg _ h0 => untouched_exact cfg h0⟩

instance {M C S L : Type} (gone : S → Prop) [DecidablePred gone] (uses : L → Bool) (s : State M C S L) :
    Decidable (Untouched gone uses s) := by unfold Untouched; infer_instance

instance {E G : Type} : DecidablePred fun s : Sys E G => s.pool.gone := fun s => by unfold Pool.gone; infer_instance

/-- A pool of one worker, thread 2. -/
def onePool : SimpleState Unit Client Unit Unit :=
  createThreadpool (fun _ => ⟨0, .unset, 0, 0, 0, ()⟩) [⟨0, .unset, 0, 0, 0, ()⟩] () [.caller .client, .destroy .store]

theorem onePool_created : Created ⟨1, 1⟩ onePool := ⟨⟨_, _, rfl, rfl⟩⟩

/-- The call of `destroy_threadpool`, run alone. -/
def destroyRun : List (Action (Nat × Nat)) := List.replicate 8 (.exec 1 (0, 0) [])

/-- Neither pool is safe to destroy: after `threadpool_destroy` the manager reads `shutdown` in the
freed pool, and after `destroy_threadpool` a worker takes the destroyed lock. -/
theorem destroy_under_threads :
    (¬ ∀ (cfg : Threadpool.Config) (s₀ s : Threadpool.PoolState Nat Nat), Threadpool.Created cfg s₀ →
      Reach (step (Threadpool.code cfg)) s₀ s → Untouched Threadpool.Pool.gone Threadpool.Loc.uses s) ∧
    ¬ ∀ (cfg : Config) (s₀ s : SimpleState Unit Client Unit Unit), Created cfg s₀ →
      Reach (step (code cfg anyCallers)) s₀ s → Untouched (fun s => s.pool.gone) Loc.uses s := by
  constructor
  · intro h
    exact absurd (h ⟨1, 1, 1⟩ Threadpool.onePool _ Threadpool.onePool_created
      (reach_after Threadpool.onePool (Threadpool.go 1 13))) (by decide +kernel)
  · intro h
    exact absurd (h ⟨1, 1⟩ onePool _ onePool_created (reach_after onePool destroyRun)) (by decide +kernel)

theorem destroy_exact_onePool :
    ExactFor (step (Threadpool.code ⟨1, 1, 1⟩)) (ClosesLast Threadpool.Loc.closes Threadpool.Loc.finished)
      (Untouched Threadpool.Pool.gone Threadpool.Loc.uses) Threadpool.onePool ∧
    ExactFor (step (code ⟨1, 1⟩ anyCallers)) (ClosesLast Loc.closes Loc.finished)
      (Untouched (fun s => s.pool.gone) Loc.uses) onePool :=
  ⟨(destroy_exact Nat Nat).1 ⟨1, 1, 1⟩ _ Threadpool.onePool_created,
    (destroy_exact Nat Nat).2 ⟨1, 1⟩ _ onePool_created⟩

end LinuxProgram.Simple
