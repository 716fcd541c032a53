/-
Whether a task that a worker takes out of the ring is executed. `thrRun` tests `shutdown` after it has
taken its task, and a worker that finds the flag set frees its copy and exits. So a task is lost if a
worker takes it with the flag set, or if the flag is set between the taking of a task and the test;
and in a run without such a step each task that is taken is called, once, by the worker that took it
and with its own copy. `threadpool_thread` of `threadpool.c` tests `shutdown` before it takes a task.
-/
import LinuxProgram.Simple.Ring
import LinuxProgram.Threadpool.Queue

namespace LinuxProgram.Simple

open LinuxProgram.Machine LinuxProgram.Data
open LinuxProgram.Threadpool (tasksOf tasksOf_snoc_self tasksOf_snoc_ne)

variable {E X K R G : Type}

/-! ## The property -/

/-- The task that a worker has taken, before the statement that calls it. -/
def Loc.pending : Loc K R G → List (PoolTask G)
  | .worker task .signal | .worker task .shutdownTest | .worker task .unlock | .worker task .call => [task]
  | _ => []

/-- Thread `i` has called each task it has taken, once and in order, with its own copy, but perhaps
for the one it is about to call; the tasks that were not taken are counted in `job_num`. -/
structure Executed (s : SimpleState E K R G) : Prop where
  called : ∀ i, tasksOf i s.shared.pool.taken = tasksOf i s.shared.pool.called ∨
    tasksOf i s.shared.pool.taken = tasksOf i s.shared.pool.called ++ (s.locs[i]?.map Loc.pending).getD []
  counted : s.shared.pool.jobNum = s.shared.pool.added.length - s.shared.pool.taken.length

/-- A worker between the statement that takes a task and the test of `shutdown`. -/
def Loc.deciding : Loc K R G → Bool
  | .worker _ .signal | .worker _ .shutdownTest => true
  | _ => false

/-- The statement at `l` does not take a task with `shutdown` set, nor set `shutdown` while a worker
is about to test it. -/
def Careful (s : SimpleState E K R G) : Loc K R G → Prop
  | .worker _ .jobTest => s.shared.pool.shutdown = true → s.shared.pool.jobNum = 0
  | .destroy .store => s.shared.pool.shutdown = true ∨ ∀ l ∈ s.locs, l.deciding = false
  | _ => True

/-- The step executes such a statement. -/
def NoneDropped (s : SimpleState E K R G) : Action X → Prop := Executes (fun s _ l => Careful s l) s

/-! ## What a thread has taken and called -/

/-- Thread `i` has called all it has taken. -/
def Pool.Settled (i : Nat) (p : Pool G) : Prop := tasksOf i p.taken = tasksOf i p.called

/-- Thread `i` has called all it has taken but for `task`. -/
def Pool.Held (i : Nat) (task : PoolTask G) (p : Pool G) : Prop := tasksOf i p.taken = tasksOf i p.called ++ [task]

/-- What thread `i` at `o` has taken and called; `drop` says that tasks may have been dropped. -/
def Calls (drop : Prop) (i : Nat) (o : Option (Loc K R G)) (s : Sys E G) : Prop :=
  match o with
  | some (.worker task .signal) => s.pool.Held i task ∧ (drop ∨ s.pool.shutdown = false)
  | some (.worker task .shutdownTest) =>
    (s.pool.Held i task ∧ (drop ∨ s.pool.shutdown = false)) ∨ s.pool.Settled i ∧ s.pool.shutdown = true
  | some (.worker task .unlock) | some (.worker task .call) => s.pool.Held i task
  | some (.worker _ .exitUnlock) | some (.worker _ .exit) | some (.worker _ .exited) => drop ∨ s.pool.Settled i
  | some (.callback task _) => s.pool.Settled i ∧ (tasksOf i s.pool.called).getLast? = some task
  | _ => s.pool.Settled i

/-- The conditions under which the statements are executed. -/
def CallsUnder (cfg : Config) (drop : Prop) (s : SimpleState E K R G) (_ : Nat) (l : Loc K R G) : Prop :=
  l.found cfg s.shared ∧ (drop ∨ Careful s l)

section Calls

variable {drop : Prop} {j : Nat} {o : Option (Loc K R G)} {s s' : Sys E G}

theorem Calls.same (h : Calls drop j o s) (ht : tasksOf j s'.pool.taken = tasksOf j s.pool.taken)
    (hc : tasksOf j s'.pool.called = tasksOf j s.pool.called) (hs : s'.pool.shutdown = s.pool.shutdown) :
    Calls drop j o s' := by
  unfold Calls Pool.Settled Pool.Held at *
  rw [ht, hc, hs]
  exact h

/-- Setting the flag is no matter to a thread that is not about to test it. -/
theorem Calls.store (h : Calls drop j o s) (ho : drop ∨ s.pool.shutdown = true ∨ ∀ l, o = some l → l.deciding = false) :
    Calls drop j o { s with pool := { s.pool with shutdown := true } } := by
  rcases o with _ | ⟨task, pc⟩ | ⟨task, r⟩ | ⟨fd, evs, next, pc⟩ | k | pc
  · exact h
  · cases pc with
    | signal =>
      refine ⟨h.1, ?_⟩
      rcases ho with hd | hs | hl
      · exact .inl hd
      · exact .inl (h.2.resolve_right (by rw [hs]; simp))
      · cases hl _ rfl
    | shutdownTest =>
      rcases h with ⟨h1, h2⟩ | h
      · refine .inl ⟨h1, ?_⟩
        rcases ho with hd | hs | hl
        · exact .inl hd
        · exact .inl (h2.resolve_right (by rw [hs]; simp))
        · cases hl _ rfl
      · exact .inr ⟨h.1, rfl⟩
    | _ => exact h
  all_goals exact h

end Calls

theorem calls_same {cfg : Config} {drop : Prop} {l : Loc K R G} (f : Nat → Sys E G → Sys E G)
    (next : Sys E G → Loc K R G) (hf : ∀ i (s : Sys E G), (f i s).pool.taken = s.pool.taken ∧
      (f i s).pool.called = s.pool.called ∧ (f i s).pool.shutdown = s.pool.shutdown)
    (hn : ∀ i s, Calls drop i (some l) s → Calls drop i (some (next s)) s) :
    (Instr.update f next : SimpleInstr E X K R G).OwnedUnder (CallsUnder cfg drop) (Calls drop) l := by
  refine ownedUnder_update _ _ (fun i s _ h => ?_) fun i s _ j _ h => ?_
  · obtain ⟨h1, h2, h3⟩ := hf i s.shared
    exact (hn i _ h).same (by rw [h1]) (by rw [h2]) h3
  · obtain ⟨h1, h2, h3⟩ := hf i s.shared
    exact h.same (by rw [h1]) (by rw [h2]) h3

/-- A worker takes a task only when it has called those it took before, and calls it next. -/
theorem worker_ownedUnder (cfg : Config) (w : World E X K R G) (drop : Prop) (task : PoolTask G) (pc : WorkerPc) :
    (code cfg w (.worker task pc)).OwnedUnder (CallsUnder cfg drop) (Calls drop) (.worker task pc) := by
  cases pc with
  | test =>
    refine calls_same _ _ (fun _ _ => ⟨rfl, rfl, rfl⟩) fun i s h => ?_
    split <;> exact h
  | jobTest =>
    refine ownedUnder_update _ _ (fun i s hP h => ?_) fun i s _ j hj h => ?_
    · obtain ⟨hfound, hcare⟩ := hP
      have hsettled : s.shared.pool.Settled i := h
      dsimp only
      split
      · rename_i hne
        constructor
        · show tasksOf i (s.shared.pool.taken ++ [(i, s.shared.pool.front cfg)]) =
            tasksOf i s.shared.pool.called ++ [s.shared.pool.front cfg]
          rw [tasksOf_snoc_self, hsettled]
        · refine hcare.imp_right fun hc => ?_
          show s.shared.pool.shutdown = false
          by_contra hs
          exact hne (hc (by simpa using hs))
      · rename_i hz
        refine .inr ⟨hsettled, ?_⟩
        exact hfound.resolve_left (not_not.2 (not_not.1 hz))
    · refine h.same ?_ ?_ ?_
      · dsimp only
        split
        · exact tasksOf_snoc_ne hj ..
        · rfl
      · dsimp only
        split <;> rfl
      · dsimp only
        split <;> rfl
  | signal => exact fun i s h => .inl h
  | shutdownTest =>
    refine ownedUnder_update _ _ (fun i s _ h => ?_) fun _ _ _ _ _ h => h
    split
    · rename_i hs
      have hs : s.shared.pool.shutdown = true := hs
      rcases h with ⟨-, hd | hf⟩ | h
      · exact .inl hd
      · rw [hs] at hf; cases hf
      · exact .inr h.1
    · rename_i hs
      rcases h with h | h
      · exact h.1
      · exact absurd h.2 hs
  | exit => exact calls_same _ _ (fun _ _ => ⟨rfl, rfl, rfl⟩) fun _ _ h => h
  | call =>
    refine ownedUnder_update _ _ (fun i s _ h => ?_) fun i s _ j hj h => ?_
    · have hheld : s.shared.pool.Held i task := h
      constructor
      · show tasksOf i s.shared.pool.taken = tasksOf i (s.shared.pool.called ++ [(i, task)])
        rw [tasksOf_snoc_self]
        exact hheld
      · show (tasksOf i (s.shared.pool.called ++ [(i, task)])).getLast? = some task
        rw [tasksOf_snoc_self, List.getLast?_append]
        rfl
    · exact h.same rfl (tasksOf_snoc_ne hj ..) rfl
  | exited => trivial
  | _ => exact fun _ _ h => h

/-- The statements of the pool call what was taken. -/
theorem callsOwning (cfg : Config) (w : World E X K R G) (drop : Prop) :
    OwningUnder (code cfg w) (CallsUnder cfg drop) (Calls drop) := by
  rintro (⟨task, pc⟩ | ⟨task, r⟩ | ⟨fd, evs, next, pc⟩ | k | pc)
  · exact worker_ownedUnder cfg w drop task pc
  · simp only [code]
    split
    · intro i s x s' l' new h _
      obtain ⟨e, -, he⟩ := Option.map_eq_some_iff.1 h
      cases he
      exact ⟨fun h => h.same rfl rfl rfl, fun j _ h => h.same rfl rfl rfl, by simp⟩
    · exact calls_same _ _ (fun _ _ => ⟨rfl, rfl, rfl⟩) fun _ _ h => h.1
  · cases pc with
    | test =>
      refine calls_same _ _ (fun _ s => ?_) fun i s h => ?_
      · split <;> exact ⟨rfl, rfl, rfl⟩
      · split <;> exact h
    | _ => exact fun _ _ h => h
  · simp only [code]
    split
    · exact calls_same _ _ (fun _ _ => ⟨rfl, rfl, rfl⟩) fun _ _ h => h
    · intro i s x s' l' new h _
      obtain ⟨e, -, he⟩ := Option.map_eq_some_iff.1 h
      cases he
      refine ⟨fun h => h.same rfl rfl rfl, fun j _ h => h.same rfl rfl rfl, fun n hn j h => ?_⟩
      obtain ⟨k', -, rfl⟩ := List.mem_map.1 hn
      exact h
    · trivial
  · cases pc with
    | store =>
      refine ownedUnder_update _ _ (fun i s _ h => h) fun i s hP j _ h => h.store ?_
      refine hP.2.imp_right fun hc => hc.imp_right fun hd l hl => hd l ?_
      exact List.mem_of_getElem? hl
    | broadcast => exact fun _ _ h => h
    | returned => trivial
    | _ => exact calls_same _ _ (fun _ _ => ⟨rfl, rfl, rfl⟩) fun _ _ h => h

/-! ## Runs -/

section Runs

variable {cfg : Config} {w : World E X K R G} {s₀ s : SimpleState E K R G}

theorem Begun.calls (h0 : Begun cfg s₀) (drop : Prop) (i : Nat) : Calls drop i s₀.locs[i]? s₀.shared := by
  have hlog : Calls drop i (none : Option (Loc K R G)) s₀.shared := by
    obtain ⟨tasks, copies, env, callers, -, rfl⟩ := h0.start
    rfl
  cases hl : s₀.locs[i]? with
  | none => exact hlog
  | some l =>
    obtain ⟨t, ht, rfl⟩ := List.mem_map.1 (List.mem_of_getElem? hl)
    rcases h0.threads ht with rfl | ⟨k, rfl⟩ | ⟨task, rfl⟩ <;> exact hlog

/-- What each thread has taken and called, in every reachable state. -/
theorem calls_valid (h0 : Begun cfg s₀) (h : Reach (step (code cfg w)) s₀ s) (i : Nat) :
    Calls True i s.locs[i]? s.shared := by
  refine (callsOwning cfg w True).valid (fun u a hu _ k x ws l _ hk => ?_) (h0.calls True) h i
  exact ⟨(foundInv h0 hu).run k l hk, .inl trivial⟩

/-- In a run without a careless step nothing is dropped. -/
theorem calls_valid_of_noneDropped (h0 : Begun cfg s₀) (h : ReachWith (step (code cfg w)) NoneDropped s₀ s) (i : Nat) :
    Calls False i s.locs[i]? s.shared := by
  refine (callsOwning cfg w False).valid (fun u a hu hok k x ws l ha hk => ?_) (h0.calls False) h i
  exact ⟨(foundInv h0 hu).run k l hk, .inr (hok k x ws l ha hk)⟩

/-- A thread that holds or has called what it took, with nothing dropped. -/
theorem Calls.called {i : Nat} {o : Option (Loc K R G)} {s : Sys E G} (h : Calls False i o s) :
    tasksOf i s.pool.taken = tasksOf i s.pool.called ∨
      tasksOf i s.pool.taken = tasksOf i s.pool.called ++ (o.map Loc.pending).getD [] := by
  rcases o with _ | ⟨task, pc⟩ | ⟨task, r⟩ | ⟨fd, evs, next, pc⟩ | k | pc
  · exact .inl h
  · cases pc with
    | signal => exact .inr h.1
    | shutdownTest =>
      rcases h with h | h
      · exact .inr h.1
      · exact .inl h.1
    | unlock | call => exact .inr h
    | exitUnlock | exit | exited => exact .inl (h.resolve_left id)
    | _ => exact .inl h
  · exact .inl h.1
  all_goals exact .inl h

theorem locs_of_run {i : Nat} {l : Loc K R G} (h : s.threads[i]? = some (.run l)) : s.locs[i]? = some l := by
  simp [State.locs, h, Thread.loc]

/-- A task in the hands of a thread past the call is dropped. -/
theorem not_executed {i : Nat} {l : Loc K R G} {task : PoolTask G} (hi : s.threads[i]? = some (.run l))
    (hl : l.pending = []) (hheld : s.shared.pool.Held i task) : ¬ Executed s := by
  intro hex
  have hcalled := hex.called i
  rw [locs_of_run hi, Option.map_some, Option.getD_some, hl, List.append_nil, or_self, hheld] at hcalled
  simp at hcalled

/-- A worker that tests the flag with a task in hand, and finds it set, drops the task. -/
theorem drops_of_shutdownTest {i : Nat} {task : PoolTask G}
    (hi : s.threads[i]? = some (.run (.worker task .shutdownTest))) (hs : s.shared.pool.shutdown = true)
    (hheld : s.shared.pool.Held i task) (x : X) :
    ∃ v, Reach (step (code cfg w)) s v ∧ ¬ Executed v := by
  have hstep : step (code cfg w) s (.exec i x []) = _ := step_update hi rfl x []
  rw [if_pos hs] at hstep
  refine ⟨_, (Reach.refl s).snoc hstep, ?_⟩
  exact not_executed (set_getElem?_self hi _) rfl hheld

theorem signal_eq (cfg : Config) (w : World E X K R G) (task : PoolTask G) :
    code cfg w (.worker task .signal) = .signal .emptyTask (.worker task .shutdownTest) := rfl

theorem drops_of_signal {i : Nat} {task : PoolTask G} (hi : s.threads[i]? = some (.run (.worker task .signal)))
    (hs : s.shared.pool.shutdown = true) (hheld : s.shared.pool.Held i task) (x : X) :
    ∃ v, Reach (step (code cfg w)) s v ∧ ¬ Executed v := by
  obtain ⟨ws, u, hstep, hu, hi'⟩ : ∃ ws u, step (code cfg w) s (.exec i x ws) = some u ∧
      u.shared = s.shared ∧ u.threads[i]? = some (.run (.worker task .shutdownTest)) := step_signal hi (signal_eq ..) x
  rw [← hu] at hs hheld
  obtain ⟨v, hv, hex⟩ := drops_of_shutdownTest hi' hs hheld x
  exact ⟨v, Reach.cons hstep hv, hex⟩

/-- A worker that takes a task with the flag set drops it. -/
theorem drops_of_take (h0 : Begun cfg s₀) (h : Reach (step (code cfg w)) s₀ s) {i : Nat} {task : PoolTask G} {x : X}
    {ws : List Nat} {u : SimpleState E K R G} (hi : s.threads[i]? = some (.run (.worker task .jobTest)))
    (hs : s.shared.pool.shutdown = true) (hne : s.shared.pool.jobNum ≠ 0)
    (hstep : step (code cfg w) s (.exec i x ws) = some u) : ∃ v, Reach (step (code cfg w)) u v ∧ ¬ Executed v := by
  have hu := hstep.symm.trans (step_update hi rfl x ws)
  simp only [hne, ne_eq, not_false_eq_true, if_true, Option.some.injEq] at hu
  have hi' : u.threads[i]? = some (.run (.worker (s.shared.pool.front cfg) .signal)) := by
    rw [hu]
    exact set_getElem?_self hi _
  have hcalls := calls_valid h0 (h.snoc hstep) i
  rw [locs_of_run hi'] at hcalls
  refine drops_of_signal hi' ?_ hcalls.1 x
  rw [hu]
  exact hs

/-- If the flag is set while a worker is about to test it, with its task in hand, the task is dropped. -/
theorem drops_of_store (h0 : Begun cfg s₀) (h : Reach (step (code cfg w)) s₀ s) {i : Nat} {x : X} {ws : List Nat}
    {u : SimpleState E K R G} (hi : s.threads[i]? = some (.run (.destroy .store))) (hs : s.shared.pool.shutdown = false)
    {l : Loc K R G} (hl : l ∈ s.locs) (hd : l.deciding = true)
    (hstep : step (code cfg w) s (.exec i x ws) = some u) : ∃ v, Reach (step (code cfg w)) u v ∧ ¬ Executed v := by
  have hu := hstep.symm.trans (step_update hi rfl x ws)
  simp only [Option.some.injEq] at hu
  obtain ⟨t, ht, rfl⟩ := List.mem_map.1 hl
  obtain ⟨j, hj⟩ := List.mem_iff_getElem?.1 ht
  -- the thread about to test the flag runs
  have hrun : s.threads[j]? = some (.run t.loc) := by
    have hm := h0.mutexInv h
    cases t with
    | run l => exact hj
    | blocked c m l =>
      obtain ⟨l₀, h₀⟩ := hm.blocked j c m l hj
      obtain ⟨-, ⟨task, -, -, rfl⟩ | ⟨fd, evs, next, -, -, rfl⟩⟩ := wait_cases h₀ <;> cases hd
    | woken m l =>
      obtain ⟨l₀, c, h₀⟩ := hm.woken j m l hj
      obtain ⟨-, ⟨task, -, -, rfl⟩ | ⟨fd, evs, next, -, -, rfl⟩⟩ := wait_cases h₀ <;> cases hd
  have hij : i ≠ j := by
    rintro rfl
    rw [hi] at hrun
    rw [← Thread.run.inj (Option.some.inj hrun)] at hd
    cases hd
  have hj' : u.threads[j]? = some (.run t.loc) := by
    rw [hu]
    exact (List.getElem?_set_ne hij).trans hrun
  have hs' : u.shared.pool.shutdown = true := by rw [hu]
  have hcalls := calls_valid h0 h j
  rw [locs_of_run hrun] at hcalls
  generalize t.loc = l at hd hj' hcalls
  unfold Loc.deciding at hd
  split at hd
  · rename_i task
    refine drops_of_signal hj' hs' ?_ x
    rw [hu]
    exact hcalls.1
  · rename_i task
    refine drops_of_shutdownTest hj' hs' ?_ x
    rcases hcalls with h | h
    · rw [hu]
      exact h.1
    · rw [hs] at h
      cases h.2
  · cases hd

/-- A step that is not careful can be continued to a state in which a task has been dropped. -/
theorem drops_of_careless (h0 : Begun cfg s₀) (h : Reach (step (code cfg w)) s₀ s) {a : Action X}
    {u : SimpleState E K R G} (hstep : step (code cfg w) s a = some u) (ha : ¬ NoneDropped s a) :
    ∃ v, Reach (step (code cfg w)) u v ∧ ¬ Executed v := by
  simp only [NoneDropped, Executes, not_forall] at ha
  obtain ⟨i, x, ws, l, rfl, hi, hcare⟩ := ha
  unfold Careful at hcare
  split at hcare
  · rw [Classical.not_imp] at hcare
    exact drops_of_take h0 h hi hcare.1 hcare.2 hstep
  · simp only [not_or, not_forall, Bool.not_eq_true, Bool.not_eq_false] at hcare
    obtain ⟨hs, l, hl, hd⟩ := hcare
    exact drops_of_store h0 h hi hs hl hd hstep
  · exact absurd trivial hcare

/-- Thread `i` goes on alone from `s` to its call of `task`. -/
def CallsNext (cfg : Config) (w : World E X K R G) (i : Nat) (task : PoolTask G) (s : SimpleState E K R G) : Prop :=
  ∃ v, ReachWith (step (code cfg w)) (fun _ a => ∃ x ws, a = .exec i x ws) s v ∧
    v.shared.pool.called = s.shared.pool.called ++ [(i, task)]

theorem CallsNext.of_step {i : Nat} {task : PoolTask G} {x : X} {ws : List Nat} {u : SimpleState E K R G}
    (hstep : step (code cfg w) s (.exec i x ws) = some u) (hu : u.shared.pool.called = s.shared.pool.called)
    (h : CallsNext cfg w i task u) : CallsNext cfg w i task s := by
  obtain ⟨v, hv, hc⟩ := h
  exact ⟨v, (ReachWith.refl s |>.snoc hstep ⟨x, ws, rfl⟩).trans hv, by rw [hc, hu]⟩

variable [Inhabited X]

theorem callsNext_of_call {i : Nat} {task : PoolTask G} (hi : s.threads[i]? = some (.run (.worker task .call))) :
    CallsNext cfg w i task s := by
  have hstep : step (code cfg w) s (.exec i default []) = _ := step_update hi rfl default []
  exact ⟨_, (ReachWith.refl s).snoc hstep ⟨default, [], rfl⟩, rfl⟩

theorem callsNext_of_unlock {i : Nat} {task : PoolTask G} (hi : s.threads[i]? = some (.run (.worker task .unlock))) :
    CallsNext cfg w i task s := by
  have hstep : step (code cfg w) s (.exec i default []) = _ := step_run hi default []
  exact .of_step hstep rfl (callsNext_of_call (set_getElem?_self hi _))

theorem callsNext_of_shutdownTest {i : Nat} {task : PoolTask G}
    (hi : s.threads[i]? = some (.run (.worker task .shutdownTest))) (hs : s.shared.pool.shutdown = false) :
    CallsNext cfg w i task s := by
  have hstep : step (code cfg w) s (.exec i default []) = _ := step_update hi rfl default []
  simp only [hs, Bool.false_eq_true, if_false] at hstep
  exact .of_step hstep rfl (callsNext_of_unlock (set_getElem?_self hi _))

theorem callsNext_of_signal {i : Nat} {task : PoolTask G} (hi : s.threads[i]? = some (.run (.worker task .signal)))
    (hs : s.shared.pool.shutdown = false) : CallsNext cfg w i task s := by
  obtain ⟨ws, u, hstep, hu, hi'⟩ : ∃ ws u, step (code cfg w) s (.exec i default ws) = some u ∧
      u.shared = s.shared ∧ u.threads[i]? = some (.run (.worker task .shutdownTest)) :=
      step_signal hi (signal_eq ..) default
  exact .of_step hstep (by rw [hu]) (callsNext_of_shutdownTest hi' (by rw [hu]; exact hs))

/-- In a run without a careless step, the worker that holds a task goes on to call it. -/
theorem callsNext_of_held (h0 : Begun cfg s₀) (h : ReachWith (step (code cfg w)) NoneDropped s₀ s) {i : Nat}
    {task : PoolTask G} (hheld : s.shared.pool.Held i task) : CallsNext cfg w i task s := by
  have hcalls := calls_valid_of_noneDropped h0 h i
  have hne : ¬ s.shared.pool.Settled i := by
    intro hset
    unfold Pool.Held at hheld
    rw [hset] at hheld
    simp at hheld
  have htask : ∀ {task'}, s.shared.pool.Held i task' → task' = task := by
    intro task' h'
    have := h'.symm.trans hheld
    simpa using this
  have hm := h0.mutexInv h.reach
  cases ht : s.threads[i]? with
  | none =>
    have hl : s.locs[i]? = none := by simp [State.locs, ht]
    rw [hl] at hcalls
    exact absurd hcalls hne
  | some t =>
    have hl : s.locs[i]? = some t.loc := by simp [State.locs, ht]
    rw [hl] at hcalls
    cases t with
    | run l =>
      rcases l with ⟨task', pc⟩ | ⟨task', r⟩ | ⟨fd, evs, next, pc⟩ | k | pc
      · cases pc with
        | signal =>
          obtain rfl := htask hcalls.1
          exact callsNext_of_signal ht (hcalls.2.resolve_left id)
        | shutdownTest =>
          have hcalls := hcalls.resolve_right fun h => hne h.1
          obtain rfl := htask hcalls.1
          exact callsNext_of_shutdownTest ht (hcalls.2.resolve_left id)
        | unlock =>
          obtain rfl := htask hcalls
          exact callsNext_of_unlock ht
        | call =>
          obtain rfl := htask hcalls
          exact callsNext_of_call ht
        | exitUnlock | exit | exited => exact absurd (hcalls.resolve_left id) hne
        | _ => exact absurd hcalls hne
      · exact absurd hcalls.1 hne
      all_goals exact absurd hcalls hne
    | blocked c m l =>
      obtain ⟨l₀, h₀⟩ := hm.blocked i c m l ht
      obtain ⟨-, ⟨task, -, -, rfl⟩ | ⟨fd, evs, next, -, -, rfl⟩⟩ := wait_cases h₀ <;> exact absurd hcalls hne
    | woken m l =>
      obtain ⟨l₀, c, h₀⟩ := hm.woken i m l ht
      obtain ⟨-, ⟨task, -, -, rfl⟩ | ⟨fd, evs, next, -, -, rfl⟩⟩ := wait_cases h₀ <;> exact absurd hcalls hne

end Runs

/-- Every task that a worker takes is called once, with the worker's own copy, exactly in the runs in
which no worker takes a task with `shutdown` set and `shutdown` is not set while a worker is between
the taking of a task and its test of the flag; in those runs the worker goes on to the call by its own
next statements. -/
theorem executed_exact [Inhabited X] (cfg : Config) (w : World E X K R G) (s₀ : SimpleState E K R G)
    (h0 : Begun cfg s₀) : ExactFor (step (code cfg w)) NoneDropped Executed s₀ ∧
      ∀ s, ReachWith (step (code cfg w)) NoneDropped s₀ s → ∀ i task, s.shared.pool.Held i task →
        CallsNext cfg w i task s := by
  refine ⟨⟨fun t h => ?_, fun t a u h hstep ha => ?_⟩, fun s h i task hheld => ?_⟩
  · constructor
    · exact fun i => (calls_valid_of_noneDropped h0 h i).called
    · exact (foundInv h0 h.reach).shared.num_eq
  · exact drops_of_careless h0 h hstep ha
  · exact callsNext_of_held h0 h hheld

/-! ## A pool of one worker and one call -/

/-- A caller that calls `addtask` once, or has done so; a callback that returns at once. -/
def oneCall : World Unit Unit (Option (Nat × Nat)) Unit Unit where
  caller
    | some (fd, evs) => .addtask fd evs none
    | none => .halt
  taskRun _ := ()
  callback _ _ := .ret
  record _ _ := ()

/-- `destroy_threadpool` is thread 0, the caller thread 1, the worker thread 2. -/
def oneAdd : SimpleState Unit (Option (Nat × Nat)) Unit Unit :=
  createThreadpool (fun _ => ⟨0, .unset, 0, 0, 0, ()⟩) [⟨0, .unset, 0, 0, 0, ()⟩] () [.destroy .store,
    .caller (some (7, 1))]

theorem oneAdd_begun : Begun ⟨1, 1⟩ oneAdd := ⟨⟨_, _, _, [some (7, 1)], rfl, rfl⟩⟩

/-- The task is added and taken, the flag set, and the worker leaves. -/
def dropRun : List (Action Unit) :=
  List.replicate 5 (.exec 1 () []) ++ List.replicate 4 (.exec 2 () []) ++ [.exec 0 () [], .exec 2 () []]

theorem taken_task_dropped : ¬ ∀ (cfg : Config) (s₀ s : SimpleState Unit (Option (Nat × Nat)) Unit Unit),
    Begun cfg s₀ → Reach (step (code cfg oneCall)) s₀ s → Executed s := by
  intro h
  refine not_executed (i := 2) (l := .worker ⟨0, .copy, 7, 0, 1, ()⟩ .exitUnlock) rfl rfl
    (?_ : Pool.Held 2 ⟨0, .copy, 7, 0, 1, ()⟩ _)
    (h ⟨1, 1⟩ oneAdd _ oneAdd_begun (reach_after oneAdd dropRun))
  show tasksOf 2 _ = tasksOf 2 _ ++ [_]
  decide +kernel

theorem executed_exact_oneAdd : ExactFor (step (code ⟨1, 1⟩ oneCall)) NoneDropped Executed oneAdd ∧
    ∀ s, ReachWith (step (code ⟨1, 1⟩ oneCall)) NoneDropped oneAdd s → ∀ i task, s.shared.pool.Held i task →
      CallsNext ⟨1, 1⟩ oneCall i task s :=
  executed_exact ⟨1, 1⟩ oneCall oneAdd oneAdd_begun

end LinuxProgram.Simple
