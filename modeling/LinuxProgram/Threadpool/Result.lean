/-
What the result of `threadpool_add` says. A call that puts its task in puts it in once and returns 0; a
call that finds the pool shutting down leaves the queue as it is and returns 0 as well, although the
header promises -1. So the results are true exactly in the runs in which no call finds that.
-/
import LinuxProgram.Threadpool.Queue

namespace LinuxProgram.Threadpool

open LinuxProgram.Machine

variable {F A : Type}

/-! ## The property -/

/-- Until the pool is freed a call has returned 0 only if its task was put in, once, and another number
if it was not. -/
def TellsTruth (s : PoolState F A) : Prop :=
  s.shared.released = [] → ∀ (i : Nat) task ret, s.threads[i]? = some (.run (.add task (.returned ret))) →
    (ret = 0 → tasksOf i s.shared.added = [task]) ∧ (tasksOf i s.shared.added = [] → ret ≠ 0)

/-- A call that tests `shutdown` under the lock finds it unset. -/
def FindsOpen (s : PoolState F A) : Action (Outcome F A) → Prop
  | .exec i _ _ =>
    s.shared.released = [] → ∀ task, s.threads[i]? = some (.run (.add task .shutdownTest)) → s.shared.shutdown = false
  | .spurious _ => True

/-- The step of a call leaves the queue as it is unless it puts the task in. -/
def LeavesQueue (s : PoolState F A) (a : Action (Outcome F A)) (s' : PoolState F A) : Prop :=
  ∀ (i : Nat) x ws task pc, a = .exec i x ws → s.locs[i]? = some (.add task pc) → tasksOf i s'.shared.added = [] →
    s.shared.SameQueue s'.shared

/-! ## What the calls have put in -/

/-- What thread `i` has put in: nothing before the statement that does, its task behind it. `R` is what
is known when a call has been refused. -/
def Puts (R : Pool F A → Prop) (i : Nat) (o : Option (Loc F A)) (p : Pool F A) : Prop :=
  match o with
  | some (.add task .signal) | some (.add task .unlock) => tasksOf i p.added = [task]
  | some (.add _ .shutdownBroadcast) | some (.add _ .shutdownUnlock) => tasksOf i p.added = [] ∧ R p
  | some (.add task (.returned ret)) => ret = 0 ∧ (tasksOf i p.added = [task] ∨ tasksOf i p.added = [] ∧ R p)
  | _ => tasksOf i p.added = []

/-- A call tests `shutdown` where `R` or the flag is unset. -/
def Tests (R : Pool F A → Prop) (s : PoolState F A) (_ : Nat) (l : Loc F A) : Prop :=
  ∀ task, l = .add task .shutdownTest → s.shared.shutdown = false ∨ R s.shared

/-- `R` lasts as long as nothing is taken back from what was released. -/
def Lasting (R : Pool F A → Prop) : Prop := ∀ p p' : Pool F A, (p.released ≠ [] → p'.released ≠ []) → R p → R p'

section Puts

variable {R : Pool F A → Prop} {l : Loc F A}

/-- Where thread `j` has put in the same in both states. -/
theorem Puts.congr (hR : Lasting R) {j : Nat} {o : Option (Loc F A)} {p p' : Pool F A} (h : Puts R j o p)
    (ha : tasksOf j p'.added = tasksOf j p.added) (hrel : p.released ≠ [] → p'.released ≠ []) : Puts R j o p' := by
  have hr := hR p p' hrel
  revert h
  unfold Puts
  split
  · rw [ha]; exact id
  · rw [ha]; exact id
  · rw [ha]; exact And.imp_right hr
  · rw [ha]; exact And.imp_right hr
  · rw [ha]; exact And.imp_right (Or.imp_right (And.imp_right hr))
  · rw [ha]; exact id

/-- A statement that puts nothing in, between locations that say the same. -/
theorem ownedUnder_puts (hR : Lasting R) (f : Nat → Pool F A → Pool F A) (next : Pool F A → Loc F A)
    (hf : ∀ i (p : Pool F A), (f i p).added = p.added ∧ (p.released ≠ [] → (f i p).released ≠ []))
    (hn : ∀ i s, Tests R s i l → Puts R i (some l) s.shared → Puts R i (some (next s.shared)) s.shared) :
    (Instr.update f next : PoolInstr F A).OwnedUnder (Tests R) (Puts R) l := by
  refine ownedUnder_update _ _ (fun i s hP h => ?_) fun i s _ j _ h => ?_
  · exact (hn i s hP h).congr hR (by rw [(hf i _).1]) (hf i _).2
  · exact h.congr hR (by rw [(hf i _).1]) (hf i _).2

theorem putsOwning (cfg : Config) (hR : Lasting R) : OwningUnder (code (F := F) (A := A) cfg) (Tests R) (Puts R) := by
  rintro (⟨tid, pc⟩ | ⟨task, pc⟩ | pc | pc)
  · cases pc with
    | test | shutdownTest =>
      refine ownedUnder_puts hR _ _ (fun _ _ => ⟨rfl, id⟩) fun i s _ h => ?_
      split <;> exact h
    | exitTest =>
      refine ownedUnder_puts hR _ _ (fun _ p => ?_) fun i s _ h => ?_
      · unfold Pool.exitTest; split <;> exact ⟨rfl, id⟩
      · split <;> exact h
    | take | exiting | busyInc | busyDec | call | running =>
      exact ownedUnder_puts hR _ _ (fun _ _ => ⟨rfl, id⟩) fun i s _ h => h
    | exited => trivial
    | _ => exact fun i p h => h
  · cases pc with
    | test =>
      refine ownedUnder_puts hR _ _ (fun _ _ => ⟨rfl, id⟩) fun i s _ h => ?_
      split <;> exact h
    | shutdownTest =>
      refine ownedUnder_puts hR _ _ (fun _ _ => ⟨rfl, id⟩) fun i s hP h => ?_
      split
      · rename_i hshut
        rcases hP task rfl with hopen | hr
        · exact absurd hshut (by simp [hopen])
        · exact ⟨h, hr⟩
      · exact h
    | put =>
      refine ownedUnder_update _ _ (fun i s _ h => ?_) fun i s _ j hj h => ?_
      · have hnone : tasksOf i s.shared.added = [] := h
        show tasksOf i (s.shared.added ++ [(i, task)]) = [task]
        rw [tasksOf_snoc_self, hnone, List.nil_append]
      · exact h.congr hR (tasksOf_snoc_ne hj _ _) id
    | unlock => exact fun i p h => ⟨rfl, .inl h⟩
    | shutdownUnlock => exact fun i p h => ⟨rfl, .inr h⟩
    | returned => trivial
    | _ => exact fun i p h => h
  · cases pc with
    | grow k add live busy =>
      intro i s x p' l' new h _
      have hsame := growStep_same h
      have hadd : ∀ j, tasksOf j p'.added = tasksOf j s.shared.added := fun j => by rw [hsame.added]
      have hrel : s.shared.released ≠ [] → p'.released ≠ [] := by
        rcases growStep_cases h with ⟨rfl, -, -⟩ | ⟨tid, -, -, -, -, -, -, rfl, -, -⟩ <;> exact id
      refine ⟨fun hI => ?_, fun j _ hj => hj.congr hR (hadd j) hrel, fun n hn j hj => ?_⟩
      · rcases growStep_cases h with ⟨-, -, rfl | rfl⟩ | ⟨tid, -, -, -, -, -, -, -, rfl, -⟩ <;>
          exact Puts.congr hR (p := s.shared) hI (hadd i) hrel
      · rcases growStep_cases h with ⟨-, rfl, -⟩ | ⟨tid, -, -, -, -, -, -, -, -, rfl⟩
        · cases hn
        · simp only [List.mem_singleton] at hn
          subst hn
          exact hj
    | signal k =>
      simp only [code, adjustThread]
      split
      · exact fun i p h => h
      · exact ownedUnder_puts hR _ _ (fun _ _ => ⟨rfl, id⟩) fun i s _ h => h
    | loop | growTest | shrinkTest =>
      refine ownedUnder_puts hR _ _ (fun _ _ => ⟨rfl, id⟩) fun i s _ h => ?_
      split <;> exact h
    | sleep | read | readBusy | shrinkSet => exact ownedUnder_puts hR _ _ (fun _ _ => ⟨rfl, id⟩) fun i s _ h => h
    | returned => trivial
    | _ => exact fun i p h => h
  · cases pc with
    | store => exact ownedUnder_puts hR _ _ (fun _ _ => ⟨rfl, id⟩) fun i s _ h => h
    | loop =>
      refine ownedUnder_puts hR _ _ (fun _ _ => ⟨rfl, id⟩) fun i s _ h => ?_
      split <;> exact h
    | bcast | lockLock | lockCounter => exact fun i p h => h
    | returned => trivial
    | _ => exact ownedUnder_puts hR _ _ (fun _ _ => ⟨rfl, fun _ => by simp [Pool.release]⟩) fun i s _ h => h
  · intro i s x p' l' new h _
    obtain ⟨hp, rfl, task, rfl⟩ := client_acts cfg i s.shared x p' l' new h
    rw [hp]
    refine ⟨id, fun _ _ => id, fun n hn j hj => ?_⟩
    obtain rfl := List.mem_singleton.1 hn
    exact hj

theorem puts {cfg : Config} {s₀ s : PoolState F A} (hR : Lasting R) {ok : PoolState F A → Action (Outcome F A) → Prop}
    (hok : ∀ u a, ok u a → Executes (Tests R) u a) (h0 : Created cfg s₀)
    (h : ReachWith (step (code cfg)) ok s₀ s) (i : Nat) : Puts R i s.locs[i]? s.shared := by
  refine (putsOwning cfg hR).valid (fun u a _ => hok u a) (fun j => ?_) h i
  obtain ⟨tids, others, garbage, -, -, -, rfl⟩ := h0.start
  cases hl : (threadpoolCreate cfg tids others garbage).locs[j]? with
  | none => rfl
  | some l =>
    rcases h0.mem_locs (List.mem_of_getElem? hl) with rfl | rfl | rfl | ⟨tid, rfl⟩ <;> rfl

end Puts

/-! ## Runs in which no call is refused -/

section Runs

variable {cfg : Config} {s₀ s s' : PoolState F A}

theorem locs_of_run {i : Nat} {l : Loc F A} (h : s.threads[i]? = some (.run l)) : s.locs[i]? = some l := by
  simp [State.locs, h, Thread.loc]

theorem tellsTruth (h0 : Created cfg s₀) (h : ReachWith (step (code cfg)) FindsOpen s₀ s) : TellsTruth s := by
  intro hrel i task ret ht
  have hputs : Puts (fun p => p.released ≠ []) i s.locs[i]? s.shared := by
    refine puts (fun _ _ hrel hr => hrel hr) (fun u a hok => ?_) h0 h i
    rintro i x ws l rfl hl task rfl
    by_cases hr : u.shared.released = []
    · exact .inl (hok hr task hl)
    · exact .inr hr
  rw [locs_of_run ht] at hputs
  obtain ⟨rfl, hone | ⟨-, hr⟩⟩ := hputs
  · exact ⟨fun _ => hone, fun hnone => by rw [hone] at hnone; cases hnone⟩
  · exact absurd hrel hr

/-- A refused call returns 0. -/
theorem reach_refused (h0 : Created cfg s₀) (h : Reach (step (code cfg)) s₀ s) {a : Action (Outcome F A)}
    (hs : step (code cfg) s a = some s') (ha : ¬ FindsOpen s a) :
    ∃ v, Reach (step (code cfg)) s' v ∧ ¬ TellsTruth v := by
  cases a with
  | spurious i => exact absurd trivial ha
  | exec i x ws =>
    simp only [FindsOpen, not_forall, Bool.not_eq_false] at ha
    obtain ⟨hrel, task, ht, hshut⟩ := ha
    -- the broadcast and the unlocking are always enabled
    rw [step_update ht (show code cfg (.add task .shutdownTest) = .update _ _ from rfl)] at hs
    simp only [hshut, if_true, Option.some.injEq] at hs
    have ht1 : s'.threads[i]? = some (.run (.add task .shutdownBroadcast)) := by
      rw [← hs]
      exact set_getElem?_self ht _
    have h1 : step (code cfg) s' (.exec i .none []) = some
        { s' with threads := (wakeAll .queueNotEmpty s'.threads).set i (.run (.add task .shutdownUnlock)) } := by
      rw [step_run ht1]; rfl
    obtain ⟨u, hu⟩ : ∃ u : PoolState F A,
        u = { s' with threads := (wakeAll Cond.queueNotEmpty s'.threads).set i (.run (.add task .shutdownUnlock)) } :=
        ⟨_, rfl⟩
    have ht2 : u.threads[i]? = some (.run (.add task .shutdownUnlock)) := by
      rw [hu]
      refine List.getElem?_set_self ?_
      rw [wakeAll_length]
      exact (List.getElem?_eq_some_iff.1 ht1).1
    have h2 : step (code cfg) u (.exec i .none []) = some
        { u with
          owner := Function.update u.owner .lock none
          threads := u.threads.set i (.run (.add task (.returned 0))) } := by
      rw [step_run ht2]; rfl
    refine ⟨_, Reach.cons (h1.trans (congrArg some hu.symm)) (Reach.cons h2 (Reach.refl _)), fun htrue => ?_⟩
    have hputs := puts (R := fun _ => True) (fun _ _ _ _ => trivial) (fun _ _ _ _ _ _ _ _ _ _ _ => .inr trivial) h0 h i
    rw [locs_of_run ht] at hputs
    have hsh : u.shared = s.shared := by rw [hu, ← hs]; rfl
    refine (htrue ?_ i task 0 (set_getElem?_self ht2 _)).2 ?_ rfl
    · rw [← hrel, ← hsh]
    · rw [← hputs, ← hsh]

/-- Only the statement that puts the task in changes the queue. -/
theorem leavesQueue {a : Action (Outcome F A)} (hs : step (code cfg) s a = some s') : LeavesQueue s a s' := by
  rintro i x ws task pc rfl hl hnone
  rcases step_shared hs with hsame | ⟨j, y, ws', l, f, l', new, he, ht, hc, hf, -⟩
  · rw [hsame]
    exact ⟨rfl, rfl, rfl, rfl, id, rfl, rfl⟩
  · cases he
    rw [locs_of_run ht] at hl
    cases hl
    cases pc with
    | test | shutdownTest =>
      cases hc
      obtain ⟨hsh, -⟩ := Prod.mk.inj (Option.some.inj hf)
      rw [← hsh]
      exact ⟨rfl, rfl, rfl, rfl, id, rfl, rfl⟩
    | put =>
      cases hc
      obtain ⟨hsh, -⟩ := Prod.mk.inj (Option.some.inj hf)
      have hone : tasksOf i (s.shared.added ++ [(i, task)]) = [] := by
        rw [← hsh] at hnone
        exact hnone
      rw [tasksOf_snoc_self] at hone
      simp at hone
    | _ => cases hc

end Runs

/-! ## The condition -/

/-- The results are true exactly in the runs in which no call finds the pool shutting down; in every run
a call that has not put its task in has left the queue as it is. -/
theorem result_exact {cfg : Config} {s₀ : PoolState F A} (h0 : Created cfg s₀) :
    ExactFor (step (code cfg)) FindsOpen TellsTruth s₀ ∧
      ∀ s a s', Reach (step (code cfg)) s₀ s → step (code cfg) s a = some s' → LeavesQueue s a s' :=
  ⟨{ safe := fun _ h => tellsTruth h0 h
     needed := fun _ _ _ h hs ha => reach_refused h0 h hs ha },
    fun _ _ _ _ hs => leavesQueue hs⟩

theorem result_exact_onePool : ExactFor (step (code ⟨1, 1, 1⟩)) FindsOpen TellsTruth onePool :=
  (result_exact onePool_created).1

/-- The pool is shut down, then one call of `threadpool_add`, thread 4, returns. -/
def refusedRun : List (Action (Outcome Nat Nat)) :=
  [.exec 1 .none [], .exec 0 (.task ⟨7, some 5⟩) []] ++ List.replicate 5 (.exec 4 .none [])

/-- The call returns 0 and its task is lost. -/
theorem refused_returns_zero : ¬ ∀ (cfg : Config) (s₀ s : PoolState Nat Nat), Created cfg s₀ →
    Reach (step (code cfg)) s₀ s → TellsTruth s := by
  intro h
  have htrue := h ⟨1, 1, 1⟩ onePool _ onePool_created (reach_after onePool refusedRun)
  exact (htrue (by decide +kernel) 4 ⟨7, some 5⟩ 0 (by rfl)).2 (by decide +kernel) rfl

end LinuxProgram.Threadpool
