/-
The task ring of the thread pool is a bounded FIFO queue, and each task taken is invoked once.

The ring part is a proof outline: the ring invariant holds throughout, and between a test of
`queue_size` and the statement that relies on it the thread holds `lock`, so no other thread
changes the queue. Exactly-once execution compares, worker by worker, the tasks taken with the
tasks invoked.
-/
import LinuxProgram.Threadpool.Locks
import LinuxProgram.Data.Ring

namespace LinuxProgram.Threadpool

open LinuxProgram.Machine LinuxProgram.Data

variable {F A : Type}

/-! ## The ring -/

/-- The fields of the ring agree with the history of the tasks. -/
structure Pool.Ring (cfg : Config) (p : Pool F A) : Prop where
  nonneg : 0 ≤ p.queueSize
  le : p.queueSize ≤ cfg.queueMaxSize
  front_lt : p.queueFront < cfg.queueMaxSize
  rear_lt : p.queueRear < cfg.queueMaxSize
  rear_eq : p.queueRear = (p.queueFront + p.queueSize.toNat) % cfg.queueMaxSize
  contents : p.taken.map (·.2) ++ window p.taskQueue cfg.queueMaxSize p.queueFront p.queueSize.toNat =
    p.added.map (·.2)

theorem Pool.front_eq (p : Pool F A) : p.front = p.taskQueue p.queueFront := rfl

/-- Clearing the argument first makes no difference: the slot is the new task. -/
theorem Pool.put_eq (cfg : Config) (i : Nat) (task : ThreadpoolTask F A) (p : Pool F A) :
    p.put cfg i task = { p with
      taskQueue := Function.update p.taskQueue p.queueRear task
      queueRear := (p.queueRear + 1) % cfg.queueMaxSize
      queueSize := p.queueSize + 1
      added := p.added ++ [(i, task)] } := rfl

theorem Pool.Ring.put {cfg : Config} {p : Pool F A} (h : p.Ring cfg) (hs : p.queueSize ≠ cfg.queueMaxSize) (i : Nat)
    (task : ThreadpoolTask F A) : (p.put cfg i task).Ring cfg := by
  have h0 := h.nonneg
  have h1 := h.le
  have hn : (p.queueSize + 1).toNat = p.queueSize.toNat + 1 := by omega
  rw [Pool.put_eq]
  refine ⟨by simp; omega, by simp; omega, h.front_lt, Nat.mod_lt _ (by have := h.front_lt; omega), ?_, ?_⟩
  · simp only [hn]
    rw [h.rear_eq, Nat.mod_add_mod, Nat.add_assoc]
  · simp only [hn]
    rw [h.rear_eq, window_push (by omega), ← List.append_assoc, h.contents]
    simp

theorem Pool.Ring.take {cfg : Config} {p : Pool F A} (h : p.Ring cfg) (hs : p.queueSize ≠ 0) (i : Nat) :
    (p.take cfg i).Ring cfg := by
  have h0 := h.nonneg
  have h1 := h.le
  have hlt := h.front_lt
  obtain ⟨n, hn⟩ : ∃ n : Nat, p.queueSize.toNat = n + 1 := ⟨p.queueSize.toNat - 1, by omega⟩
  have hn' : (p.queueSize - 1).toNat = n := by omega
  refine ⟨by simp [Pool.take]; omega, by simp [Pool.take]; omega, Nat.mod_lt _ (by omega), h.rear_lt, ?_, ?_⟩
  · simp only [Pool.take, hn']
    rw [h.rear_eq, hn, Nat.mod_add_mod]
    congr 1; omega
  · have hc := h.contents
    rw [hn, window_pop, Nat.mod_eq_of_lt hlt] at hc
    simp only [Pool.take, hn', window_mod]
    rw [← hc]
    simp [Pool.front_eq]

/-- A step that leaves the ring and its history alone. -/
structure Pool.SameQueue (p p' : Pool F A) : Prop where
  taskQueue : p'.taskQueue = p.taskQueue
  front : p'.queueFront = p.queueFront
  rear : p'.queueRear = p.queueRear
  size : p'.queueSize = p.queueSize
  shutdown : p.shutdown = true → p'.shutdown = true
  added : p'.added = p.added
  taken : p'.taken = p.taken

theorem Pool.Ring.same {cfg : Config} {p p' : Pool F A} (h : p.Ring cfg) (hs : p.SameQueue p') : p'.Ring cfg := by
  obtain ⟨h1, h2, h3, h4, -, h6, h7⟩ := hs
  obtain ⟨n, l, f, r, e, c⟩ := h
  exact ⟨by rwa [h4], by rwa [h4], by rwa [h2], by rwa [h3], by rw [h3, h2, h4]; exact e,
    by rw [h1, h2, h4, h6, h7]; exact c⟩

/-! ## The outline -/

/-- The ring invariant of a queue that has room for a task at all. -/
def Pool.RingIf (cfg : Config) (p : Pool F A) : Prop := 1 ≤ cfg.queueMaxSize → p.Ring cfg

/-- What a thread relies on between its tests and the statements they guard. -/
def Loc.asserts (cfg : Config) : Loc F A → Pool F A → Prop
  | .worker _ .condWait, p => p.queueSize = 0
  | .worker _ .shutdownTest, p => p.queueSize ≠ 0 ∨ p.shutdown = true
  | .worker _ .take, p => p.queueSize ≠ 0
  | .add _ .condWait, p => p.queueSize = cfg.queueMaxSize
  | .add _ .shutdownTest, p => p.queueSize ≠ cfg.queueMaxSize ∨ p.shutdown = true
  | .add _ .put, p => p.queueSize ≠ cfg.queueMaxSize
  | _, _ => True

theorem Loc.asserts_same {cfg : Config} {p p' : Pool F A} (hs : p.SameQueue p') {l : Loc F A}
    (h : l.asserts cfg p) : l.asserts cfg p' := by
  have h4 := hs.size
  have h5 := hs.shutdown
  revert h
  unfold Loc.asserts
  split <;> first | exact id | (rw [h4]; tauto)

/-- An assertion about the queue is only made with `lock` held. -/
theorem Loc.asserts_of_not_held {cfg : Config} {l : Loc F A} (h : l.holds .lock = false) (p : Pool F A) :
    l.asserts cfg p := by
  unfold Loc.asserts
  split <;> trivial

theorem growStep_same {cfg : Config} {k add : Nat} {live busy : Int} {p p' : Pool F A} {x : Outcome F A} {l' : Loc F A}
    {new : List (Loc F A)} (h : growStep cfg k add live busy p x = some (p', l', new)) : p.SameQueue p' := by
  rcases growStep_cases h with ⟨rfl, -, -⟩ | ⟨tid, -, -, -, -, -, -, rfl, -, -⟩ <;>
    exact ⟨rfl, rfl, rfl, rfl, id, rfl, rfl⟩

/-- A statement that leaves the queue alone respects the outline if its next location asserts
nothing. -/
theorem outlined_same {cfg : Config} {l : Loc F A} (f : Nat → Pool F A → Pool F A) (next : Pool F A → Loc F A)
    (hf : ∀ i (p : Pool F A), p.SameQueue (f i p)) (hn : ∀ i p, (next p).asserts cfg (f i p)) :
    (Instr.update f next : PoolInstr F A).Outlined Loc.holds (Pool.RingIf cfg) (fun _ l => l.asserts cfg) l :=
  outlined_update _ _ (fun i p hG _ => ⟨fun hq => (hG hq).same (hf i p), hn i p⟩)
    fun i p _ _ _ _ _ _ => Loc.asserts_same (hf i p)

/-- The statements of the pool respect the ring and its assertions. -/
theorem ringOutline (cfg : Config) :
    ProofOutline (code (F := F) (A := A) cfg) Loc.holds (Pool.RingIf cfg) (fun _ l => l.asserts cfg) := by
  rintro (⟨tid, pc⟩ | ⟨task, pc⟩ | pc | pc)
  · cases pc with
    | test =>
      refine outlined_branch _ (fun i p _ _ hb => ?_) fun i p _ _ hb => ?_
      · simp only [Bool.and_eq_true, beq_iff_eq, Bool.not_eq_true'] at hb; exact hb.1
      · simp only [Bool.and_eq_false_iff, beq_eq_false_iff_ne, Bool.not_eq_false'] at hb; exact hb
    | shutdownTest =>
      refine outlined_branch _ (fun _ _ _ _ _ => trivial) fun i p _ hA hb => ?_
      simp only [Loc.asserts, hb, Bool.false_eq_true, or_false] at hA; exact hA
    | take =>
      refine outlined_update _ _ (fun i p hG hA => ⟨fun hq => (hG hq).take hA i, trivial⟩) fun i p _ _ j l' _ hdisj _ =>
        ?_
      exact Loc.asserts_of_not_held (hdisj .lock rfl) _
    | exitTest =>
      refine outlined_same _ _ (fun _ p => ?_) fun _ p => ?_
      · unfold Pool.exitTest; split <;> exact ⟨rfl, rfl, rfl, rfl, id, rfl, rfl⟩
      · split <;> trivial
    | running => exact outlined_skip fun _ _ _ _ => trivial
    | exiting | busyInc | busyDec | call =>
      exact outlined_same _ _ (fun _ _ => ⟨rfl, rfl, rfl, rfl, id, rfl, rfl⟩) fun _ _ => trivial
    | _ => simp [code, threadpoolThread, Loc.asserts]
  · cases pc with
    | test =>
      refine outlined_branch _ (fun i p _ _ hb => ?_) fun i p _ _ hb => ?_
      · simp only [Bool.and_eq_true, beq_iff_eq, Bool.not_eq_true'] at hb; exact hb.1
      · simp only [Bool.and_eq_false_iff, beq_eq_false_iff_ne, Bool.not_eq_false'] at hb; exact hb
    | shutdownTest =>
      refine outlined_branch _ (fun _ _ _ _ _ => trivial) fun i p _ hA hb => ?_
      simp only [Loc.asserts, hb, Bool.false_eq_true, or_false] at hA; exact hA
    | put =>
      refine outlined_update _ _
        (fun i p hG hA => ⟨fun hq => (hG hq).put hA i task, trivial⟩) fun i p _ _ j l' _ hdisj _ => ?_
      exact Loc.asserts_of_not_held (hdisj .lock rfl) _
    | _ => simp [code, threadpoolAdd, Loc.asserts]
  · cases pc with
    | grow k add live busy =>
      intro i p x p' l' new h hG _
      have hs := growStep_same h
      refine ⟨⟨fun hq => (hG hq).same hs, ?_⟩, fun _ _ _ _ hA => Loc.asserts_same hs hA⟩
      rcases growStep_cases h with ⟨-, rfl, rfl | rfl⟩ | ⟨_, -, -, -, -, -, -, -, rfl, rfl⟩ <;>
        simp [Loc.asserts]
    | signal k =>
      simp only [code, adjustThread]
      split
      · exact fun _ _ _ _ => trivial
      · exact outlined_skip fun _ _ _ _ => trivial
    | sleep => exact outlined_skip fun _ _ _ _ => trivial
    | loop | growTest | shrinkTest => exact outlined_branch _ (fun _ _ _ _ _ => trivial) fun _ _ _ _ _ => trivial
    | read | readBusy | shrinkSet =>
      exact outlined_same _ _ (fun _ _ => ⟨rfl, rfl, rfl, rfl, id, rfl, rfl⟩) fun _ _ => trivial
    | _ => simp [code, adjustThread, Loc.asserts]
  · cases pc with
    | loop => exact outlined_branch _ (fun _ _ _ _ _ => trivial) fun _ _ _ _ _ => trivial
    | store => exact outlined_same _ _ (fun _ _ => ⟨rfl, rfl, rfl, rfl, fun _ => rfl, rfl, rfl⟩) fun _ _ => trivial
    | bcast | lockLock | lockCounter | returned => simp [code, threadpoolDestroy, Loc.asserts]
    | _ => exact outlined_same _ _ (fun _ _ => ⟨rfl, rfl, rfl, rfl, id, rfl, rfl⟩) fun _ _ => trivial
  · intro i p x p' l' new h hG _
    obtain ⟨rfl, rfl, task, rfl⟩ := client_acts cfg i p x p' l' new h
    exact ⟨⟨hG, trivial, by simp [Loc.asserts]⟩, fun _ _ _ _ hA => hA⟩

/-- The ring and the assertions hold in every reachable state. -/
theorem ringInv {cfg : Config} {s₀ s : PoolState F A} (h0 : Created cfg s₀)
    (h : Reach (step (code cfg)) s₀ s) : OutlineInv (Pool.RingIf cfg) (fun _ l => l.asserts cfg) s := by
  refine (ringOutline cfg).valid (locking cfg) (mutexInv h0 (Reach.refl _)) ?_ h
  obtain ⟨tids, others, garbage, -, -, -, rfl⟩ := h0.start
  refine ⟨fun hq => ⟨by simp [threadpoolCreate], by simp [threadpoolCreate], by simpa [threadpoolCreate],
    by simpa [threadpoolCreate], by simp [threadpoolCreate], by simp [threadpoolCreate]⟩, fun i l hl => ?_⟩
  rcases h0.mem_threads (List.mem_of_getElem? hl) with h | h | h | ⟨tid, h⟩ <;> cases h <;> trivial

/-- The two statements that change the number of tasks. -/
theorem sizes (cfg : Config) (l : Loc F A) : (code cfg l).Acts fun _ p p' _ _ => p'.queueSize = p.queueSize ∨
    (∃ tid, l = .worker tid .take ∧ p'.queueSize = p.queueSize - 1) ∨
    ∃ task, l = .add task .put ∧ p'.queueSize = p.queueSize + 1 := by
  rcases l with ⟨tid, pc⟩ | ⟨task, pc⟩ | pc | pc | _
  · cases pc with
    | take => exact acts_update _ _ fun i p => .inr (.inl ⟨tid, rfl, rfl⟩)
    | exitTest =>
      refine acts_update _ _ fun i p => .inl ?_
      unfold Pool.exitTest
      split <;> rfl
    | test | shutdownTest | exiting | busyInc | busyDec | call | running => exact acts_update _ _ fun i p => .inl rfl
    | _ => trivial
  · cases pc with
    | put => exact acts_update _ _ fun i p => .inr (.inr ⟨task, rfl, rfl⟩)
    | test | shutdownTest => exact acts_update _ _ fun i p => .inl rfl
    | _ => trivial
  · cases pc with
    | grow k add live busy => exact fun i p x p' l' new h => .inl (growStep_same h).size
    | signal k =>
      simp only [code, adjustThread]
      split
      · trivial
      · exact acts_update _ _ fun i p => .inl rfl
    | loop | growTest | shrinkTest | sleep | read | readBusy | shrinkSet => exact acts_update _ _ fun i p => .inl rfl
    | _ => trivial
  · cases pc with
    | bcast | lockLock | lockCounter | returned => trivial
    | _ => exact acts_update _ _ fun i p => .inl rfl
  · intro i p x p' l' new h
    obtain ⟨rfl, -, -⟩ := client_acts cfg i p x p' l' new h
    exact .inl rfl

/-- The queue never holds more than it has room for, also if it has none. -/
theorem queueSize_le {cfg : Config} {s₀ s : PoolState F A} (h0 : Created cfg s₀) (h : Reach (step (code cfg)) s₀ s) :
    0 ≤ s.shared.queueSize ∧ s.shared.queueSize ≤ cfg.queueMaxSize := by
  refine ReachWith.invariant
    (I := fun u : PoolState F A => 0 ≤ u.shared.queueSize ∧ u.shared.queueSize ≤ cfg.queueMaxSize) h
    (fun u hu => ringInv h0 hu) ?_ fun u a u' hring hI _ hs => ?_
  · obtain ⟨tids, others, garbage, -, -, -, rfl⟩ := h0.start
    exact ⟨le_refl _, Int.natCast_nonneg _⟩
  · rcases step_shared hs with hsame | ⟨i, x, ws, l, f, l', new, -, ht, hc, hf, -⟩
    · rw [hsame]
      exact hI
    · have hasserts := hring.run i l ht
      rcases (sizes cfg l).of hc hf with hsize | ⟨tid, rfl, hsize⟩ | ⟨task, rfl, hsize⟩
      · rw [hsize]
        exact hI
      · have hne : u.shared.queueSize ≠ 0 := hasserts
        omega
      · have hne : u.shared.queueSize ≠ cfg.queueMaxSize := hasserts
        omega

/-! ## Exactly-once execution -/

/-- The tasks thread `i` has in a log. -/
def tasksOf {T : Type} (i : Nat) (log : List (Nat × T)) : List T := (log.filter (·.1 == i)).map (·.2)

theorem tasksOf_snoc_self {T : Type} (i : Nat) (log : List (Nat × T)) (t : T) :
    tasksOf i (log ++ [(i, t)]) = tasksOf i log ++ [t] := by
  simp [tasksOf]

theorem tasksOf_snoc_ne {T : Type} {i j : Nat} (hij : j ≠ i) (log : List (Nat × T)) (t : T) :
    tasksOf j (log ++ [(i, t)]) = tasksOf j log := by
  simp [tasksOf, List.filter_append, Ne.symm hij]

/-- The task a worker has taken and not yet invoked. -/
def Loc.pending : Loc F A → List (ThreadpoolTask F A)
  | .worker _ (.notFull t) | .worker _ (.unlock t) | .worker _ (.busyLock t) | .worker _ (.busyInc t)
  | .worker _ (.busyUnlock t) | .worker _ (.call t) => [t]
  | _ => []

/-- Thread `i` has invoked each task it took, in order, but for the one it is about to invoke. -/
def InvokesTaken (i : Nat) (l : Option (Loc F A)) (p : Pool F A) : Prop :=
  tasksOf i p.taken = tasksOf i p.called ++ (l.map Loc.pending).getD []

/-- A statement that touches neither log, between locations with the same pending task. -/
theorem ownedAs_same {l : Loc F A} (f : Nat → Pool F A → Pool F A) (next : Pool F A → Loc F A)
    (hf : ∀ i (p : Pool F A), (f i p).taken = p.taken ∧ (f i p).called = p.called)
    (hn : ∀ p, (next p).pending = l.pending) :
    (Instr.update f next : PoolInstr F A).OwnedAs InvokesTaken l := by
  refine ownedAs_update _ _ (fun i p h => ?_) fun i p j o _ h => ?_
  · unfold InvokesTaken at h ⊢
    rw [(hf i p).1, (hf i p).2, Option.map_some, Option.getD_some, hn]; exact h
  · unfold InvokesTaken at h ⊢
    rw [(hf i p).1, (hf i p).2]; exact h

theorem invokesTaken_none {j : Nat} {p : Pool F A} {l : Loc F A} (hl : l.pending = [])
    (h : InvokesTaken j none p) : InvokesTaken j (some l) p := by
  unfold InvokesTaken at h ⊢
  rw [Option.map_some, Option.getD_some, hl]; exact h

/-- The statements of the pool invoke what was taken. -/
theorem invokesOwning (cfg : Config) : Owning (code (F := F) (A := A) cfg) InvokesTaken := by
  rintro (⟨tid, pc⟩ | ⟨task, pc⟩ | pc | pc)
  · cases pc with
    | take =>
      refine ownedAs_update _ _ (fun i p h => ?_) fun i p j o hj h => ?_
      · simp only [InvokesTaken, Option.map_some, Option.getD_some, Loc.pending, List.append_nil, Pool.take] at h ⊢
        rw [← h]; exact tasksOf_snoc_self ..
      · simp only [InvokesTaken, Pool.take] at h ⊢
        rw [← h]; exact tasksOf_snoc_ne hj ..
    | call task =>
      refine ownedAs_update _ _ (fun i p h => ?_) fun i p j o hj h => ?_
      · simp only [InvokesTaken, Option.map_some, Option.getD_some, Loc.pending, List.append_nil] at h ⊢
        rw [tasksOf_snoc_self]; exact h
      · simp only [InvokesTaken] at h ⊢
        rw [tasksOf_snoc_ne hj]; exact h
    | test | shutdownTest => exact ownedAs_same _ _ (fun _ _ => ⟨rfl, rfl⟩) fun p => by split <;> rfl
    | exitTest =>
      refine ownedAs_same _ _ (fun _ p => ?_) fun p => by split <;> rfl
      unfold Pool.exitTest; split <;> exact ⟨rfl, rfl⟩
    | exiting | busyInc | busyDec | running => exact ownedAs_same _ _ (fun _ _ => ⟨rfl, rfl⟩) fun _ => rfl
    | exited => trivial
    | _ => exact fun i p h => h
  · cases pc with
    | test | shutdownTest => exact ownedAs_same _ _ (fun _ _ => ⟨rfl, rfl⟩) fun p => by split <;> rfl
    | put => exact ownedAs_same _ _ (fun _ _ => ⟨rfl, rfl⟩) fun _ => rfl
    | returned => trivial
    | _ => exact fun i p h => h
  · cases pc with
    | grow k add live busy =>
      intro i p x p' l' new h
      have hkeep : ∀ j (o o' : Option (Loc F A)), (o'.map Loc.pending).getD [] = (o.map Loc.pending).getD [] →
          InvokesTaken j o p → InvokesTaken j o' p' := by
        intro j o o' ho hI
        unfold InvokesTaken at hI ⊢
        rw [ho]
        rcases growStep_cases h with ⟨rfl, -, -⟩ | ⟨tid, -, -, -, -, -, -, rfl, -, -⟩ <;> exact hI
      refine ⟨hkeep i _ _ ?_, fun j o _ => hkeep j o o rfl, fun n hn j => invokesTaken_none ?_⟩
      · rcases growStep_cases h with ⟨-, -, rfl | rfl⟩ | ⟨tid, -, -, -, -, -, -, -, rfl, -⟩ <;> rfl
      · rcases growStep_cases h with ⟨-, rfl, -⟩ | ⟨tid, -, -, -, -, -, -, -, -, rfl⟩
        · cases hn
        · simp only [List.mem_singleton] at hn; subst hn; rfl
    | signal k =>
      simp only [code, adjustThread]
      split
      · exact fun i p h => h
      · exact ownedAs_same _ _ (fun _ _ => ⟨rfl, rfl⟩) fun _ => rfl
    | loop | growTest | shrinkTest => exact ownedAs_same _ _ (fun _ _ => ⟨rfl, rfl⟩) fun p => by split <;> rfl
    | sleep | read | readBusy | shrinkSet => exact ownedAs_same _ _ (fun _ _ => ⟨rfl, rfl⟩) fun _ => rfl
    | returned => trivial
    | _ => exact fun i p h => h
  · cases pc with
    | loop => exact ownedAs_same _ _ (fun _ _ => ⟨rfl, rfl⟩) fun p => by split <;> rfl
    | bcast | lockLock | lockCounter => exact fun i p h => h
    | returned => trivial
    | _ => exact ownedAs_same _ _ (fun _ _ => ⟨rfl, rfl⟩) fun _ => rfl
  · intro i p x p' l' new h
    obtain ⟨rfl, rfl, task, rfl⟩ := client_acts cfg i p x p' l' new h
    refine ⟨id, fun _ _ _ => id, fun n hn j => ?_⟩
    obtain rfl := List.mem_singleton.1 hn
    exact invokesTaken_none rfl

/-- In every reachable state each thread has invoked the tasks it took, each once and in order, but
for the one it is about to invoke. -/
theorem invokesTaken {cfg : Config} {s₀ s : PoolState F A} (h0 : Created cfg s₀)
    (h : Reach (step (code cfg)) s₀ s) (i : Nat) : InvokesTaken i s.locs[i]? s.shared := by
  refine (invokesOwning cfg).valid (fun i => ?_) h i
  obtain ⟨tids, others, garbage, -, -, -, rfl⟩ := h0.start
  have hlog : InvokesTaken i none (threadpoolCreate cfg tids others garbage).shared := rfl
  cases hl : (threadpoolCreate cfg tids others garbage).locs[i]? with
  | none => exact hlog
  | some l =>
    refine invokesTaken_none ?_ hlog
    rcases h0.mem_locs (List.mem_of_getElem? hl) with rfl | rfl | rfl | ⟨tid, rfl⟩ <;> rfl

/-! ## The queue -/

/-- The ring agrees with the tasks put in and taken out, in the order of the critical sections. -/
structure Fifo (cfg : Config) (p : Pool F A) : Prop where
  size : 0 ≤ p.queueSize ∧ p.queueSize ≤ cfg.queueMaxSize
  front : p.queueFront < cfg.queueMaxSize
  rear : p.queueRear < cfg.queueMaxSize
  rear_eq : (p.queueRear : Int) = (p.queueFront + p.queueSize) % cfg.queueMaxSize
  contents : p.taken.map (·.2) ++ (List.range p.queueSize.toNat).map
      (fun k => p.taskQueue ((p.queueFront + k) % cfg.queueMaxSize)) = p.added.map (·.2)

theorem Pool.Ring.fifo {cfg : Config} {p : Pool F A} (h : p.Ring cfg) : Fifo cfg p := by
  refine ⟨⟨h.nonneg, h.le⟩, h.front_lt, h.rear_lt, ?_, h.contents⟩
  have := h.nonneg
  rw [h.rear_eq]; push_cast
  rw [Int.toNat_of_nonneg this]

/-- The ring is a bounded FIFO queue in every reachable state; a worker takes a task only from a
nonempty queue, and has invoked exactly what it took, but for the task it is about to invoke. -/
theorem queue_refines_fifo (cfg : Config) (hq : 1 ≤ cfg.queueMaxSize) (s₀ s : PoolState F A)
    (h0 : Created cfg s₀) (h : Reach (step (code cfg)) s₀ s) :
    Fifo cfg s.shared ∧
    (∀ (i : Nat) tid, s.threads[i]? = some (.run (.worker tid .take)) → 0 < s.shared.queueSize) ∧
    ∀ i, tasksOf i s.shared.taken = tasksOf i s.shared.called ++ (s.locs[i]?.map Loc.pending).getD [] := by
  have hr := ringInv h0 h
  refine ⟨(hr.shared hq).fifo, fun i tid ht => ?_, fun i => invokesTaken h0 h i⟩
  have h1 : s.shared.queueSize ≠ 0 := hr.run i _ ht
  have h2 := (hr.shared hq).nonneg
  omega

/-- A pool of one worker, the worker being thread 3. -/
def onePool : PoolState Nat Nat := threadpoolCreate ⟨1, 1, 1⟩ [1] [] fun _ => ⟨0, none⟩

theorem onePool_created : Created ⟨1, 1, 1⟩ onePool :=
  ⟨⟨[1], [], fun _ => ⟨0, none⟩, rfl, by decide, by decide, rfl⟩⟩

/-- The same with two places in the queue. -/
def twoPlaces : PoolState Nat Nat := threadpoolCreate ⟨1, 1, 2⟩ [1] [] fun _ => ⟨0, none⟩

theorem twoPlaces_created : Created ⟨1, 1, 2⟩ twoPlaces :=
  ⟨⟨[1], [], fun _ => ⟨0, none⟩, rfl, by decide, by decide, rfl⟩⟩

/-- A call of `threadpool_add`, as thread `i`. -/
def addRun (i : Nat) (task : ThreadpoolTask Nat Nat) : List (Action (Outcome Nat Nat)) :=
  .exec 0 (.task task) [] :: List.replicate 6 (.exec i .none [])

/-- Two calls; the worker takes the first task and calls it; a third call goes into the place of the first. -/
def wrapRun : List (Action (Outcome Nat Nat)) :=
  addRun 4 ⟨7, some 5⟩ ++ addRun 5 ⟨8, none⟩ ++ List.replicate 10 (.exec 3 .none []) ++ addRun 6 ⟨9, some 6⟩

/-- The ring has come round; and after the worker's next two turns the tasks have been called in their order. -/
theorem queue_refines_fifo_wrapRun :
    let u := after (step (code ⟨1, 1, 2⟩)) twoPlaces wrapRun
    let s := after (step (code ⟨1, 1, 2⟩)) twoPlaces (wrapRun ++ List.replicate 21 (.exec 3 .none []))
    (u.shared.queueFront = 1 ∧ u.shared.queueRear = 1 ∧ u.shared.queueSize = 2 ∧
        (u.shared.taskQueue 0).function = 9 ∧ Fifo ⟨1, 1, 2⟩ u.shared) ∧
      s.threads[3]? = some (.run (.worker 1 .take)) ∧ 0 < s.shared.queueSize ∧
      s.shared.called = [(3, ⟨7, some 5⟩), (3, ⟨8, none⟩)] ∧ Fifo ⟨1, 1, 2⟩ s.shared ∧
      ∀ i, tasksOf i s.shared.taken = tasksOf i s.shared.called ++ (s.locs[i]?.map Loc.pending).getD [] := by
  have h₁ := queue_refines_fifo ⟨1, 1, 2⟩ (by decide) twoPlaces _ twoPlaces_created (reach_after twoPlaces wrapRun)
  have h₂ := queue_refines_fifo ⟨1, 1, 2⟩ (by decide) twoPlaces _ twoPlaces_created
    (reach_after twoPlaces (wrapRun ++ List.replicate 21 (.exec 3 .none [])))
  have htake : (after (step (code ⟨1, 1, 2⟩)) twoPlaces (wrapRun ++ List.replicate 21 (.exec 3 .none []))).threads[3]? =
      some (.run (.worker 1 .take)) := by rfl
  exact ⟨⟨by decide +kernel, by decide +kernel, by decide +kernel, by decide +kernel, h₁.1⟩,
    htake, h₂.2.1 3 1 htake, by decide +kernel, h₂.1, h₂.2.2⟩

end LinuxProgram.Threadpool
