/-
The job ring of the simple pool, whatever programs call `addtask` and whatever the callback does.
The counters `job_push` and `job_pop` count the tasks added and taken, wrapped to 32 bits; the ring
holds the tasks in between. Below `2 ^ 31` tasks it is a FIFO queue. Beyond, the C remainder of a
counter that has become negative is no slot of the ring.
-/
import LinuxProgram.Simple.Locks
import LinuxProgram.Data.Ring

namespace LinuxProgram.Simple

open LinuxProgram.Machine LinuxProgram.Data

variable {E X K R G : Type}

/-! ## Any programs -/

/-- The states in which `create_threadpool` can return, with any programs that call `addtask` and a
call of `destroy_threadpool` that has not begun. -/
structure Begun (cfg : Config) (s : SimpleState E K R G) : Prop where
  start : ∃ tasks copies env, ∃ callers : List K, copies.length = cfg.thrNum ∧
    s = createThreadpool tasks copies env (.destroy .store :: callers.map .caller)

theorem Begun.threads {cfg : Config} {s : SimpleState E K R G} (h : Begun cfg s) {t : Thread Mutex Cond (Loc K R G)}
    (ht : t ∈ s.threads) :
    t = .run (.destroy .store) ∨ (∃ k, t = .run (.caller k)) ∨ ∃ task, t = .run (.worker task .lock) := by
  obtain ⟨tasks, copies, env, callers, -, rfl⟩ := h.start
  simp only [createThreadpool, List.mem_append, List.mem_map, List.mem_cons] at ht
  rcases ht with ⟨l, rfl | ⟨k, -, rfl⟩, rfl⟩ | ⟨task, -, rfl⟩
  · exact .inl rfl
  · exact .inr (.inl ⟨k, rfl⟩)
  · exact .inr (.inr ⟨task, rfl⟩)

theorem Begun.mutexInv {cfg : Config} {w : World E X K R G} {s₀ s : SimpleState E K R G} (h0 : Begun cfg s₀)
    (h : Reach (step (code cfg w)) s₀ s) : MutexInv (code cfg w) Loc.holds s := by
  obtain ⟨tasks, copies, env, callers, -, rfl⟩ := h0.start
  refine Simple.mutexInv (fun l hl m => ?_) h
  rcases List.mem_cons.1 hl with rfl | hl
  · rfl
  · obtain ⟨k, -, rfl⟩ := List.mem_map.1 hl
    rfl

/-! ## The ring and its history -/

/-- The arguments of an `addtask` call and the number it gave its task. -/
def PoolTask.job (t : PoolTask G) : Int × Nat × Nat := (t.tasknum, t.fd, t.evs)

/-- The counters, the slots and the contents of the ring agree with the tasks added and taken. -/
structure Pool.Ring (cfg : Config) (p : Pool G) : Prop where
  num_eq : p.jobNum = p.added.length - p.taken.length
  nonneg : 0 ≤ p.jobNum
  le : p.jobNum ≤ cfg.maxJobNum
  push_eq : p.jobPush = wrap32 p.added.length
  pop_eq : p.jobPop = wrap32 p.taken.length
  tasknum_eq : p.num = wrap32 p.added.length
  filled : ∀ (k : Nat) t, p.added[k]? = some t → t.tasknum = wrap32 k ∧ t.arg = .slot ((wrap32 k).tmod cfg.maxJobNum)
  contents : p.added.length < 2 ^ 31 → p.taken.map (·.2.job) ++
    (window (fun k : Nat => p.tasks k) cfg.maxJobNum p.taken.length p.jobNum.toNat).map PoolTask.job =
    p.added.map PoolTask.job

/-- The slot of the `k`-th task, while the counters have not wrapped. -/
theorem slot_eq {k : Nat} (h : k < 2 ^ 31) (cap : Nat) : (wrap32 k).tmod cap = ((k % cap : Nat) : Int) := by
  rw [wrap32_eq (by omega) (by omega), tmod_natCast]

/-- The task that `addtask` stores. -/
def Pool.newTask (cfg : Config) (fd evs : Nat) (note : G) (p : Pool G) : PoolTask G where
  tasknum := p.num
  arg := .slot (p.jobPush.tmod cfg.maxJobNum)
  fd := fd
  epfd := (p.tasks (p.jobPush.tmod cfg.maxJobNum)).epfd
  evs := evs
  note := note

theorem Pool.put_eq (cfg : Config) (fd evs : Nat) (note : G) (p : Pool G) : p.put cfg fd evs note = { p with
    jobPush := wrap32 (p.jobPush + 1)
    num := wrap32 (p.num + 1)
    tasks := Function.update p.tasks (p.jobPush.tmod cfg.maxJobNum) (p.newTask cfg fd evs note)
    jobNum := p.jobNum + 1
    added := p.added ++ [p.newTask cfg fd evs note] } := rfl

/-- A slot that is updated, seen through the positions of the ring. -/
theorem update_slot {tasks : Int → PoolTask G} {pos : Int} {n : Nat} (h : pos = n) (t : PoolTask G) :
    (fun k : Nat => Function.update tasks pos t k) = Function.update (fun k : Nat => tasks k) n t := by
  funext k
  by_cases hk : k = n
  · rw [hk, h, Function.update_self, Function.update_self]
  · rw [Function.update_of_ne hk, Function.update_of_ne (by omega)]

theorem Pool.Ring.put {cfg : Config} {p : Pool G} (h : p.Ring cfg) (hlt : p.jobNum < cfg.maxJobNum) (fd evs : Nat)
    (note : G) : (p.put cfg fd evs note).Ring cfg := by
  obtain ⟨h1, h2, h3, h4, h5, h6, h7, h8⟩ := h
  rw [Pool.put_eq]
  constructor
  · show p.jobNum + 1 = ((p.added ++ [p.newTask cfg fd evs note]).length : Nat) - p.taken.length
    rw [List.length_append, List.length_singleton]
    omega
  · show 0 ≤ p.jobNum + 1
    omega
  · show p.jobNum + 1 ≤ cfg.maxJobNum
    omega
  · rw [List.length_append, List.length_singleton, h4, wrap32_succ, Nat.cast_succ]
  · exact h5
  · rw [List.length_append, List.length_singleton, h6, wrap32_succ, Nat.cast_succ]
  · intro k t ht
    rw [List.getElem?_append, List.getElem?_singleton] at ht
    split at ht
    · exact h7 k t ht
    · split at ht
      · cases ht
        obtain rfl : k = p.added.length := by omega
        exact ⟨h6, by rw [Pool.newTask, h4]⟩
      · cases ht
  · intro hbound
    rw [List.length_append, List.length_singleton] at hbound
    have hpos : p.jobPush.tmod cfg.maxJobNum = (((p.taken.length + p.jobNum.toNat) % cfg.maxJobNum : Nat) : Int) := by
      rw [h4, slot_eq (by omega), show p.added.length = p.taken.length + p.jobNum.toNat by omega]
    have hnum : (p.jobNum + 1).toNat = p.jobNum.toNat + 1 := by omega
    have hroom : p.jobNum.toNat < cfg.maxJobNum := by omega
    have hc := h8 (by omega)
    simp only [hnum]
    rw [update_slot hpos, window_push hroom, List.map_append, ← List.append_assoc, hc, List.map_append]

theorem Pool.Ring.take {cfg : Config} {p : Pool G} (h : p.Ring cfg) (hne : p.jobNum ≠ 0) (i : Nat) :
    (p.take cfg i).Ring cfg := by
  obtain ⟨h1, h2, h3, h4, h5, h6, h7, h8⟩ := h
  unfold Pool.take
  constructor
  · show p.jobNum - 1 = p.added.length - ((p.taken ++ [(i, p.front cfg)]).length : Nat)
    rw [List.length_append, List.length_singleton]
    omega
  · show 0 ≤ p.jobNum - 1
    omega
  · show p.jobNum - 1 ≤ cfg.maxJobNum
    omega
  · exact h4
  · rw [List.length_append, List.length_singleton, h5, wrap32_succ, Nat.cast_succ]
  · exact h6
  · exact h7
  · intro hbound
    obtain ⟨n, hn⟩ : ∃ n : Nat, p.jobNum.toNat = n + 1 := ⟨p.jobNum.toNat - 1, by omega⟩
    have hc := h8 hbound
    rw [hn, window_pop, List.map_cons] at hc
    have hfront : (p.front cfg).job = (p.tasks ((p.taken.length % cfg.maxJobNum : Nat) : Int)).job := by
      have hadded : p.added.length < 2 ^ 31 := hbound
      rw [← slot_eq (by omega), ← h5]
      rfl
    have hnum : (p.jobNum - 1).toNat = n := by omega
    simp only [hnum]
    rw [List.length_append, List.length_singleton, List.map_append, List.append_assoc, List.map_singleton,
      List.singleton_append, hfront]
    exact hc

/-- The ring of a new pool. -/
theorem Pool.ring_empty {cfg : Config} {p : Pool G} (h1 : p.jobNum = 0) (h2 : p.jobPush = 0) (h3 : p.jobPop = 0)
    (h4 : p.num = 0) (h5 : p.added = []) (h6 : p.taken = []) : p.Ring cfg := by
  constructor
  · rw [h1, h5, h6]; rfl
  · rw [h1]
  · rw [h1]; exact Int.natCast_nonneg _
  · rw [h2, h5]; exact wrap32_zero.symm
  · rw [h3, h6]; exact wrap32_zero.symm
  · rw [h4, h5]; exact wrap32_zero.symm
  · intro k t ht
    rw [h5] at ht
    cases ht
  · rw [h1, h5, h6]
    exact fun _ => rfl

/-- A statement that leaves the counters, the slots and the history of the ring alone. -/
structure Pool.SameRing (p p' : Pool G) : Prop where
  num : p'.jobNum = p.jobNum
  push : p'.jobPush = p.jobPush
  pop : p'.jobPop = p.jobPop
  tasknum : p'.num = p.num
  tasks : p'.tasks = p.tasks
  added : p'.added = p.added
  taken : p'.taken = p.taken
  shutdown : p.shutdown = true → p'.shutdown = true

theorem sameRing_refl (p : Pool G) : p.SameRing p := ⟨rfl, rfl, rfl, rfl, rfl, rfl, rfl, id⟩

theorem Pool.Ring.same {cfg : Config} {p p' : Pool G} (h : p.Ring cfg) (hs : p.SameRing p') : p'.Ring cfg := by
  obtain ⟨e1, e2, e3, e4, e5, e6, e7, -⟩ := hs
  obtain ⟨h1, h2, h3, h4, h5, h6, h7, h8⟩ := h
  constructor
  · rw [e1, e6, e7]; exact h1
  · rw [e1]; exact h2
  · rw [e1]; exact h3
  · rw [e2, e6]; exact h4
  · rw [e3, e7]; exact h5
  · rw [e4, e6]; exact h6
  · rw [e6]; exact h7
  · rw [e1, e5, e6, e7]; exact h8

/-! ## The outline -/

/-- What a thread has found between its test and the statement that relies on it. -/
def Loc.found (cfg : Config) : Loc K R G → Sys E G → Prop
  | .worker _ .condWait, s => s.pool.jobNum ≤ 0
  | .worker _ .jobTest, s => s.pool.jobNum ≠ 0 ∨ s.pool.shutdown = true
  | .add _ _ _ .condWait, s => cfg.maxJobNum ≤ s.pool.jobNum
  | _, _ => True

theorem Loc.found_same {cfg : Config} {s s' : Sys E G} (h : s.pool.SameRing s'.pool) {l : Loc K R G}
    (hl : l.found cfg s) : l.found cfg s' := by
  have hnum := h.num
  have hsd := h.shutdown
  revert hl
  unfold Loc.found
  split <;> first | exact id | (rw [hnum]; tauto)

theorem Loc.found_env {cfg : Config} {s : Sys E G} {l : Loc K R G} (hl : l.found cfg s) (e : E) :
    l.found cfg { s with env := e } := by
  refine Loc.found_same ?_ hl
  exact sameRing_refl _

/-- What was found only matters with the lock held. -/
theorem Loc.found_of_not_held {cfg : Config} {l : Loc K R G} (h : l.holds .poolLock = false) (s : Sys E G) :
    l.found cfg s := by
  unfold Loc.found
  split
  · cases h
  · cases h
  · cases h
  · trivial

theorem found_outlined_same {cfg : Config} {l : Loc K R G} (f : Nat → Sys E G → Sys E G) (next : Sys E G → Loc K R G)
    (hf : ∀ i (s : Sys E G), s.pool.SameRing (f i s).pool) (hn : ∀ i s, l.found cfg s → (next s).found cfg (f i s)) :
    (Instr.update f next : SimpleInstr E X K R G).Outlined Loc.holds (fun s => s.pool.Ring cfg)
      (fun _ l => l.found cfg) l :=
  outlined_update _ _ (fun i s hG hA => ⟨hG.same (hf i s), hn i s hA⟩) fun i s _ _ _ _ _ _ => Loc.found_same (hf i s)

/-- The statements of the pool respect the ring and what was found. -/
theorem foundOutline (cfg : Config) (w : World E X K R G) :
    ProofOutline (code cfg w) Loc.holds (fun s => s.pool.Ring cfg) (fun _ l => l.found cfg) := by
  rintro (⟨task, pc⟩ | ⟨task, r⟩ | ⟨fd, evs, next, pc⟩ | k | pc)
  · cases pc with
    | test =>
      refine outlined_branch _ (fun i s _ _ hb => ?_) fun i s _ _ hb => ?_
      · rw [Bool.and_eq_true, decide_eq_true_eq] at hb
        exact hb.1
      · simp only [Bool.and_eq_false_iff, decide_eq_false_iff_not, Bool.not_eq_false'] at hb
        rcases hb with hb | hb
        · exact .inl (by omega)
        · exact .inr hb
    | jobTest =>
      refine outlined_update _ _ (fun i s hG _ => ⟨?_, ?_⟩) fun i s _ _ j l' _ hdisj _ => ?_
      · show (if s.pool.jobNum ≠ 0 then s.pool.take cfg i else s.pool).Ring cfg
        split
        · rename_i hne
          exact hG.take hne i
        · exact hG
      · dsimp only
        split <;> trivial
      · exact Loc.found_of_not_held (hdisj .poolLock rfl) _
    | shutdownTest => exact outlined_branch _ (fun _ _ _ _ _ => trivial) fun _ _ _ _ _ => trivial
    | exit => exact found_outlined_same _ _ (fun _ s => sameRing_refl _) fun _ _ _ => trivial
    | call => exact found_outlined_same _ _ (fun _ s => ⟨rfl, rfl, rfl, rfl, rfl, rfl, rfl, id⟩) fun _ _ _ => trivial
    | exited => trivial
    | condWait => exact fun _ _ _ => trivial
    | _ => exact fun _ _ _ _ => trivial
  · simp only [code]
    split
    · intro i s x s' l' new h hG _
      obtain ⟨e, -, he⟩ := Option.map_eq_some_iff.1 h
      cases he
      exact ⟨⟨hG, trivial, by simp⟩, fun j l₂ _ _ hA => Loc.found_env hA e.1⟩
    · exact found_outlined_same _ _ (fun _ s => sameRing_refl _) fun _ _ _ => trivial
  · cases pc with
    | test =>
      refine outlined_update _ _ (fun i s hG _ => ?_) fun i s _ _ j l' _ hdisj _ => ?_
      · split
        · rename_i hge
          exact ⟨hG, hge⟩
        · rename_i hlt
          exact ⟨hG.put (by omega) _ _ _, trivial⟩
      · exact Loc.found_of_not_held (hdisj .poolLock rfl) _
    | condWait => exact fun _ _ _ => trivial
    | _ => exact fun _ _ _ _ => trivial
  · simp only [code]
    split
    · exact found_outlined_same _ _ (fun _ s => sameRing_refl _) fun _ _ _ => trivial
    · intro i s x s' l' new h hG _
      obtain ⟨e, -, he⟩ := Option.map_eq_some_iff.1 h
      cases he
      refine ⟨⟨hG, trivial, fun n hn j => ?_⟩, fun j l₂ _ _ hA => Loc.found_env hA e.1⟩
      obtain ⟨k', -, rfl⟩ := List.mem_map.1 hn
      trivial
    · trivial
  · cases pc with
    | store =>
      exact found_outlined_same _ _ (fun _ s => ⟨rfl, rfl, rfl, rfl, rfl, rfl, rfl, fun _ => rfl⟩) fun _ _ _ => trivial
    | broadcast => exact fun _ _ _ _ => trivial
    | returned => trivial
    | _ => exact found_outlined_same _ _ (fun _ s => ⟨rfl, rfl, rfl, rfl, rfl, rfl, rfl, id⟩) fun _ _ _ => trivial

/-- The ring and what was found, in every reachable state. -/
theorem foundInv {cfg : Config} {w : World E X K R G} {s₀ s : SimpleState E K R G} (h0 : Begun cfg s₀)
    (h : Reach (step (code cfg w)) s₀ s) : OutlineInv (fun s => s.pool.Ring cfg) (fun _ l => l.found cfg) s := by
  refine (foundOutline cfg w).valid (locking cfg w) (h0.mutexInv (Reach.refl _)) ⟨?_, fun i l hl => ?_⟩ h
  · obtain ⟨tasks, copies, env, callers, -, rfl⟩ := h0.start
    exact Pool.ring_empty rfl rfl rfl rfl rfl rfl
  · rcases h0.threads (List.mem_of_getElem? hl) with e | ⟨k, e⟩ | ⟨task, e⟩ <;> cases e <;> trivial

end LinuxProgram.Simple
