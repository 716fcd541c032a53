/-
The job ring of the server while its counters stay below `2 ^ 31`: between `job_pop` and `job_push`
the ring is a queue, `addtask` appends to it and `thrRun` takes its first task. The server never calls
`destroy_threadpool`, so that no worker leaves.
-/
import LinuxProgram.Simple.Server
import LinuxProgram.Simple.Ring
import LinuxProgram.Machine.Tally

namespace LinuxProgram.Simple

open LinuxProgram.Machine LinuxProgram.Data

/-- The counters of the ring, before any of them wraps. -/
structure Pool.Jobs {G : Type} (cfg : Config) (p : Pool G) : Prop where
  pop_nonneg : 0 ≤ p.jobPop
  nonneg : 0 ≤ p.jobNum
  le : p.jobNum ≤ cfg.maxJobNum
  push_eq : p.jobPush = p.jobPop + p.jobNum
  push_lt : p.jobPush < 2 ^ 31

variable {cfg : Config} {p : Pool (Option Nat)}

theorem Pool.Jobs.queued_eq (h : p.Jobs cfg) :
    p.queued cfg = window (fun k : Nat => p.tasks k) cfg.maxJobNum p.jobPop.toNat p.jobNum.toNat := by
  unfold Pool.queued window
  apply List.map_congr_left
  intro k _
  have h0 := h.pop_nonneg
  rw [show p.jobPop + (k : Int) = ((p.jobPop.toNat + k : Nat) : Int) by omega, tmod_natCast]

/-- `addtask` appends its task. -/
theorem Pool.Jobs.put (h : p.Jobs cfg) (hlt : p.jobNum < cfg.maxJobNum) (hpush : p.jobPush + 1 < 2 ^ 31) (fd evs : Nat)
    (note : Option Nat) : (p.put cfg fd evs note).Jobs cfg ∧
      ∃ t : Task, t.fd = fd ∧ t.note = note ∧ (p.put cfg fd evs note).queued cfg = p.queued cfg ++ [t] := by
  obtain ⟨h0, h1, h2, h3, h4⟩ := h
  have hw : wrap32 (p.jobPush + 1) = p.jobPush + 1 := wrap32_eq (by omega) hpush
  have hJ : (p.put cfg fd evs note).Jobs cfg := by
    refine ⟨h0, ?_, ?_, ?_, ?_⟩ <;> simp only [Pool.put, hw] <;> omega
  refine ⟨hJ, ?_⟩
  let t : Task :=
    ⟨p.num, .slot (p.jobPush.tmod cfg.maxJobNum), fd, (p.tasks (p.jobPush.tmod cfg.maxJobNum)).epfd, evs, note⟩
  refine ⟨t, rfl, rfl, ?_⟩
  have hpos : p.jobPush.tmod cfg.maxJobNum = (((p.jobPop.toNat + p.jobNum.toNat) % cfg.maxJobNum : Nat) : Int) := by
    rw [show p.jobPush = ((p.jobPop.toNat + p.jobNum.toNat : Nat) : Int) by omega, tmod_natCast]
  have htasks : (fun k : Nat => (p.put cfg fd evs note).tasks k) =
      Function.update (fun k : Nat => p.tasks k) ((p.jobPop.toNat + p.jobNum.toNat) % cfg.maxJobNum) t := by
    funext k
    show Function.update p.tasks (p.jobPush.tmod cfg.maxJobNum) t k = _
    rw [hpos]
    by_cases hk : k = (p.jobPop.toNat + p.jobNum.toNat) % cfg.maxJobNum
    · rw [hk, Function.update_self, Function.update_self]
    · rw [Function.update_of_ne (by exact_mod_cast hk), Function.update_of_ne hk]
  rw [hJ.queued_eq, Pool.Jobs.queued_eq ⟨h0, h1, h2, h3, h4⟩, htasks,
    show (p.put cfg fd evs note).jobPop = p.jobPop from rfl,
    show (p.put cfg fd evs note).jobNum.toNat = p.jobNum.toNat + 1 by simp only [Pool.put]; omega]
  exact window_push (by omega) t

/-- `thrRun` takes the first task. -/
theorem Pool.Jobs.take (h : p.Jobs cfg) (hne : p.jobNum ≠ 0) (i : Nat) : (p.take cfg i).Jobs cfg ∧
    ∃ t, (p.front cfg).fd = t.fd ∧ (p.front cfg).note = t.note ∧ p.queued cfg = t :: (p.take cfg i).queued cfg := by
  obtain ⟨h0, h1, h2, h3, h4⟩ := h
  have hw : wrap32 (p.jobPop + 1) = p.jobPop + 1 := wrap32_eq (by omega) (by omega)
  have hJ : (p.take cfg i).Jobs cfg := by
    refine ⟨?_, ?_, ?_, ?_, h4⟩ <;> simp only [Pool.take, hw] <;> omega
  refine ⟨hJ, p.tasks (p.jobPop.tmod cfg.maxJobNum), rfl, rfl, ?_⟩
  obtain ⟨n, hn⟩ : ∃ n : Nat, p.jobNum.toNat = n + 1 := ⟨p.jobNum.toNat - 1, by omega⟩
  rw [hJ.queued_eq, Pool.Jobs.queued_eq ⟨h0, h1, h2, h3, h4⟩, hn, window_pop,
    show (p.take cfg i).jobPop.toNat = p.jobPop.toNat + 1 by simp only [Pool.take, hw]; omega,
    show (p.take cfg i).jobNum.toNat = n by simp only [Pool.take]; omega]
  refine congrArg (· :: _) ?_
  show p.tasks (((p.jobPop.toNat % cfg.maxJobNum : Nat)) : Int) = _
  rw [← tmod_natCast, Int.toNat_of_nonneg h0]

/-- The ring of fewer than `2 ^ 31` tasks. -/
theorem Pool.Ring.jobs (h : p.Ring cfg) (hlt : p.added.length < 2 ^ 31) :
    p.Jobs cfg ∧ p.jobPush = p.added.length := by
  have hnum := h.num_eq
  have hnonneg := h.nonneg
  have hpop : p.jobPop = p.taken.length := by rw [h.pop_eq, wrap32_eq (by omega) (by omega)]
  have hpush : p.jobPush = p.added.length := by rw [h.push_eq, wrap32_eq (by omega) (by omega)]
  refine ⟨⟨?_, hnonneg, h.le, ?_, ?_⟩, hpush⟩ <;> omega

/-! ## The server and its pool -/

/-- The history of the tasks added only grows. -/
theorem added_acts {E X K R G : Type} (cfg : Config) (w : World E X K R G) (l : Loc K R G) :
    (code cfg w l).Acts fun _ s s' _ _ => s.pool.added.length ≤ s'.pool.added.length := by
  rcases l with ⟨task, pc⟩ | ⟨task, r⟩ | ⟨fd, evs, next, pc⟩ | k | pc
  · cases pc with
    | jobTest =>
      refine acts_update _ _ fun i s => ?_
      dsimp only
      split <;> exact Nat.le_refl _
    | test | shutdownTest | exit | call => exact acts_update _ _ fun _ _ => Nat.le_refl _
    | _ => trivial
  · simp only [code]
    split
    · intro i s x s' l' new h
      obtain ⟨e, -, he⟩ := Option.map_eq_some_iff.1 h
      cases he
      exact Nat.le_refl _
    · exact acts_update _ _ fun _ _ => Nat.le_refl _
  · cases pc with
    | test =>
      refine acts_update _ _ fun i s => ?_
      split
      · exact Nat.le_refl _
      · simp only [Pool.put, List.length_append]
        exact Nat.le_add_right _ _
    | _ => trivial
  · simp only [code]
    split
    · exact acts_update _ _ fun _ _ => Nat.le_refl _
    · intro i s x s' l' new h
      obtain ⟨e, -, he⟩ := Option.map_eq_some_iff.1 h
      cases he
      exact Nat.le_refl _
    · trivial
  · cases pc with
    | broadcast | returned => trivial
    | _ => exact acts_update _ _ fun _ _ => Nat.le_refl _

/-- No thread is in `destroy_threadpool`, and no worker has seen the flag. -/
def Loc.stays : ServerLoc → Bool
  | .destroy _ => false
  | .worker _ .exitUnlock | .worker _ .exit | .worker _ .exited => false
  | _ => true

/-- A statement that leaves the flag alone. -/
theorem outlined_open {l : ServerLoc} (f : Nat → Sys Kernel (Option Nat) → Sys Kernel (Option Nat))
    (next : Sys Kernel (Option Nat) → ServerLoc) (hf : ∀ i s, (f i s).pool.shutdown = s.pool.shutdown)
    (hn : ∀ s, s.pool.shutdown = false → (next s).stays = true) :
    (Instr.update f next : SimpleInstr Kernel Event ServerPc TaskPc (Option Nat)).Outlined Loc.holds
      (fun s => s.pool.shutdown = false) (fun _ l _ => l.stays = true) l :=
  outlined_update _ _ (fun i s hG _ => ⟨(hf i s).trans hG, hn s hG⟩) fun _ _ _ _ _ _ _ _ h => h

theorem openOutline (cfg : Config) : ProofOutline (code cfg serverWorld) Loc.holds (fun s => s.pool.shutdown = false)
    fun _ l _ => l.stays = true := by
  rintro (⟨task, pc⟩ | ⟨task, r⟩ | ⟨fd, evs, next, pc⟩ | k | pc)
  · cases pc with
    | test =>
      refine outlined_open _ _ (fun _ _ => rfl) fun s _ => ?_
      split <;> rfl
    | jobTest =>
      refine outlined_open _ _ (fun _ s => ?_) fun s _ => ?_
      · dsimp only
        split <;> rfl
      · dsimp only
        split <;> rfl
    | shutdownTest =>
      refine outlined_open _ _ (fun _ _ => rfl) fun s hs => ?_
      simp only [hs, Bool.false_eq_true, if_false]
      rfl
    | exitUnlock => exact fun _ _ _ h => h
    | exit => exact outlined_update _ _ (fun _ _ _ h => absurd h Bool.false_ne_true) fun _ _ _ _ _ _ _ _ h => h
    | exited => trivial
    | condWait => exact fun _ _ _ => rfl
    | call => exact outlined_open _ _ (fun _ _ => rfl) fun _ _ => rfl
    | _ => exact fun _ _ _ _ => rfl
  · simp only [code]
    split
    · intro i s x s' l' new h hG _
      obtain ⟨e, -, he⟩ := Option.map_eq_some_iff.1 h
      cases he
      exact ⟨⟨hG, rfl, by simp⟩, fun _ _ _ _ hA => hA⟩
    · exact outlined_open _ _ (fun _ _ => rfl) fun _ _ => rfl
  · cases pc with
    | test =>
      refine outlined_open _ _ (fun _ s => ?_) fun s _ => ?_
      · split <;> rfl
      · split <;> rfl
    | condWait => exact fun _ _ _ => rfl
    | _ => exact fun _ _ _ _ => rfl
  · simp only [code]
    split
    · exact outlined_open _ _ (fun _ _ => rfl) fun _ _ => rfl
    · intro i s x s' l' new h hG _
      obtain ⟨e, -, he⟩ := Option.map_eq_some_iff.1 h
      cases he
      refine ⟨⟨hG, rfl, fun n hn j => ?_⟩, fun _ _ _ _ hA => hA⟩
      obtain ⟨k', -, rfl⟩ := List.mem_map.1 hn
      rfl
    · trivial
  · cases pc with
    | broadcast => exact fun _ _ _ hA => hA
    | returned => trivial
    | _ => exact outlined_update _ _ (fun _ _ _ h => absurd h Bool.false_ne_true) fun _ _ _ _ _ _ _ _ h => h

section Server

variable {s₀ s s' : ServerState} {a : Action Event}

theorem added_le (h : step (code cfg serverWorld) s a = some s') :
    s.shared.pool.added.length ≤ s'.shared.pool.added.length := by
  rcases step_shared h with e | ⟨i, x, ws, l, f, l', new, rfl, ht, hc, hf, -⟩
  · rw [e]
  · exact (added_acts cfg serverWorld l).of hc hf

theorem Started.threads (h : Started cfg s₀) {t : Thread Mutex Cond ServerLoc} (ht : t ∈ s₀.threads) :
    (∃ k, t = .run (.caller k)) ∨ ∃ task, t = .run (.worker task .lock) := by
  obtain ⟨tasks, copies, conns, -, rfl⟩ := h.start
  simp only [createThreadpool, List.map_cons, List.map_nil, List.mem_append, List.mem_cons, List.not_mem_nil, or_false,
    List.mem_map] at ht
  rcases ht with (rfl | rfl) | ⟨task, -, rfl⟩
  · exact .inl ⟨_, rfl⟩
  · exact .inl ⟨_, rfl⟩
  · exact .inr ⟨task, rfl⟩

theorem Started.mutexInv (h0 : Started cfg s₀) (h : Reach (step (code cfg serverWorld)) s₀ s) :
    MutexInv (code cfg serverWorld) Loc.holds s := by
  obtain ⟨tasks, copies, conns, -, rfl⟩ := h0.start
  exact Simple.mutexInv (by simp [Loc.holds]) h

/-- The flag is never set, and no worker leaves. -/
theorem openInv (h0 : Started cfg s₀) (h : Reach (step (code cfg serverWorld)) s₀ s) :
    OutlineInv (fun s => s.pool.shutdown = false) (fun _ (l : ServerLoc) _ => l.stays = true) s := by
  refine (openOutline cfg).valid (locking cfg serverWorld) (h0.mutexInv (Reach.refl _)) ⟨?_, fun i l hl => ?_⟩ h
  · obtain ⟨tasks, copies, conns, -, rfl⟩ := h0.start
    rfl
  · rcases h0.threads (List.mem_of_getElem? hl) with ⟨k, e⟩ | ⟨task, e⟩ <;> cases e <;> rfl

/-- The ring, and what a worker has found, in every reachable state of the server. -/
theorem serverRing (h0 : Started cfg s₀) (h : Reach (step (code cfg serverWorld)) s₀ s) :
    OutlineInv (fun s => s.pool.Ring cfg) (fun _ (l : ServerLoc) => l.found cfg) s := by
  refine (foundOutline cfg serverWorld).valid (locking cfg serverWorld) (h0.mutexInv (Reach.refl _))
    ⟨?_, fun i l hl => ?_⟩ h
  · obtain ⟨tasks, copies, conns, -, rfl⟩ := h0.start
    exact Pool.ring_empty rfl rfl rfl rfl rfl rfl
  · rcases h0.threads (List.mem_of_getElem? hl) with ⟨k, e⟩ | ⟨task, e⟩ <;> cases e <;> trivial

end Server

end LinuxProgram.Simple
