/-
Which threads `threadpool_destroy` strands. It stores the flag without the lock and broadcasts
`queue_not_empty` only. So it strands nobody exactly if, when the flag is stored, no producer is
blocked on `queue_not_full` and no thread has tested the old flag and is about to wait.
-/
import LinuxProgram.Threadpool.Wakeup

namespace LinuxProgram.Threadpool

open LinuxProgram.Machine

variable {F A : Type}

/-! ## The property -/

/-- `threadpool_destroy` has left its loop of broadcasts. -/
def Loc.pastLoop : Loc F A → Bool
  | .destroy .store | .destroy (.loop _) | .destroy (.bcast _) => false
  | .destroy _ => true
  | _ => false

/-- After the loop of broadcasts no thread is blocked un-woken. -/
def StrandsNobody (s : PoolState F A) : Prop :=
  (∃ t ∈ s.threads, t.loc.pastLoop = true) → ∀ t ∈ s.threads, t.isBlocked = false

/-- Between the test of a wait loop and its `pthread_cond_wait`. -/
def Loc.waits : Loc F A → Bool
  | .worker _ .condWait | .add _ .condWait => true
  | _ => false

def aboutToWait : Thread Mutex Cond (Loc F A) → Bool
  | .run l => l.waits
  | _ => false

/-- A thread the broadcasts after the store do reach. -/
def Reached (t : Thread Mutex Cond (Loc F A)) : Prop := t.blockedOn .queueNotFull = false ∧ aboutToWait t = false

/-- When the flag is stored no thread is blocked on `queue_not_full` and none is about to wait. -/
def StoresSafely (s : PoolState F A) : Action (Outcome F A) → Prop
  | .exec i _ _ => s.threads[i]? = some (.run (.destroy .store)) → ∀ t ∈ s.threads, Reached t
  | .spurious _ => True

instance (s : PoolState F A) : Decidable (StrandsNobody s) := by unfold StrandsNobody; infer_instance

/-! ## What a statement does to the flag -/

/-- After its store the call of `threadpool_destroy` finds the flag set. -/
def Loc.stored : Loc F A → Pool F A → Prop
  | .destroy .store, _ => True
  | .destroy _, p => p.shutdown = true
  | _, _ => True

theorem Loc.stored_mono {l : Loc F A} {p p' : Pool F A} (hs : p.shutdown = true → p'.shutdown = true) (h : l.stored p) :
    l.stored p' := by
  unfold Loc.stored at h ⊢
  split at h
  · trivial
  · exact hs h
  · trivial

/-- `threadpool_destroy` has sent a broadcast or left its loop. -/
def Loc.swept : Loc F A → Bool
  | .destroy .store | .destroy (.loop 0) | .destroy (.bcast 0) => false
  | .destroy _ => true
  | _ => false

/-- The effect of a statement on the shared data: the flag is only set, by the store; no thread
goes on to wait when it is set; the loop is left without a broadcast only if nobody is live. -/
structure Flagged (l : Loc F A) (p p' : Pool F A) (l' : Loc F A) (new : List (Loc F A)) : Prop where
  mono : p.shutdown = true → p'.shutdown = true
  set : p'.shutdown = true → p.shutdown = true ∨ l = .destroy .store
  stored : l.stored p → l'.stored p'
  waits : l'.waits = true → p'.shutdown = false
  swept : l'.swept = true → l.swept = true ∨ l = .destroy (.loop 0) ∧ p.liveThrNum ≤ 0
  new : ∀ n ∈ new, n.waits = false ∧ n.stored p' ∧ n.swept = false

/-- A statement of a thread other than the call of `threadpool_destroy`. -/
theorem Flagged.other {l l' : Loc F A} {p p' : Pool F A} (hs : p'.shutdown = p.shutdown)
    (hl' : l'.stored p') (hsw : l'.swept = false) (hw : l'.waits = true → p'.shutdown = false) :
    Flagged l p p' l' [] :=
  ⟨fun h => by rw [hs, h], fun h => .inl (by rw [← hs, h]), fun _ => hl', hw, fun h => by (rw [hsw] at h; cases h),
    fun _ h => (by cases h)⟩

/-- A statement of `threadpool_free`. -/
theorem Flagged.free {pc pc' : DestroyPc} {p p' : Pool F A} (hs : p'.shutdown = p.shutdown)
    (h : (Loc.destroy pc : Loc F A).stored p = (p.shutdown = true))
    (h' : (Loc.destroy pc' : Loc F A).stored p' = (p'.shutdown = true))
    (hsw : (Loc.destroy pc : Loc F A).swept = true) : Flagged (.destroy pc) p p' (.destroy pc') [] :=
  ⟨fun e => by rw [hs, e], fun e => .inl (by rw [← hs, e]), fun e => by (rw [h] at e; rw [h', hs]; exact e),
    fun h => (by cases h), fun _ => .inl hsw, fun _ h => (by cases h)⟩

theorem flagged (cfg : Config) (l : Loc F A) : (code cfg l).Acts fun _ p p' l' new => Flagged l p p' l' new := by
  rcases l with ⟨tid, pc⟩ | ⟨task, pc⟩ | pc | pc | _
  · cases pc with
    | test =>
      refine acts_update _ _ fun i p => ?_
      split
      · rename_i hb
        refine .other rfl trivial rfl fun _ => ?_
        simp only [Bool.and_eq_true, Bool.not_eq_true'] at hb; exact hb.2
      · exact .other rfl trivial rfl fun h => by cases h
    | exitTest =>
      refine acts_update _ _ fun i p => ?_
      split <;> exact .other (by simp) trivial rfl fun h => by cases h
    | shutdownTest =>
      refine acts_update _ _ fun i p => ?_
      split <;> exact .other rfl trivial rfl fun h => by cases h
    | take | busyInc | busyDec | call | running | exiting =>
      exact acts_update _ _ fun i p => .other rfl trivial rfl fun h => by cases h
    | _ => trivial
  · cases pc with
    | test =>
      refine acts_update _ _ fun i p => ?_
      split
      · rename_i hb
        refine .other rfl trivial rfl fun _ => ?_
        simp only [Bool.and_eq_true, Bool.not_eq_true'] at hb; exact hb.2
      · exact .other rfl trivial rfl fun h => by cases h
    | shutdownTest =>
      refine acts_update _ _ fun i p => ?_
      split <;> exact .other rfl trivial rfl fun h => by cases h
    | put => exact acts_update _ _ fun i p => .other rfl trivial rfl fun h => by cases h
    | _ => trivial
  · cases pc with
    | grow k add live busy =>
      intro i p x p' l' new h
      rcases growStep_cases h with ⟨rfl, rfl, rfl | rfl⟩ | ⟨tid, -, -, -, -, -, -, rfl, rfl, rfl⟩
      · exact .other rfl trivial rfl fun h => by cases h
      · exact .other rfl trivial rfl fun h => by cases h
      · refine ⟨id, .inl, fun _ => trivial, fun h => (by cases h), fun h => (by cases h), fun n hn => ?_⟩
        obtain rfl := List.mem_singleton.1 hn
        exact ⟨rfl, trivial, rfl⟩
    | signal k =>
      simp only [code, adjustThread]
      split
      · trivial
      · exact acts_update _ _ fun i p => .other rfl trivial rfl fun h => by cases h
    | loop | growTest | shrinkTest =>
      refine acts_update _ _ fun i p => ?_
      split <;> exact .other rfl trivial rfl fun h => by cases h
    | sleep | read | readBusy | shrinkSet => exact acts_update _ _ fun i p => .other rfl trivial rfl fun h => by cases h
    | _ => trivial
  · cases pc with
    | store =>
      exact acts_update _ _ fun i p => ⟨fun _ => rfl, fun _ => .inr rfl, fun _ => rfl, fun h => (by cases h),
        fun h => (by cases h), fun _ h => (by cases h)⟩
    | loop k =>
      refine acts_update _ _ fun i p => ?_
      refine ⟨id, .inl, fun h => ?_, fun h => ?_, fun h => ?_, fun _ h => (by cases h)⟩
      · split <;> exact h
      · split at h <;> cases h
      · cases k with
        | zero =>
          split at h
          · cases h
          · rename_i hk; exact .inr ⟨rfl, by simpa using hk⟩
        | succ k => exact .inl rfl
    | bcast | lockLock | lockCounter | returned => trivial
    | _ => exact acts_update _ _ fun i p => .free rfl rfl rfl rfl
  · intro i p x p' l' new h
    obtain ⟨rfl, rfl, task, rfl⟩ := client_acts cfg i p x p' l' new h
    refine ⟨id, .inl, fun _ => trivial, fun h => (by cases h), fun h => (by cases h), fun n hn => ?_⟩
    obtain rfl := List.mem_singleton.1 hn
    exact ⟨rfl, trivial, rfl⟩

/-- Statements on mutexes and condition variables are not followed by a wait, and the first
broadcast is the one that is. -/
theorem flagged_next {cfg : Config} {l l' : Loc F A} (h : (code cfg l).next = some l') :
    l'.waits = false ∧ (∀ p, l.stored p → l'.stored p) ∧
    (l'.swept = true → l.swept = true ∨ l = .destroy (.bcast 0)) := by
  rcases l with ⟨tid, pc⟩ | ⟨task, pc⟩ | pc | pc | _
  · cases pc <;> cases h <;> exact ⟨rfl, fun _ _ => trivial, fun h => (by cases h)⟩
  · cases pc <;> cases h <;> exact ⟨rfl, fun _ _ => trivial, fun h => (by cases h)⟩
  · cases pc with
    | signal k =>
      simp only [code, adjustThread] at h
      split at h <;> cases h
      exact ⟨rfl, fun _ _ => trivial, fun h => (by cases h)⟩
    | _ => cases h <;> exact ⟨rfl, fun _ _ => trivial, fun h => (by cases h)⟩
  · cases pc with
    | bcast k =>
      cases h
      refine ⟨rfl, fun _ h => h, fun _ => ?_⟩
      cases k with
      | zero => exact .inr rfl
      | succ k => exact .inl rfl
    | _ => cases h <;> exact ⟨rfl, fun _ h => h, fun _ => .inl rfl⟩
  · cases h

/-! ## The invariant -/

/-- Once the flag is set every thread is reached by the broadcasts, and nobody is blocked after the
first one. -/
structure Draining (s : PoolState F A) : Prop where
  stored : ∀ t ∈ s.threads, t.loc.stored s.shared
  reached : s.shared.shutdown = true → ∀ t ∈ s.threads, Reached t
  swept : (∃ t ∈ s.threads, t.loc.swept = true) → ∀ t ∈ s.threads, t.isBlocked = false

theorem blockedOn_of_not_blocked {t : Thread Mutex Cond (Loc F A)} (h : t.isBlocked = false) (c : Cond) :
    t.blockedOn c = false := by
  cases t <;> first | rfl | cases h

/-- A thread that goes on after a wait tests its condition again. -/
theorem resumed_waits {cfg : Config} {s : PoolState F A} (hm : MutexInv (code cfg) Loc.holds s) {j : Nat}
    {t : Thread Mutex Cond (Loc F A)} (hj : s.threads[j]? = some t) (h : ∀ l, t ≠ .run l) : t.loc.waits = false := by
  obtain ⟨l₀, c, m, hw⟩ : ∃ l₀ c m, code cfg l₀ = .wait c m t.loc := by
    cases t with
    | run l => exact absurd rfl (h l)
    | blocked c m l =>
      obtain ⟨l₀, h⟩ := hm.blocked j c m l hj
      exact ⟨l₀, c, m, h⟩
    | woken m l =>
      obtain ⟨l₀, c, h⟩ := hm.woken j m l hj
      exact ⟨l₀, c, m, h⟩
  obtain ⟨-, ⟨tid, -, -, e⟩ | ⟨task, -, -, e⟩⟩ := wait_cases hw <;> rw [e] <;> rfl

theorem waits_of_wait {cfg : Config} {l l' : Loc F A} {c : Cond} {m : Mutex} (h : code cfg l = .wait c m l') :
    l.waits = true := by
  obtain ⟨-, ⟨tid, rfl, -, -⟩ | ⟨task, rfl, -, -⟩⟩ := wait_cases h <;> rfl

/-- A thread that the broadcasts reach stays so, as long as no thread goes on to wait. -/
theorem reached_step {cfg : Config} {s s' : PoolState F A} {a : Action (Outcome F A)}
    (hm : MutexInv (code cfg) Loc.holds s) (hs : step (code cfg) s a = some s') (hset : s'.shared.shutdown = true)
    (h : ∀ t ∈ s.threads, Reached t) : ∀ t ∈ s'.threads, Reached t := by
  intro t' ht'
  obtain ⟨j, hj'⟩ := List.mem_iff_getElem?.1 ht'
  rcases step_thread_back hs hj' with ⟨t, hj, hstep⟩ | ⟨i, x, l, f, l', new, n, hi, hc, hf, hn, rfl⟩
  · have ht := h t (List.mem_of_getElem? hj)
    cases hstep with
    | passive hl hb hr =>
      by_cases hb' : t'.isBlocked = true
      · exact hb hb' ▸ ht
      refine ⟨blockedOn_of_not_blocked (by simpa using hb') _, ?_⟩
      cases t' with
      | run l' =>
        by_cases hrun : ∃ l, t = .run l
        · obtain ⟨l, rfl⟩ := hrun
          exact hr l rfl ▸ ht.2
        · have := resumed_waits hm hj fun l e => hrun ⟨l, e⟩
          rw [← hl] at this; exact this
      | _ => rfl
    | wait ha hc hsh =>
      have := ht.2
      rw [aboutToWait, waits_of_wait hc] at this; cases this
    | next ha hc hsh => exact ⟨rfl, (flagged_next hc).1⟩
    | act ha hc hf =>
      refine ⟨rfl, ?_⟩
      by_contra hw
      have := ((flagged cfg _).of hc hf).waits (by simpa [aboutToWait] using hw)
      rw [hset] at this; cases this
  · exact ⟨rfl, (((flagged cfg _).of hc hf).new n hn).1⟩

/-- Nobody blocks once the broadcasts reach every thread. -/
theorem unblocked_step {cfg : Config} {s s' : PoolState F A} {a : Action (Outcome F A)}
    (hs : step (code cfg) s a = some s') (h : ∀ t ∈ s.threads, Reached t) (hb : ∀ t ∈ s.threads, t.isBlocked = false) :
    ∀ t ∈ s'.threads, t.isBlocked = false := by
  intro t' ht'
  obtain ⟨j, hj'⟩ := List.mem_iff_getElem?.1 ht'
  rcases step_thread_back hs hj' with ⟨t, hj, hstep⟩ | ⟨i, x, l, f, l', new, n, hi, hc, hf, hn, rfl⟩
  · cases hstep with
    | passive hl hb' hr =>
      by_contra hbt
      have hbt : t'.isBlocked = true := by simpa using hbt
      have := hb t (List.mem_of_getElem? hj)
      rw [← hb' hbt, hbt] at this; cases this
    | wait ha hc hsh =>
      have := (h _ (List.mem_of_getElem? hj)).2
      rw [aboutToWait, waits_of_wait hc] at this; cases this
    | next | act => rfl
  · rfl

/-- The first broadcast leaves nobody blocked. -/
theorem unblocked_of_broadcast {s : PoolState F A} (h : ∀ t ∈ s.threads, Reached t) (i : Nat) (l : Loc F A) :
    ∀ t ∈ (wakeAll .queueNotEmpty s.threads).set i (.run l), t.isBlocked = false := by
  intro t ht
  rcases List.mem_or_eq_of_mem_set ht with ht | rfl
  · obtain ⟨t₀, ht₀, rfl⟩ := List.mem_map.1 ht
    split
    · exact Thread.wake_isBlocked _
    · rename_i hne
      have := (h t₀ ht₀).1
      cases t₀ with
      | blocked c m l =>
        cases c
        · simp [Thread.blockedOn] at this
        · simp [Thread.blockedOn] at hne
      | _ => rfl
  · rfl

/-- If nobody is live, nobody is blocked. -/
theorem unblocked_of_not_live {cfg : Config} {s₀ s : PoolState F A} (h0 : Created cfg s₀)
    (h : Reach (step (code cfg)) s₀ s) (hr : ∀ t ∈ s.threads, Reached t) (hlive : s.shared.liveThrNum ≤ 0) :
    ∀ t ∈ s.threads, t.isBlocked = false := by
  intro t ht
  by_contra hb
  cases t with
  | blocked c m l =>
    obtain ⟨j, hj⟩ := List.mem_iff_getElem?.1 ht
    obtain ⟨l₀, hw⟩ := (mutexInv h0 h).blocked j c m l hj
    obtain ⟨-, ⟨tid, -, rfl, rfl⟩ | ⟨task, -, rfl, -⟩⟩ := wait_cases hw
    · have := one_le_live h0 h (List.mem_map_of_mem ht) rfl
      omega
    · have := (hr _ ht).1
      simp [Thread.blockedOn] at this
  | _ => exact hb rfl

theorem draining_step {cfg : Config} {s₀ s s' : PoolState F A} {a : Action (Outcome F A)} (h0 : Created cfg s₀)
    (h : Reach (step (code cfg)) s₀ s) (hI : Draining s) (hok : StoresSafely s a) (hs : step (code cfg) s a = some s') :
    Draining s' := by
  have hm := mutexInv h0 h
  have hmono : s.shared.shutdown = true → s'.shared.shutdown = true := by
    rcases step_shared hs with e | ⟨i, x, ws, l, f, l', new, -, -, hc, hf, -⟩
    · rw [e]; exact id
    · exact ((flagged cfg _).of hc hf).mono
  -- whoever finds the flag set: it was set before, or this step is the store
  have hreached : s'.shared.shutdown = true → ∀ t ∈ s.threads, Reached t := by
    intro hset
    rcases step_shared hs with e | ⟨i, x, ws, l, f, l', new, rfl, hi, hc, hf, -⟩
    · exact hI.reached (e ▸ hset)
    · rcases ((flagged cfg _).of hc hf).set hset with h1 | rfl
      · exact hI.reached h1
      · exact hok hi
  refine ⟨fun t' ht' => ?_, fun hset => reached_step hm hs hset (hreached hset), ?_⟩
  · obtain ⟨j, hj'⟩ := List.mem_iff_getElem?.1 ht'
    rcases step_thread_back hs hj' with ⟨t, hj, hstep⟩ | ⟨i, x, l, f, l', new, n, hi, hc, hf, hn, rfl⟩
    · have ht := hI.stored t (List.mem_of_getElem? hj)
      cases hstep with
      | passive hl _ _ => rw [hl]; exact Loc.stored_mono hmono ht
      | wait ha hc hsh =>
        obtain ⟨-, ⟨tid, -, -, rfl⟩ | ⟨task, -, -, rfl⟩⟩ := wait_cases hc <;> trivial
      | next ha hc hsh => rw [hsh]; exact (flagged_next hc).2.1 _ ht
      | act ha hc hf => exact ((flagged cfg _).of hc hf).stored ht
    · exact (((flagged cfg _).of hc hf).new n hn).2.1
  · rintro ⟨t', ht', hsw⟩
    obtain ⟨j, hj'⟩ := List.mem_iff_getElem?.1 ht'
    -- a call of `threadpool_destroy` past its store has set the flag
    have hset : ∀ {t : Thread Mutex Cond (Loc F A)} {pc : DestroyPc}, s.threads[j]? = some t → t.loc = .destroy pc →
        pc ≠ .store → s.shared.shutdown = true := by
      intro t pc hj hl hpc
      have := hI.stored t (List.mem_of_getElem? hj)
      rw [hl] at this
      cases pc <;> first | exact absurd rfl hpc | exact this
    have hold : ∀ {t : Thread Mutex Cond (Loc F A)}, s.threads[j]? = some t → t.loc.swept = true →
        ∀ t ∈ s'.threads, t.isBlocked = false := by
      intro t hj hsw₀
      have hset₀ : s.shared.shutdown = true := by
        cases hl : t.loc with
        | destroy pc =>
          refine hset hj hl ?_
          rintro rfl
          rw [hl] at hsw₀; cases hsw₀
        | _ => rw [hl] at hsw₀; cases hsw₀
      exact unblocked_step hs (hI.reached hset₀) (hI.swept ⟨t, List.mem_of_getElem? hj, hsw₀⟩)
    rcases step_thread_back hs hj' with ⟨t, hj, hstep⟩ | ⟨i, x, l, f, l', new, n, hi, hc, hf, hn, rfl⟩
    · cases hstep with
      | passive hl _ _ => exact hold hj (hl ▸ hsw)
      | wait ha hc hsh =>
        obtain ⟨-, ⟨tid, -, -, rfl⟩ | ⟨task, -, -, rfl⟩⟩ := wait_cases hc <;> cases hsw
      | @next l x ws l' ha hc hsh =>
        rcases (flagged_next hc).2.2 hsw with h1 | rfl
        · exact hold hj h1
        · have hr := hI.reached (hset hj rfl (by simp))
          subst ha
          rw [step_run hj] at hs
          cases hs
          exact unblocked_of_broadcast hr j _
      | @act l x ws f l' new ha hc hf =>
        rcases ((flagged cfg _).of hc hf).swept hsw with h1 | ⟨rfl, hlive⟩
        · exact hold hj h1
        · have hr := hI.reached (hset hj rfl (by simp))
          exact unblocked_step hs hr (unblocked_of_not_live h0 h hr hlive)
    · have := (((flagged cfg _).of hc hf).new n hn).2.2
      rw [show (Thread.run n : Thread Mutex Cond (Loc F A)).loc.swept = n.swept from rfl, this] at hsw
      cases hsw

theorem swept_of_pastLoop {l : Loc F A} (h : l.pastLoop = true) : l.swept = true := by
  cases l with
  | destroy pc => cases pc <;> first | rfl | cases h
  | _ => cases h

/-! ## The store that strands a thread -/

/-- `v` differs from `s` in thread `i` only, but for threads that were blocked on `queue_not_empty`. -/
def OthersKept (i : Nat) (s v : PoolState F A) : Prop :=
  ∀ (j : Nat) t, j ≠ i → s.threads[j]? = some t → t.blockedOn .queueNotEmpty = false → v.threads[j]? = some t

/-- The test of the loop. -/
theorem step_loop (cfg : Config) {i k : Nat} {s : PoolState F A}
    (hi : s.threads[i]? = some (.run (.destroy (.loop k)))) :
    step (code cfg) s (.exec i .none []) = some { s with
      threads := s.threads.set i
        (.run (.destroy (if (k : Int) < s.shared.liveThrNum then .bcast k else .freeQueue))) } := by
  rw [step_update hi rfl]
  by_cases hk : (k : Int) < s.shared.liveThrNum <;> simp [hk]

/-- One round of the loop, run alone. -/
theorem reach_round (cfg : Config) {i k : Nat} {s : PoolState F A}
    (hi : s.threads[i]? = some (.run (.destroy (.loop k)))) (hk : (k : Int) < s.shared.liveThrNum) :
    ∃ v, Reach (step (code cfg)) s v ∧ v.threads[i]? = some (.run (.destroy (.loop (k + 1)))) ∧
      v.shared = s.shared ∧ OthersKept i s v := by
  have h₁ := step_loop cfg hi
  rw [if_pos hk] at h₁
  have hi₁ := set_getElem?_self hi (.run (.destroy (.bcast k)))
  have h₂ : step (code cfg) { s with threads := s.threads.set i (.run (.destroy (.bcast k))) } (.exec i .none []) = _ :=
    step_run hi₁ Outcome.none []
  refine ⟨_, Reach.cons h₁ ((Reach.refl _).snoc h₂), List.getElem?_set_self ?_, rfl, fun j t hij hj hb => ?_⟩
  · rw [wakeAll_length]; exact (List.getElem?_eq_some_iff.1 hi₁).1
  · have hj₁ : (s.threads.set i (.run (.destroy (.bcast k))))[j]? = some t :=
      (List.getElem?_set_ne (Ne.symm hij)).trans hj
    refine (List.getElem?_set_ne (Ne.symm hij)).trans ?_
    rw [wakeAll_getElem?, hj₁, Option.map_some, hb, if_neg Bool.false_ne_true]

/-- The loop of broadcasts, run alone, reaches its end and leaves running threads and the threads
blocked on `queue_not_full` as they were. -/
theorem reach_pastLoop (cfg : Config) (i : Nat) : ∀ (n k : Nat) {s : PoolState F A},
    s.threads[i]? = some (.run (.destroy (.loop k))) → s.shared.liveThrNum ≤ k + n →
    ∃ v, Reach (step (code cfg)) s v ∧ v.threads[i]? = some (.run (.destroy .freeQueue)) ∧ OthersKept i s v
  | n, k, s, hi, hlive => by
    by_cases hk : (k : Int) < s.shared.liveThrNum
    · cases n with
      | zero => omega
      | succ n =>
        obtain ⟨u, hu, hui, hsh, huj⟩ := reach_round cfg hi hk
        obtain ⟨v, hv, hvi, hvj⟩ := reach_pastLoop cfg i n (k + 1) hui (by rw [hsh]; push_cast; omega)
        exact ⟨v, hu.trans hv, hvi, fun j t hij hj hb => hvj j t hij (huj j t hij hj hb) hb⟩
    · have h₁ := step_loop cfg hi
      rw [if_neg hk] at h₁
      refine ⟨_, (Reach.refl s).snoc h₁, set_getElem?_self hi _, fun j t hij hj _ => ?_⟩
      exact (List.getElem?_set_ne (Ne.symm hij)).trans hj

/-- A thread that the broadcasts do not reach is blocked after the loop in some continuation. -/
theorem stranded_of_store {cfg : Config} {s s' : PoolState F A} {a : Action (Outcome F A)}
    (hs : step (code cfg) s a = some s') (hok : ¬ StoresSafely s a) :
    ∃ v, Reach (step (code cfg)) s' v ∧ ¬ StrandsNobody v := by
  cases a with
  | spurious i => exact absurd trivial hok
  | exec i x ws =>
    simp only [StoresSafely, Classical.not_imp, not_forall] at hok
    obtain ⟨hi, t, ht, hr⟩ := hok
    obtain ⟨j, hj⟩ := List.mem_iff_getElem?.1 ht
    have hij : j ≠ i := by
      rintro rfl
      rw [hi] at hj; cases hj
      exact hr ⟨rfl, rfl⟩
    have hb : t.blockedOn .queueNotEmpty = false := by
      by_contra hb
      cases t with
      | blocked c m l =>
        have hc : c = .queueNotEmpty := by simpa [Thread.blockedOn] using hb
        exact hr ⟨by simp [Thread.blockedOn, hc], rfl⟩
      | _ => exact hb rfl
    rw [step_update hi rfl] at hs
    cases hs
    obtain ⟨v, hv, hvi, hvj⟩ := reach_pastLoop cfg i s.shared.liveThrNum.toNat 0
      (s := { s with shared := { s.shared with shutdown := true },
                     threads := s.threads.set i (.run (.destroy (.loop 0))) })
      (set_getElem?_self hi _) (by show s.shared.liveThrNum ≤ _; omega)
    have hvj := hvj j t hij ((List.getElem?_set_ne (Ne.symm hij)).trans hj) hb
    have hdone : ∀ {u : PoolState F A} {c : Cond} {m : Mutex} {l : Loc F A},
        u.threads[i]? = some (.run (.destroy .freeQueue)) → u.threads[j]? = some (.blocked c m l) →
        ¬ StrandsNobody u := by
      intro u c m l hui huj h
      have := h ⟨_, List.mem_of_getElem? hui, rfl⟩ _ (List.mem_of_getElem? huj)
      cases this
    cases t with
    | blocked c m l => exact ⟨v, hv, hdone hvi hvj⟩
    | woken m l => exact absurd ⟨rfl, rfl⟩ hr
    | run l =>
      -- about to wait: it blocks after the last broadcast
      have hw : l.waits = true := by
        by_contra hw
        exact hr ⟨rfl, by simpa [aboutToWait] using hw⟩
      obtain ⟨c, m, l', hc⟩ : ∃ c m l', code cfg l = .wait c m l' := by
        unfold Loc.waits at hw
        split at hw
        · exact ⟨_, _, _, rfl⟩
        · exact ⟨_, _, _, rfl⟩
        · cases hw
      have hstep : step (code cfg) v (.exec j .none []) = _ := step_run hvj Outcome.none []
      rw [hc] at hstep
      refine ⟨_, hv.snoc hstep, hdone ?_ (set_getElem?_self hvj _)⟩
      exact (List.getElem?_set_ne hij).trans hvi

/-- `threadpool_destroy` strands nobody exactly in the runs in which, when it stores the flag, no
producer is blocked on `queue_not_full` and no thread is about to wait. -/
theorem strandsNobody_exact (cfg : Config) (s₀ : PoolState F A) (h0 : Created cfg s₀) :
    ExactFor (step (code cfg)) StoresSafely StrandsNobody s₀ := by
  refine ⟨fun t h => ?_, fun t a u _ hs hok => stranded_of_store hs hok⟩
  have hI : Draining t := by
    refine h.invariant (J := fun u => Reach (step (code cfg)) s₀ u) (fun u hu => hu) ?_
      fun u a u' hu hI hok hs => draining_step h0 hu hI hok hs
    have hmem : ∀ t ∈ s₀.threads, t.loc.stored s₀.shared ∧ t.loc.swept = false := by
      intro t ht
      rcases h0.mem_threads ht with rfl | rfl | rfl | ⟨tid, rfl⟩ <;> exact ⟨trivial, rfl⟩
    obtain ⟨tids, others, garbage, -, -, -, rfl⟩ := h0.start
    refine ⟨fun t ht => (hmem t ht).1, fun h => (by cases h), ?_⟩
    rintro ⟨t, ht, hsw⟩
    rw [(hmem t ht).2] at hsw; cases hsw
  rintro ⟨t', ht', hp⟩
  exact hI.swept ⟨t', ht', swept_of_pastLoop hp⟩

/-- Thread 4 fills the queue of one task, thread 5 blocks on it, and `threadpool_destroy` leaves its
loop. -/
def fullRun : List (Action (Outcome Nat Nat)) :=
  callAdd 4 ++ go 4 2 ++ [.exec 0 (.task ⟨0, none⟩) []] ++ go 5 3 ++ go 1 4

/-- The producer blocked on the full queue stays blocked. -/
theorem destroy_strands_producer : ¬ ∀ (cfg : Config) (s₀ s : PoolState Nat Nat), Created cfg s₀ →
    Reach (step (code cfg)) s₀ s → StrandsNobody s := by
  intro h
  exact absurd (h ⟨1, 1, 1⟩ onePool _ onePool_created (reach_after onePool fullRun)) (by decide +kernel)

theorem strandsNobody_exact_onePool : ExactFor (step (code ⟨1, 1, 1⟩)) StoresSafely StrandsNobody onePool :=
  strandsNobody_exact ⟨1, 1, 1⟩ onePool onePool_created

end LinuxProgram.Threadpool
