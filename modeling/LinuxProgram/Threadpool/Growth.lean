/-
How many workers a growing pass of the manager creates. The pass is bounded by the slots as well as by
the counters, and a slot whose thread has not terminated is passed over, also when that thread has
counted itself out of `live_thr_num` already, or is another thread of the process that got its id. Each
such slot can cost the pass one worker; but for them it makes its full step.
-/
import LinuxProgram.Threadpool.Slots

namespace LinuxProgram.Threadpool

open LinuxProgram.Machine

variable {F A : Type}

/-! ## The counted workers -/

/-- The id of a worker that `live_thr_num` counts. -/
def Loc.counted (l : Loc F A) : Multiset Nat := if l.serving then l.ids else 0

def countedIds (s : PoolState F A) : Multiset Nat := tally Loc.counted s.locs

theorem counted_kin {l l' : Loc F A} (h : Kin l l') : l'.counted = l.counted := by
  rw [Loc.counted, Loc.counted, h.serving, h.ids]

/-- A counted worker has one id. -/
theorem card_counted (l : Loc F A) : (l.counted.card : Int) = l.weight := by
  rcases l with ⟨tid, pc⟩ | ⟨task, pc⟩ | pc | pc | _
  · cases pc <;> rfl
  all_goals rfl

theorem card_tally_counted (ls : List (Loc F A)) : ((tally Loc.counted ls).card : Int) = tally Loc.weight ls := by
  induction ls with
  | nil => rfl
  | cons l ls ih =>
    rw [tally_cons, tally_cons, Multiset.card_add, Nat.cast_add, card_counted, ih]

theorem tally_counted_le (ls : List (Loc F A)) : tally Loc.counted ls ≤ tally Loc.ids ls := by
  induction ls with
  | nil => exact le_refl _
  | cons l ls ih =>
    rw [tally_cons, tally_cons]
    refine add_le_add ?_ ih
    unfold Loc.counted
    split
    · exact le_refl _
    · exact Multiset.zero_le _

/-! ## A pass -/

section Pass

variable (cfg : Config) (m : Nat)

/-- The manager, thread `m`, is in the growing loop. -/
def InPass (s : PoolState F A) : Prop :=
  ∃ i add live busy, s.threads[m]? = some (.run (.adjust (.grow i add live busy)))

/-- The id in slot `i` is that of a counted worker, and no earlier slot has it. -/
def OwnSlot (s : PoolState F A) (i : Nat) : Prop :=
  s.shared.threads.getD i 0 ∈ countedIds s ∧ ∀ k < i, s.shared.threads.getD k 0 ≠ s.shared.threads.getD i 0

/-- The loop goes on to slot `i`. -/
def Examines (s : PoolState F A) (i add : Nat) : Prop :=
  i < cfg.maxThrNum ∧ add < defaultThreadVary ∧ s.shared.liveThrNum < cfg.maxThrNum

/-- The loop passes slot `i` over although it is not the slot of a counted worker. -/
def PassesOver (s : PoolState F A) (i add : Nat) : Prop :=
  Examines cfg s i add ∧ s.shared.slotFree i = false ∧ ¬ OwnSlot s i

instance (s : PoolState F A) (i : Nat) : Decidable (OwnSlot s i) := by unfold OwnSlot; infer_instance

instance (s : PoolState F A) (i add : Nat) : Decidable (Examines cfg s i add) := by unfold Examines; infer_instance

instance (s : PoolState F A) (i add : Nat) : Decidable (PassesOver cfg s i add) := by unfold PassesOver; infer_instance

/-- The pass that began in `s` has come to a state after the manager created `n` threads and passed over
`r` slots that are not those of counted workers. Other threads run as well. -/
inductive Pass (s : PoolState F A) : PoolState F A → Nat → Nat → Prop where
  | start : Pass s s 0 0
  | other {u u' n r e} (h : Pass s u n r) (hin : InPass m u) (hs : processStep cfg u e = some u')
    (he : ∀ x ws, e ≠ .step (.exec m x ws)) : Pass s u' n r
  | turn {u u' n r i add live busy x ws} (h : Pass s u n r)
      (ht : u.threads[m]? = some (.run (.adjust (.grow i add live busy))))
    (hs : processStep cfg u (.step (.exec m x ws)) = some u') :
    Pass s u' (n + (u'.threads.length - u.threads.length)) (r + if PassesOver cfg u i add then 1 else 0)

theorem Pass.reach {cfg : Config} {m : Nat} {s u : PoolState F A} {n r : Nat} (h : Pass cfg m s u n r) :
    Reach (processStep cfg) s u := by
  induction h with
  | start => exact Reach.refl s
  | other _ _ hs _ ih => exact ih.snoc hs
  | turn _ _ hs ih => exact ih.snoc hs

end Pass

/-- What an iteration of the loop does. -/
theorem growStep_spec {cfg : Config} {i add : Nat} {live busy : Int} {p p' : Pool F A} {x : Outcome F A} {l' : Loc F A}
    {new : List (Loc F A)} (h : growStep cfg i add live busy p x = some (p', l', new)) :
    ((i < cfg.maxThrNum ∧ add < defaultThreadVary ∧ p.liveThrNum < cfg.maxThrNum) ∧
      ((p.slotFree i = false ∧ p' = p ∧ l' = .adjust (.grow (i + 1) add live busy) ∧ new = []) ∨
      ∃ tid, p.slotFree i = true ∧ p.isThreadAlive tid = false ∧ p' = p.create i tid ∧
        l' = .adjust (.grow (i + 1) (add + 1) live busy) ∧ new = [.worker tid .lock])) ∨
    (¬ (i < cfg.maxThrNum ∧ add < defaultThreadVary ∧ p.liveThrNum < cfg.maxThrNum) ∧
      p' = p ∧ l' = .adjust (.growUnlock live busy) ∧ new = []) := by
  unfold growStep at h
  split at h
  · rename_i hc
    refine .inl ⟨hc, ?_⟩
    split at h
    · rename_i hfree
      split at h
      · rename_i tid
        split at h
        · rename_i ht
          cases h
          exact .inr ⟨tid, hfree, ht.2, rfl, rfl, rfl⟩
        · cases h
      · cases h
    · rename_i hfree
      cases h
      exact .inl ⟨by simpa using hfree, rfl, rfl, rfl⟩
  · rename_i hc
    cases h
    exact .inr ⟨hc, rfl, rfl, rfl⟩

/-! ## The process -/

section Process

variable {cfg : Config} {s₀ s s' : PoolState F A}

/-- What holds in every state of the process. -/
structure Sound (cfg : Config) (s : PoolState F A) : Prop where
  mutex : MutexInv (code cfg) Loc.holds s
  account : Account cfg s.shared (tally Loc.weight s.locs)
  bounds : Counters cfg s.shared (tally (count Loc.busy) s.locs)
  owned : Owned cfg s

theorem Sound.step {e : Event F A} (h : Sound cfg s) (hs : processStep cfg s e = some s') : Sound cfg s' := by
  have hown := h.owned.step hs
  cases e with
  | step a =>
    have hall : ∀ {N : Type} [AddCommMonoid N] {w : Loc F A → N}, ExecMeets w Always s a := by
      cases a <;> simp [ExecMeets, Always]
    exact ⟨(locking cfg).mutex_step h.mutex hs, (accounting cfg).step_valid hall h.account hs,
      (counters cfg).step_valid hall h.bounds hs, hown⟩
  | start id | stop id =>
    obtain ⟨-, hs⟩ := Option.ite_none_right_eq_some.1 hs
    cases hs
    exact ⟨⟨h.mutex.owner, h.mutex.blocked, h.mutex.woken⟩, h.account.same rfl rfl,
      ⟨h.bounds.live_le, h.bounds.wait_nonneg, h.bounds.wait_le, h.bounds.busy⟩, hown⟩

theorem sound (hle : cfg.minThrNum ≤ cfg.maxThrNum) (h0 : Created cfg s₀) (h : Reach (processStep cfg) s₀ s) :
    Sound cfg s :=
  h.invariant ⟨mutexInv h0 (Reach.refl _), account h0 (Reach.refl _), counters_created hle h0, owned_created hle h0⟩
    fun _ _ _ hI hs => hI.step hs

end Process

/-! ## What the loop has seen -/

section Scan

variable {cfg : Config} {m i n r : Nat} {live : Int} {ids : List Nat} {s u u' : PoolState F A}

/-- `ids` are ids of counted workers that are found in the slots before `i`. -/
structure Held (ids : List Nat) (i : Nat) (live : Int) (p : Pool F A) (counted : Multiset Nat) : Prop where
  live : p.liveThrNum = live
  counted : ∀ t ∈ ids, t ∈ counted
  slot : ∀ t ∈ ids, ∃ j < i, p.threads[j]? = some t

theorem SameBooks.held {p p' : Pool F A} {c : Multiset Nat} (hp : SameBooks p p') (h : Held ids i live p c) :
    Held ids i live p' c :=
  ⟨hp.live ▸ h.live, h.counted, hp.threads ▸ h.slot⟩

/-- While the manager holds the lock no worker is counted out, and the slots stay. -/
theorem held (cfg : Config) (ids : List Nat) (i : Nat) (live : Int) :
    Tallying (code (F := F) (A := A) cfg) Loc.counted (fun l _ _ _ => l.holds .lock = false) (Held ids i live) := by
  refine tallying_of_books counted_kin ?_
  intro l p p' l' new x c hbooks hK hI
  cases hbooks with
  | keep hp hl hnew =>
    rw [tally_calls (fun _ => rfl) hnew, counted_kin hl, add_zero]
    exact hp.held hI
  | stay hwait hp | retire hwait hmin hp | leave hshut hp | create hi hlive hfree htid halive hp | request hp =>
    -- these are executed with the lock
    have : true = false := hK
    cases this
  | exit hp | begin hp | finish hp | close hp =>
    rw [tally_nil, add_zero]
    exact hp.held ⟨hI.live, hI.counted, hI.slot⟩

/-- Nothing happens to the manager and to what it has seen in a step of another thread. -/
theorem Held.other {e : Event F A} (h : Held ids i live u.shared (countedIds u)) (hu : Sound cfg u) {l : Loc F A}
    (hl : l.holds .lock = true) (ht : u.threads[m]? = some (.run l)) (hs : processStep cfg u e = some u')
    (he : ∀ x ws, e ≠ .step (.exec m x ws)) :
    u'.threads[m]? = some (.run l) ∧ Held ids i live u'.shared (countedIds u') := by
  cases e with
  | step a =>
    obtain ⟨t', ht', hstep⟩ := step_thread hs ht
    refine ⟨?_, (held cfg ids i live).step_valid ?_ h hs⟩
    · cases hstep with
      | passive _ _ hr => rw [ht', hr l rfl]
      | wait ha hc hsh | next ha hc hsh | act ha hc hf => exact absurd (congrArg Event.step ha) (he _ _)
    · cases a with
      | spurious k => trivial
      | exec k x ws =>
        intro l' hl'
        by_contra hheld
        have hk : k = m := hu.mutex.unique hl' ht (by simpa using hheld) hl
        subst hk
        exact he x ws rfl
  | start id | stop id =>
    obtain ⟨-, hs⟩ := Option.ite_none_right_eq_some.1 hs
    cases hs
    exact ⟨ht, h.live, h.counted, h.slot⟩

/-- Where the loop stands before slot `i`, with `n` threads created and `r` slots passed over that are not
those of counted workers: the others are `i - r`, each with a counted worker of its own. -/
structure Progress (cfg : Config) (s u : PoolState F A) (i n r : Nat) : Prop where
  seen : ∃ ids : List Nat, ids.Nodup ∧ ids.length + r = i ∧ Held ids i (s.shared.liveThrNum + n) u.shared (countedIds u)
  added : n ≤ defaultThreadVary
  room : s.shared.liveThrNum + n ≤ cfg.maxThrNum

/-- The pass is under way, or the loop has come to its end. -/
def Under (cfg : Config) (m : Nat) (s u : PoolState F A) (n r : Nat) : Prop :=
  ∃ i live busy, Progress cfg s u i n r ∧
    (u.threads[m]? = some (.run (.adjust (.grow i n live busy))) ∨
      u.threads[m]? = some (.run (.adjust (.growUnlock live busy))) ∧ ¬ Examines cfg u i n)

/-- An own slot is passed over. -/
theorem Held.pass (h : Held ids i live u.shared (countedIds u)) (hi : i < u.shared.threads.length)
    (hown : OwnSlot u i) :
    u.shared.threads.getD i 0 ∉ ids ∧ Held (u.shared.threads.getD i 0 :: ids) (i + 1) live u.shared (countedIds u) := by
  obtain ⟨hcount, hfirst⟩ := hown
  refine ⟨fun hmem => ?_, h.live, fun t ht => ?_, fun t ht => ?_⟩
  · obtain ⟨j, hj, hget⟩ := h.slot _ hmem
    exact hfirst j hj (by rw [List.getD_eq_getElem?_getD, hget, Option.getD_some])
  · rcases List.mem_cons.1 ht with rfl | ht
    · exact hcount
    · exact h.counted t ht
  · rcases List.mem_cons.1 ht with rfl | ht
    · exact ⟨i, Nat.lt_succ_self i, by rw [List.getD_eq_getElem?_getD, List.getElem?_eq_getElem hi, Option.getD_some]⟩
    · obtain ⟨j, hj, hget⟩ := h.slot t ht
      exact ⟨j, Nat.lt_succ_of_lt hj, hget⟩

/-- A thread is created in a free slot. -/
theorem Held.create (h : Held ids i live u.shared (countedIds u)) (hu : Sound cfg u) (hi : i < u.shared.threads.length)
    {tid : Nat} (hdead : u.shared.isThreadAlive tid = false) :
    tid ∉ ids ∧ Held (tid :: ids) (i + 1) (live + 1) (u.shared.create i tid) (countedIds u + {tid}) := by
  refine ⟨fun hmem => ?_, ?_, fun t ht => ?_, fun t ht => ?_⟩
  · have halive := hu.owned.alive tid (Multiset.mem_of_le (tally_counted_le _) (h.counted tid hmem))
    rw [Pool.isThreadAlive, List.contains_iff_mem.2 halive] at hdead
    cases hdead
  · show u.shared.liveThrNum + 1 = live + 1
    rw [h.live]
  · rcases List.mem_cons.1 ht with rfl | ht
    · exact Multiset.mem_add.2 (.inr (Multiset.mem_singleton_self _))
    · exact Multiset.mem_add.2 (.inl (h.counted t ht))
  · rcases List.mem_cons.1 ht with rfl | ht
    · exact ⟨i, Nat.lt_succ_self i, List.getElem?_set_self hi⟩
    · obtain ⟨j, hj, hget⟩ := h.slot t ht
      exact ⟨j, Nat.lt_succ_of_lt hj, (List.getElem?_set_ne (by omega)).trans hget⟩

/-- The counted workers when the manager has executed a statement and started threads. -/
theorem countedIds_adjust {pc pc' : AdjustPc} {new : List (Loc F A)} {p : Pool F A}
    (ht : u.threads[m]? = some (.run (.adjust pc))) :
    countedIds { u with shared := p, threads := u.threads.set m (.run (.adjust pc')) ++ new.map Thread.run } =
      countedIds u + tally Loc.counted new := by
  have hzero : ∀ pc : AdjustPc, Loc.counted (.adjust pc : Loc F A) = 0 := fun _ => rfl
  obtain ⟨c, h1, h2⟩ :=
    tally_split Loc.counted (show u.locs[m]? = some (.adjust pc) by simp [State.locs, ht, Thread.loc])
  have hlocs : State.locs
      { u with shared := p, threads := u.threads.set m (.run (.adjust pc')) ++ new.map Thread.run } =
      u.locs.set m (.adjust pc') ++ new := by
    simp [State.locs, List.map_set, Thread.loc, Function.comp_def]
  rw [countedIds, hlocs, tally_append, h2, hzero, countedIds, h1, hzero]

/-- One iteration of the loop. -/
theorem Progress.turn {add : Nat} {live busy : Int} {x : Outcome F A} {ws : List Nat} (h : Progress cfg s u i n r)
    (hu : Sound cfg u) (ht : u.threads[m]? = some (.run (.adjust (.grow i n live busy))))
    (hs : processStep cfg u (.step (.exec m x ws)) = some u') (hadd : add = n) :
    Under cfg m s u' (n + (u'.threads.length - u.threads.length)) (r + if PassesOver cfg u i add then 1 else 0) := by
  subst hadd
  obtain ⟨ids, hnodup, hlen, hheld⟩ := h.seen
  have hs : step (code cfg) u (.exec m x ws) = some u' := hs
  rw [step_run ht] at hs
  obtain ⟨⟨p', l', new⟩, hf, rfl⟩ := Option.map_eq_some_iff.1 hs
  have hm : ∀ t : Thread Mutex Cond (Loc F A), (u.threads.set m t ++ new.map Thread.run)[m]? = some t := by
    intro t
    have hlt := (List.getElem?_eq_some_iff.1 ht).1
    rw [List.getElem?_append_left (by simpa using hlt)]
    exact set_getElem?_self ht t
  have hcount : (u.threads.set m (.run l') ++ new.map Thread.run).length - u.threads.length = new.length := by
    rw [List.length_append, List.length_set, List.length_map]
    omega
  simp only [hcount]
  rcases growStep_spec hf with
    ⟨hex, ⟨hfree, rfl, rfl, rfl⟩ | ⟨tid, hfree, hdead, rfl, rfl, rfl⟩⟩ | ⟨hend, rfl, rfl, rfl⟩
  · have hi : i < u.shared.threads.length := by
      rw [hu.owned.length]
      exact hex.1
    refine ⟨i + 1, live, busy, ⟨?_, h.added, h.room⟩, .inl (hm _)⟩
    rw [countedIds_adjust ht, tally_nil, add_zero]
    by_cases hown : OwnSlot u i
    · obtain ⟨hnew, hheld⟩ := hheld.pass hi hown
      refine ⟨_, List.nodup_cons.2 ⟨hnew, hnodup⟩, ?_, hheld⟩
      rw [if_neg fun hp => hp.2.2 hown, List.length_cons]
      omega
    · refine ⟨ids, hnodup, ?_, hheld.live, hheld.counted, fun t htid => ?_⟩
      · rw [if_pos ⟨hex, hfree, hown⟩]
        omega
      · obtain ⟨j, hj, hget⟩ := hheld.slot t htid
        exact ⟨j, Nat.lt_succ_of_lt hj, hget⟩
  · have hi : i < u.shared.threads.length := by
      rw [hu.owned.length]
      exact hex.1
    have hnot : ¬ PassesOver cfg u i add := by
      rintro ⟨-, hf, -⟩
      rw [hfree] at hf
      cases hf
    obtain ⟨hnew, hheld'⟩ := hheld.create hu hi hdead
    have hlive := hheld.live
    have hadd := hex.2.1
    have hmax := hex.2.2
    refine ⟨i + 1, live, busy, ⟨?_, ?_, ?_⟩, .inl (hm _)⟩
    · rw [countedIds_adjust ht, if_neg hnot]
      refine ⟨tid :: ids, List.nodup_cons.2 ⟨hnew, hnodup⟩, ?_, ?_⟩
      · rw [List.length_cons]
        omega
      · have hcast : s.shared.liveThrNum + ((add + 1 : Nat) : Int) = s.shared.liveThrNum + add + 1 := by omega
        rw [List.length_singleton, hcast]
        exact hheld'
    · rw [List.length_singleton]
      omega
    · rw [List.length_singleton]
      omega
  · have hnot : ¬ PassesOver cfg u i add := fun hp => hend hp.1
    refine ⟨i, live, busy, ⟨?_, h.added, h.room⟩, .inr ⟨hm _, hend⟩⟩
    rw [countedIds_adjust ht, tally_nil, add_zero, if_neg hnot]
    exact ⟨ids, hnodup, hlen, hheld⟩

/-- The pass, from the state in which the manager has taken the lock. -/
theorem Pass.under {live busy : Int} (hp : Pass cfg m s u n r)
    (hsound : ∀ {v}, Reach (processStep cfg) s v → Sound cfg v)
    (hm : s.threads[m]? = some (.run (.adjust (.grow 0 0 live busy)))) : Under cfg m s u n r := by
  induction hp with
  | start =>
    have hroom := (hsound (Reach.refl s)).bounds.live_le
    refine ⟨0, live, busy, ⟨⟨[], List.nodup_nil, rfl, ?_, ?_, ?_⟩, Nat.zero_le _, ?_⟩, .inl hm⟩
    · simp
    · intro t ht; cases ht
    · intro t ht; cases ht
    · simpa using hroom
  | @other u u' n r e hp hin hs he ih =>
    obtain ⟨i, live', busy', hprog, hat | ⟨hat, -⟩⟩ := ih
    · obtain ⟨ids, hnodup, hlen, hheld⟩ := hprog.seen
      obtain ⟨hat', hheld'⟩ := hheld.other (hsound hp.reach) rfl hat hs he
      exact ⟨i, live', busy', ⟨⟨ids, hnodup, hlen, hheld'⟩, hprog.added, hprog.room⟩, .inl hat'⟩
    · obtain ⟨i', add', l', b', hgrow⟩ := hin
      rw [hat] at hgrow
      cases hgrow
  | @turn u u' n r i add live busy x ws hp ht hs ih =>
    obtain ⟨i', live', busy', hprog, hat | ⟨hat, -⟩⟩ := ih
    · rw [ht] at hat
      cases hat
      exact hprog.turn (hsound hp.reach) ht hs rfl
    · rw [ht] at hat
      cases hat

end Scan

/-! ## The size of a pass -/

/-- A pass creates at most ten workers, and at most as many as there is room for when it takes the lock;
and no fewer, but for one less for each slot it passes over that is not a counted worker's. -/
theorem pass_created {cfg : Config} (hle : cfg.minThrNum ≤ cfg.maxThrNum) {s₀ s u : PoolState F A} (h0 : Created cfg s₀)
    (h : Reach (processStep cfg) s₀ s) {m n r : Nat} {live busy live' busy' : Int}
    (hm : s.threads[m]? = some (.run (.adjust (.grow 0 0 live busy)))) (hp : Pass cfg m s u n r)
    (hu : u.threads[m]? = some (.run (.adjust (.growUnlock live' busy')))) :
    (n : Int) ≤ min 10 (cfg.maxThrNum - s.shared.liveThrNum) ∧
    min 10 (cfg.maxThrNum - s.shared.liveThrNum - r) ≤ (n : Int) := by
  have hsound : ∀ {v}, Reach (processStep cfg) s v → Sound cfg v := fun hv => sound hle h0 (h.trans hv)
  obtain ⟨i, l, b, hprog, hat | ⟨-, hend⟩⟩ := hp.under hsound hm
  · rw [hu] at hat
    cases hat
  · obtain ⟨ids, hnodup, hlen, hheld⟩ := hprog.seen
    -- the slots that are not among the `r` have different counted workers
    have hcard : ids.length ≤ (countedIds u).card :=
      Multiset.card_le_card ((Multiset.le_iff_subset (Multiset.coe_nodup.2 hnodup)).2 hheld.counted)
    have hcounted : ((countedIds u).card : Int) = tally Loc.weight u.locs := card_tally_counted _
    have hlive := (hsound hp.reach).account.le
    have heq := hheld.live
    have hadded : n ≤ 10 := hprog.added
    have hroom := hprog.room
    have hten : (defaultThreadVary : Nat) = 10 := rfl
    simp only [Examines, not_and_or, not_lt, hten] at hend
    constructor
    · exact le_min (by omega) (by omega)
    · rcases hend with hend | hend | hend
      · exact (min_le_right _ _).trans (by omega)
      · exact (min_le_left _ _).trans (by omega)
      · exact (min_le_right _ _).trans (by omega)

/-! ## Two passes -/

/-- Where the manager is, if it runs. -/
def managerPc : Option (Thread Mutex Cond (Loc F A)) → Option AdjustPc
  | some (.run (.adjust pc)) => some pc
  | _ => none

theorem eq_of_managerPc {t : Option (Thread Mutex Cond (Loc F A))} {pc : AdjustPc} (h : managerPc t = some pc) :
    t = some (.run (.adjust pc)) := by
  unfold managerPc at h
  split at h
  · cases h; rfl
  · cases h

/-- A pass in which only the manager runs, with the ids that `pthread_create` gives. -/
def passAlone (cfg : Config) (m : Nat) :
    List (Outcome F A) → PoolState F A × Nat × Nat → Option (PoolState F A × Nat × Nat)
  | [], c => some c
  | x :: xs, (u, n, r) =>
    match managerPc u.threads[m]? with
    | some (.grow i add _ _) => (processStep cfg u (.step (.exec m x []))).bind fun u' => passAlone cfg m xs
        (u', n + (u'.threads.length - u.threads.length), r + if PassesOver cfg u i add then 1 else 0)
    | _ => none

theorem pass_of_passAlone {cfg : Config} {m : Nat} {s : PoolState F A} :
    ∀ {xs : List (Outcome F A)} {c c' : PoolState F A × Nat × Nat},
    passAlone cfg m xs c = some c' → Pass cfg m s c.1 c.2.1 c.2.2 → Pass cfg m s c'.1 c'.2.1 c'.2.2
  | [], c, c', h, hp => by
    cases h
    exact hp
  | x :: xs, (u, n, r), c', h, hp => by
    unfold passAlone at h
    split at h
    · rename_i i add live busy hat
      obtain ⟨u', hs, h⟩ := Option.bind_eq_some_iff.1 h
      exact pass_of_passAlone h (.turn hp (eq_of_managerPc hat) hs)
    · cases h

deriving instance DecidableEq for AdjustPc

/-- A pass in which only the manager runs, as it is evaluated. -/
theorem exists_pass {cfg : Config} {m n r : Nat} {s : PoolState F A} {pc : AdjustPc} {xs : List (Outcome F A)}
    (h : (passAlone cfg m xs (s, 0, 0)).map (fun c => (c.2, managerPc c.1.threads[m]?)) = some ((n, r), some pc)) :
    ∃ u, Pass cfg m s u n r ∧ u.threads[m]? = some (.run (.adjust pc)) := by
  obtain ⟨⟨u, n', r'⟩, hc, heq⟩ := Option.map_eq_some_iff.1 h
  obtain ⟨hnr, hpc⟩ := Prod.mk.inj heq
  obtain ⟨rfl, rfl⟩ := Prod.mk.inj hnr
  exact ⟨u, pass_of_passAlone hc .start, eq_of_managerPc hpc⟩

/-- Ten tasks, and the manager takes the lock to let the pool grow. -/
def tenTasks : List (Event Nat Nat) :=
  ((List.range 10).flatMap (fun k => callAdd (4 + k) ++ go (4 + k) 2) ++ go 2 10).map .step

theorem pass_created_tenTasks :
    let s := after (processStep ⟨1, 2, 10⟩) twoPool tenTasks
    ∃ u, Pass ⟨1, 2, 10⟩ 2 s u 1 0 ∧ min 10 (2 - s.shared.liveThrNum - 0) ≤ 1 := by
  intro s
  have hm : managerPc s.threads[2]? = some (.grow 0 0 1 0) := by decide +kernel
  obtain ⟨u, hp, hu⟩ := exists_pass (n := 1) (r := 0) (s := s) (show
    (passAlone ⟨1, 2, 10⟩ 2 [.none, .tid 2, .none] (s, 0, 0)).map (fun c => (c.2, managerPc c.1.threads[2]?)) =
      some ((1, 0), some (.growUnlock 1 0)) by decide +kernel)
  have hbounds := pass_created (by decide) twoPool_created (reach_after twoPool tenTasks) (eq_of_managerPc hm) hp hu
  exact ⟨u, hp, hbounds.2⟩

/-- A worker has counted itself out and has not terminated, and there are ten tasks when the manager takes
the lock to let the pool grow. -/
def retiringRun : List (Event Nat Nat) :=
  (lostRun ++ callAdd 16 ++ Action.exec 16 .none [14] :: go 16 1 ++
    (List.range 8).flatMap (fun k => callAdd (17 + k) ++ go (17 + k) 2) ++ go 2 10).map .step

/-- There is room for a worker, and the pass creates none. -/
theorem pass_falls_short : ¬ ∀ (cfg : Config) (s₀ s u : PoolState Nat Nat) (m n r : Nat) (live busy live' busy' : Int),
    cfg.minThrNum ≤ cfg.maxThrNum → Created cfg s₀ → Reach (processStep cfg) s₀ s →
    s.threads[m]? = some (.run (.adjust (.grow 0 0 live busy))) → Pass cfg m s u n r →
    u.threads[m]? = some (.run (.adjust (.growUnlock live' busy'))) →
    (n : Int) = min 10 (cfg.maxThrNum - s.shared.liveThrNum) := by
  intro h
  obtain ⟨s, hs⟩ : ∃ s, s = after (processStep ⟨1, 2, 10⟩) twoPool retiringRun := ⟨_, rfl⟩
  have hm : managerPc s.threads[2]? = some (.grow 0 0 1 0) ∧ s.shared.liveThrNum = 1 := by
    rw [hs]
    decide +kernel
  obtain ⟨u, hp, hu⟩ := exists_pass (n := 0) (r := 1) (s := s) (show
    (passAlone ⟨1, 2, 10⟩ 2 [.none, .none, .none] (s, 0, 0)).map (fun c => (c.2, managerPc c.1.threads[2]?)) =
      some ((0, 1), some (.growUnlock 1 0)) by rw [hs]; decide +kernel)
  have hfull :=
    h ⟨1, 2, 10⟩ twoPool s u 2 0 1 1 0 1 0 (by decide) twoPool_created (hs ▸ reach_after twoPool retiringRun)
    (eq_of_managerPc hm.1) hp hu
  rw [hm.2] at hfull
  revert hfull
  decide

end LinuxProgram.Threadpool
