/-
What becomes of a task that `addtask` stores otherwise. If its connection has a task already, it has
two at once. If its descriptor is not open, or there is nothing to read on it, one worker run alone
comes to a read that blocks or is from another connection: it calls the queued tasks in their order,
and as no client sends meanwhile, nothing comes for the one that has gone astray.
-/
import LinuxProgram.Simple.Dispatch
import LinuxProgram.Machine.Solo

namespace LinuxProgram.Simple

open LinuxProgram.Machine

instance : Inhabited Event := ⟨.none⟩

/-! ## The workers -/

def Loc.works : ServerLoc → Int
  | .worker .. | .callback .. => 1
  | _ => 0

/-- No statement starts or ends a worker. -/
theorem worksTally (cfg : Config) (N : Int) :
    Tallying (code cfg serverWorld) Loc.works Always fun _ n => n = N := by
  rintro (⟨t, pc⟩ | ⟨t, r⟩ | ⟨fd, evs, next, pc⟩ | k | pc)
  · cases pc with
    | test | shutdownTest => exact tallied_branch _ rfl rfl
    | jobTest =>
      refine tallied_same _ _ (fun s => ?_) fun _ _ _ h => h
      dsimp only
      split <;> rfl
    | exit => exact tallied_skip rfl
    | call => exact tallied_same _ _ (fun _ => rfl) fun _ _ _ h => h
    | exited => trivial
    | _ => exact rfl
  · simp only [code]
    split
    · intro i s x s' l' new n hf _ h
      obtain ⟨e, -, he⟩ := Option.map_eq_some_iff.1 hf
      cases he
      rw [tally_nil, add_zero]
      exact h
    · exact tallied_skip rfl
  · cases pc with
    | test =>
      refine tallied_same _ _ (fun s => ?_) fun _ _ _ h => h
      split <;> rfl
    | _ => exact rfl
  · simp only [code]
    split
    · exact tallied_skip rfl
    · intro i s x s' l' new n hf _ h
      obtain ⟨e, -, he⟩ := Option.map_eq_some_iff.1 hf
      cases he
      have hnew : tally Loc.works (e.2.2.map (Loc.caller : ServerPc → ServerLoc)) = 0 := by
        refine List.sum_eq_zero fun m hm => ?_
        obtain ⟨l, hl, rfl⟩ := List.mem_map.1 hm
        obtain ⟨k', -, rfl⟩ := List.mem_map.1 hl
        rfl
      rw [hnew, add_zero]
      exact h
    · trivial
  · cases pc with
    | broadcast => exact rfl
    | returned => trivial
    | _ => exact tallied_same _ _ (fun _ => rfl) fun _ _ _ h => h

theorem tally_works_start {cfg : Config} {s₀ : ServerState} (h0 : Started cfg s₀) :
    tally Loc.works s₀.locs = cfg.thrNum := by
  obtain ⟨tasks, copies, conns, hlen, rfl⟩ := h0.start
  have hall : ∀ ts : List Task, tally Loc.works (ts.map fun t => (.worker t .lock : ServerLoc)) = ts.length := by
    intro ts
    induction ts with
    | nil => rfl
    | cons t ts ih =>
      rw [List.map_cons, tally_cons, ih, List.length_cons, Nat.cast_succ, add_comm]
      rfl
  have := hall copies
  simp only [State.locs, createThreadpool, List.map_append, List.map_cons, List.map_nil, List.map_map,
    Function.comp_def, Thread.loc, tally_append, tally_cons, tally_nil, this, hlen]
  show (0 : Int) + (0 + 0) + cfg.thrNum = cfg.thrNum
  omega

/-- With a worker at the start there is one in every state. -/
theorem exists_worker {cfg : Config} {s₀ s : ServerState} (h0 : Started cfg s₀) (hthr : 0 < cfg.thrNum)
    (h : Reach (step (code cfg serverWorld)) s₀ s) : ∃ (j : Nat) (t : Thread Mutex Cond ServerLoc),
      s.threads[j]? = some t ∧ 0 < t.loc.works := by
  have htally : tally Loc.works s.locs = cfg.thrNum := (worksTally cfg cfg.thrNum).always (tally_works_start h0) h
  obtain ⟨l, hl, hw⟩ := exists_of_tally_pos (w := Loc.works) s.locs (by omega)
  obtain ⟨t, ht, rfl⟩ := List.mem_map.1 hl
  obtain ⟨j, hj⟩ := List.mem_iff_getElem?.1 ht
  exact ⟨j, t, hj, hw⟩

/-! ## A worker alone -/

/-- The task's descriptor was not open, or there is nothing to read on its connection. -/
def Astray (e : Kernel) (t : Task) : Prop := ∀ c, t.note = some c → e.readable c = false

/-- A run leads to a state without the property. -/
def Fails (cfg : Config) (s : ServerState) : Prop :=
  ∃ v, Reach (step (code cfg serverWorld)) s v ∧ ¬ OneTaskEachBelow cfg v

theorem unreadable_setConn {e : Kernel} {c c' : Nat} {f : Conn → Conn}
    (h : (e.conns c).unread = [] → (e.conns c).eof = false → (f (e.conns c)).unread = [] ∧ (f (e.conns c)).eof = false)
    (hr : e.readable c' = false) : (e.setConn c f).readable c' = false := by
  unfold Kernel.readable Kernel.setConn at *
  by_cases hc : c' = c
  · subst hc
    simp only [Bool.or_eq_false_iff, Bool.not_eq_false', List.isEmpty_iff, Function.update_self] at hr ⊢
    exact h hr.1 hr.2
  · simp only [Function.update_of_ne hc]
    exact hr

section Alone

variable {cfg : Config} {s : ServerState} {j : Nat} {sh : Sys Kernel (Option Nat)} {own : Mutex → Option Nat} {t : Task}

/-- One statement of the callback. -/
theorem callback_alone {r r' : TaskPc} {e' : Kernel} {run : Kernel → Event → Option (Kernel × TaskPc)}
    (h : Solo (code cfg serverWorld) j s sh own (.callback t r)) (hc : taskRun t r = .act run) {x : Event}
    (hf : run sh.env x = some (e', r')) :
    Solo (code cfg serverWorld) j s { sh with env := e' } own (.callback t r') := by
  have hcode : code cfg serverWorld (.callback t r) = .act fun _ s x => (run s.env x).map fun e =>
      ({ s with env := e.1 }, .callback t e.2, []) := by
    simp only [code, serverWorld, hc]
  have hact : ((run sh.env x).map fun e => (({ sh with env := e.1 } : Sys Kernel (Option Nat)),
      (.callback t e.2 : ServerLoc), ([] : List ServerLoc))) = some ({ sh with env := e' }, .callback t r', []) := by
    rw [hf]
    rfl
  exact h.act hcode hact

/-- A worker about to read finds its own connection with something to read, if the property holds. -/
theorem fails_or_reads (h : Solo (code cfg serverWorld) j s sh own (.callback t .read))
    (hlt : sh.pool.added.length < 2 ^ 31) :
    Fails cfg s ∨ ∃ c, t.note = some c ∧ sh.env.table t.fd = some c ∧ sh.env.readable c = true := by
  obtain ⟨u, hr, rfl, -, ht, -⟩ := h
  by_cases hP : OneTaskEachBelow cfg u
  · exact .inr ((hP hlt).reads t (List.mem_of_getElem? ht))
  · exact .inl ⟨u, hr, hP⟩

/-- Worker `j` has come back to the lock, with the tasks as they are and nothing more to read. -/
def Back (cfg : Config) (s : ServerState) (j : Nat) (sh : Sys Kernel (Option Nat)) (own : Mutex → Option Nat)
    (t : Task) : Prop :=
  ∃ e', Solo (code cfg serverWorld) j s { sh with env := e' } own (.worker t .lock) ∧
    ∀ c, sh.env.readable c = false → e'.readable c = false

theorem Back.of_env {e : Kernel} (h : Back cfg s j { sh with env := e } own t)
    (hq : ∀ c, sh.env.readable c = false → e.readable c = false) : Back cfg s j sh own t := by
  obtain ⟨e', hback, hq'⟩ := h
  exact ⟨e', hback, fun c hc => hq' c (hq c hc)⟩

theorem back_of_ended {b : Bool} (h : Solo (code cfg serverWorld) j s sh own (.callback t (.ended b))) :
    Back cfg s j sh own t :=
  ⟨sh.env, h.update rfl, fun _ hc => hc⟩

theorem back_of_write {buf : List UInt8} (h : Solo (code cfg serverWorld) j s sh own (.callback t (.write buf))) :
    Back cfg s j sh own t := by
  cases hfd : sh.env.table t.fd with
  | none => exact back_of_ended (callback_alone h rfl (x := .none) (by simp only [hfd]; rfl))
  | some c =>
    have hwritten := callback_alone h rfl (x := .none) (by simp only [hfd]; rfl)
    exact (back_of_ended hwritten).of_env fun c' hc' => unreadable_setConn (fun h1 h2 => ⟨h1, h2⟩) hc'

theorem back_of_ctlDel (h : Solo (code cfg serverWorld) j s sh own (.callback t .ctlDel)) : Back cfg s j sh own t := by
  refine (back_of_ended (callback_alone h rfl (x := .none) rfl)).of_env fun c hc => ?_
  split <;> exact hc

theorem back_of_close (h : Solo (code cfg serverWorld) j s sh own (.callback t .close)) : Back cfg s j sh own t :=
  (back_of_ctlDel (callback_alone h rfl (x := .none) rfl)).of_env fun _ hc => hc

/-- A worker in the callback comes back, unless it comes to a read that the property excludes. -/
theorem fails_or_back {r : TaskPc} (h : Solo (code cfg serverWorld) j s sh own (.callback t r))
    (hlt : sh.pool.added.length < 2 ^ 31) : Fails cfg s ∨ Back cfg s j sh own t := by
  cases r with
  | ended b => exact .inr (back_of_ended h)
  | write buf => exact .inr (back_of_write h)
  | ctlDel => exact .inr (back_of_ctlDel h)
  | close => exact .inr (back_of_close h)
  | read =>
    rcases fails_or_reads h hlt with hf | ⟨c, -, hfd, hr⟩
    · exact .inl hf
    · right
      by_cases hu : (sh.env.conns c).unread = []
      · have heof : (sh.env.conns c).eof = true := by simpa [Kernel.readable, hu] using hr
        exact back_of_close (callback_alone h rfl (x := .none) (by simp only [readTask, hfd, hu, heof, if_true]))
      · have hread := callback_alone h rfl (x := .none) (by simp only [readTask, hfd, hu, if_false]; rfl)
        exact (back_of_write hread).of_env fun c' hc' => unreadable_setConn (fun h1 h2 => ⟨by rw [h1]; rfl, h2⟩) hc'

/-- The pool when worker `j` has taken the first task and called it. -/
def Pool.call (cfg : Config) (j : Nat) (p : Pool (Option Nat)) : Pool (Option Nat) :=
  { p.take cfg j with called := p.called ++ [(j, p.front cfg)] }

theorem Pool.Jobs.call {p : Pool (Option Nat)} (h : p.Jobs cfg) (j : Nat) {k : Nat} {q : Task}
    (hq : (p.queued cfg)[k]? = some q) :
    0 < p.jobNum ∧ (p.call cfg j).Jobs cfg ∧ ∃ t₀ : Task, (p.front cfg).note = t₀.note ∧
      p.queued cfg = t₀ :: (p.call cfg j).queued cfg := by
  have hpos : 0 < p.jobNum := by
    have hlen := (List.getElem?_eq_some_iff.1 hq).1
    unfold Pool.queued at hlen
    rw [List.length_map, List.length_range] at hlen
    omega
  obtain ⟨⟨j1, j2, j3, j4, j5⟩, t₀, -, hnote, hqueued⟩ := h.take (show p.jobNum ≠ 0 by omega) j
  exact ⟨hpos, ⟨j1, j2, j3, j4, j5⟩, t₀, hnote, hqueued⟩

/-- A worker with the lock takes the first task and calls it. -/
theorem calls_front (h : Solo (code cfg serverWorld) j s sh (Function.update own .poolLock (some j)) (.worker t .test))
    (hfree : own .poolLock = none) (hpos : 0 < sh.pool.jobNum) (hopen : sh.pool.shutdown = false) :
    Solo (code cfg serverWorld) j s { sh with pool := sh.pool.call cfg j } own
      (.callback (sh.pool.front cfg) .read) := by
  have htest : (decide (sh.pool.jobNum ≤ 0) && !sh.pool.shutdown) = false := by
    rw [Bool.and_eq_false_iff, decide_eq_false_iff_not]
    exact .inl (by omega)
  have hne : sh.pool.jobNum ≠ 0 := by omega
  have htaken := (h.branch rfl htest).update rfl
  simp only [ne_eq, hne, not_false_eq_true, if_true] at htaken
  exact (((htaken.signal rfl).branch rfl hopen).unlock rfl hfree).update rfl

/-- A worker alone with the lock comes to the task astray at position `k` of the queue. -/
theorem fails_of_locked (hfree : own .poolLock = none) {q : Task} (k : Nat)
    (h : Solo (code cfg serverWorld) j s sh (Function.update own .poolLock (some j)) (.worker t .test))
    (hJ : sh.pool.Jobs cfg) (hopen : sh.pool.shutdown = false) (hlt : sh.pool.added.length < 2 ^ 31)
    (hq : (sh.pool.queued cfg)[k]? = some q) (hastray : Astray sh.env q) : Fails cfg s := by
  -- each task in front of it is called first, and brings it one place forward
  induction k generalizing sh t with
  | zero =>
    obtain ⟨hpos, -, t₀, hnote, hqueued⟩ := hJ.call j hq
    rw [hqueued] at hq
    cases hq
    rcases fails_or_reads (calls_front h hfree hpos hopen) hlt with hf | ⟨c, hc, -, hr⟩
    · exact hf
    · rw [hastray c (hnote.symm.trans hc)] at hr
      cases hr
  | succ k ih =>
    obtain ⟨hpos, hJ', t₀, hnote, hqueued⟩ := hJ.call j hq
    rw [hqueued, List.getElem?_cons_succ] at hq
    rcases fails_or_back (calls_front h hfree hpos hopen) hlt with hf | ⟨e', hback, hquiet⟩
    · exact hf
    · exact ih (hback.lock rfl hfree) hJ' hopen hlt hq fun c hc => hquiet c (hastray c hc)

end Alone

/-! ## With the lock free -/

theorem Fails.of_step {cfg : Config} {s s' : ServerState} {a : Action Event}
    (hs : step (code cfg serverWorld) s a = some s') (h : Fails cfg s') : Fails cfg s := by
  obtain ⟨v, hr, hv⟩ := h
  exact ⟨v, Reach.cons hs hr, hv⟩

section Free

variable {cfg : Config} {s₀ s : ServerState} {k : Nat} {q : Task}

/-- A woken worker takes the lock. -/
theorem fails_of_woken (h0 : Started cfg s₀) (h : Reach (step (code cfg serverWorld)) s₀ s)
    (hfree : s.owner .poolLock = none) (hlt : s.shared.pool.added.length < 2 ^ 31)
    (hq : (s.shared.pool.queued cfg)[k]? = some q) (hastray : Astray s.shared.env q) {j : Nat} {t : Task}
    (hj : s.threads[j]? = some (.woken .poolLock (.worker t .test))) : Fails cfg s := by
  let v : ServerState := { s with
    owner := Function.update s.owner .poolLock (some j)
    threads := s.threads.set j (.run (.worker t .test)) }
  have hs : step (code cfg serverWorld) s (.exec j .none []) = some v := by
    simp only [step, hj, State.acquire]
    exact if_pos hfree
  refine Fails.of_step hs ?_
  obtain ⟨hJ, -⟩ := (serverRing h0 h).shared.jobs hlt
  have hrun : v.threads[j]? = some (.run (.worker t .test)) := set_getElem?_self hj _
  exact fails_of_locked hfree k (Solo.start (code cfg serverWorld) hrun) hJ (openInv h0 h).shared hlt hq hastray

/-- With a task astray in the queue and the lock free, some worker brings the property down. -/
theorem fails_of_free (h0 : Started cfg s₀) (hthr : 0 < cfg.thrNum) (h : Reach (step (code cfg serverWorld)) s₀ s)
    (hfree : s.owner .poolLock = none) (hlt : s.shared.pool.added.length < 2 ^ 31)
    (hq : (s.shared.pool.queued cfg)[k]? = some q) (hastray : Astray s.shared.env q) : Fails cfg s := by
  obtain ⟨j, th, hj, hw⟩ := exists_worker h0 hthr h
  have hm := h0.mutexInv h
  have hopen := openInv h0 h
  obtain ⟨hJ, -⟩ := (serverRing h0 h).shared.jobs hlt
  cases th with
  | blocked c m l =>
    obtain ⟨l₀, hc⟩ := hm.blocked j c m l hj
    obtain ⟨rfl, ⟨t, -, -, rfl⟩ | ⟨fd, evs, next, -, -, rfl⟩⟩ := wait_cases hc
    · -- a worker that waits may wake up without a signal
      have hs : step (code cfg serverWorld) s (.spurious j) = some _ := step_spurious hj
      exact Fails.of_step hs (fails_of_woken h0 (h.snoc hs) hfree hlt hq hastray (set_getElem?_self hj _))
    · cases hw
  | woken m l =>
    obtain ⟨l₀, c, hc⟩ := hm.woken j m l hj
    obtain ⟨rfl, ⟨t, -, -, rfl⟩ | ⟨fd, evs, next, -, -, rfl⟩⟩ := wait_cases hc
    · exact fails_of_woken h0 h hfree hlt hq hastray hj
    · cases hw
  | run l =>
    have hstart := Solo.start (code cfg serverWorld) hj
    -- back from a task, the worker goes for the lock
    have hback : ∀ {sh : Sys Kernel (Option Nat)} {t : Task}, Back cfg s j sh s.owner t →
        sh.pool.queued cfg = s.shared.pool.queued cfg → sh.env = s.shared.env → sh.pool.Jobs cfg →
        sh.pool.shutdown = false → sh.pool.added.length < 2 ^ 31 → Fails cfg s := by
      rintro sh t ⟨e', hsolo, hquiet⟩ e1 e2 hJ' hopen' hlt'
      refine fails_of_locked hfree k (hsolo.lock rfl hfree) hJ' hopen' hlt' (e1 ▸ hq) fun c hc => hquiet c ?_
      rw [e2]
      exact hastray c hc
    rcases l with ⟨t, pc⟩ | ⟨t, r⟩ | ⟨fd, evs, next, pc⟩ | n | pc
    · have hheld := hm.free hfree hj
      have hstays := hopen.run j _ hj
      cases pc with
      | lock => exact fails_of_locked hfree k (hstart.lock rfl hfree) hJ hopen.shared hlt hq hastray
      | call =>
        rcases fails_or_back (hstart.update rfl) hlt with hf | hb
        · exact hf
        · obtain ⟨j1, j2, j3, j4, j5⟩ := hJ
          exact hback hb rfl rfl ⟨j1, j2, j3, j4, j5⟩ hopen.shared hlt
      | exit | exited => cases hstays
      | _ => cases hheld
    · rcases fails_or_back hstart hlt with hf | hb
      · exact hf
      · exact hback hb rfl rfl hJ hopen.shared hlt
    · cases hw
    · cases hw
    · cases hw

end Free

/-! ## The condition -/

section Condition

variable {cfg : Config} {s₀ s u : ServerState}

/-- A task that is stored joins the others. -/
theorem outstanding_put {i fd evs : Nat} {next : ServerPc} {sh : Sys Kernel (Option Nat)}
    {own : Mutex → Option Nat} {q : Task} (hi : s.threads[i]? = some (.run (.add fd evs next .test)))
    (hq : sh.pool.queued cfg = s.shared.pool.queued cfg ++ [q]) :
    (outstanding cfg ⟨sh, own, s.threads.set i (.run (.add fd evs next .unlock))⟩ : Multiset Task) =
      outstanding cfg s + {q} := by
  obtain ⟨n, h1, h2⟩ := tally_split (fun l : ServerLoc => (l.inHand : Multiset Task))
    (show s.locs[i]? = some (.add fd evs next .test) by simp [State.locs, hi, Thread.loc])
  have hsum : ∀ ls : List ServerLoc,
      (ls.flatMap Loc.inHand : Multiset Task) = tally (fun l => (l.inHand : Multiset Task)) ls := by
    intro ls
    induction ls with
    | nil => rfl
    | cons l ls ih => rw [List.flatMap_cons, ← Multiset.coe_add, ih, tally_cons]
  have hlocs : State.locs ⟨sh, own, s.threads.set i (.run (.add fd evs next .unlock))⟩ =
      s.locs.set i (.add fd evs next .unlock) := List.map_set ..
  unfold outstanding
  rw [← Multiset.coe_add, ← Multiset.coe_add, hsum, hsum, hlocs, h1, h2, hq, ← Multiset.coe_add, Multiset.coe_singleton,
    add_right_comm]
  rfl

/-- A second task for an open connection. -/
theorem not_single {fd c : Nat} {q q' : Task} (hfd : u.shared.env.table fd = some c)
    (ho : (outstanding cfg u : Multiset Task) = outstanding cfg s + {q}) (hq : q.note = some c)
    (hmem : q' ∈ outstanding cfg s) (hq' : q'.note = some c) : ¬ OneTaskEach cfg u := by
  intro h
  have hle : (outstanding cfg u : Multiset Task).countP (fun t => (t.note == some c) = true) ≤ 1 := by
    rw [Multiset.coe_countP, List.countP_eq_length_filter]
    simpa only [Bool.decide_eq_true] using h.single fd c hfd
  rw [ho, Multiset.countP_add, Multiset.coe_countP] at hle
  have h1 : 0 < (outstanding cfg s).countP fun t => (t.note == some c) = true :=
    List.countP_pos_iff.2 ⟨q', hmem, by simp [hq']⟩
  have h2 : ({q} : Multiset Task).countP (fun t => (t.note == some c) = true) = 1 :=
    Multiset.countP_eq_card.2 fun t ht => by rw [Multiset.mem_singleton.1 ht, hq]; exact beq_self_eq_true _
  omega

/-- `addtask` stores a task for a descriptor that is not open, or for a connection that has nothing to
read or has a task. -/
theorem fails_of_put (h0 : Started cfg s₀) (hthr : 0 < cfg.thrNum)
    (h : Reach (step (code cfg serverWorld)) s₀ s) {i : Nat} {x : Event} {ws : List Nat}
    (hs : step (code cfg serverWorld) s (.exec i x ws) = some u)
    (hbad : ¬ AddsIdle cfg s (.exec i x ws)) : Fails cfg u := by
  simp only [AddsIdle] at hbad
  split at hbad
  · rename_i fd evs next hi
    simp only [Classical.not_imp, not_exists, not_and] at hbad
    obtain ⟨hroom, hlt, hno⟩ := hbad
    obtain ⟨hJ, hpush⟩ := (serverRing h0 h).shared.jobs (by omega)
    obtain ⟨-, q, -, hnote, hqueued⟩ := hJ.put hroom (by omega) fd evs (s.shared.env.table fd)
    have hstored : u = ⟨{ s.shared with pool := s.shared.pool.put cfg fd evs (s.shared.env.table fd) }, s.owner,
        s.threads.set i (.run (.add fd evs next .unlock))⟩ := by
      rw [step_update hi rfl] at hs
      have hnot : ¬ s.shared.pool.jobNum ≥ cfg.maxJobNum := by omega
      simp only [hnot, if_false, Option.some.injEq] at hs
      exact hs.symm
    have hadded : u.shared.pool.added.length < 2 ^ 31 := by
      rw [hstored]
      simp only [Pool.put, List.length_append, List.length_singleton]
      exact hlt
    by_cases hdup : ∃ c, s.shared.env.table fd = some c ∧ ∃ q' ∈ outstanding cfg s, q'.note = some c
    · obtain ⟨c, hc, q', hmem, hq'⟩ := hdup
      refine ⟨u, Reach.refl u, fun hP => ?_⟩
      subst hstored
      exact absurd (hP hadded) (not_single hc (outstanding_put hi hqueued) (hnote.trans hc) hmem hq')
    · -- the lock is given back, and a worker comes to the task
      have hu : u.threads[i]? = some (.run (.add fd evs next .unlock)) := by
        rw [hstored]
        exact set_getElem?_self hi _
      let v : ServerState := { u with
        owner := Function.update u.owner .poolLock none
        threads := u.threads.set i (.run (.add fd evs next .signal)) }
      have hv : step (code cfg serverWorld) u (.exec i .none []) = some v := step_run hu ..
      have hfree : v.owner .poolLock = none := by simp only [v, Function.update_self]
      have hlast : (v.shared.pool.queued cfg)[(s.shared.pool.queued cfg).length]? = some q := by
        show (u.shared.pool.queued cfg)[_]? = some q
        rw [hstored, hqueued, List.getElem?_concat_length]
      refine Fails.of_step hv (fails_of_free h0 hthr ((h.snoc hs).snoc hv) hfree hadded hlast fun c hc => ?_)
      show u.shared.env.readable c = false
      rw [hnote] at hc
      rw [hstored]
      by_contra hr
      exact hno c hc (by simpa using hr) fun q' hmem hq' => hdup ⟨c, hc, q', hmem, hq'⟩
  · exact absurd trivial hbad

end Condition

/-- Each open connection has at most one task, and every task reads from its own connection, exactly in
the runs in which `addtask` stores tasks for idle connections. -/
theorem oneTaskEach_exact (cfg : Config) (s₀ : ServerState) (h0 : Started cfg s₀) (hthr : 0 < cfg.thrNum) :
    ExactFor (step (code cfg serverWorld)) (AddsIdle cfg) (OneTaskEachBelow cfg) s₀ where
  safe _ h := oneTaskEach_of_addsIdle h0 h
  needed _ a _ h hs hbad := by
    cases a with
    | spurious i => exact absurd trivial hbad
    | exec i x ws => exact fails_of_put h0 hthr h hs hbad

/-! ## Runs -/

/-- The server with one worker, thread 2; thread 0 is the clients and thread 1 is `main`. -/
def oneServer : ServerState :=
  createThreadpool (fun _ => ⟨0, .unset, 0, 0, 0, none⟩) [⟨0, .unset, 0, 0, 0, none⟩]
    ⟨fun _ => none, [], fun _ => ⟨[], false, []⟩, 0, []⟩ [.caller .clients, .caller .epollWait]

theorem oneServer_started : Started ⟨1, 100⟩ oneServer := ⟨⟨_, _, _, rfl, rfl⟩⟩

def goes (i n : Nat) : List (Action Event) := List.replicate n (.exec i .none [])

/-- A client connects and is accepted as descriptor 5. -/
def acceptRun : List (Action Event) :=
  [.exec 0 .connect [], .exec 1 (.ready [lfd]) []] ++ goes 1 1 ++ [.exec 1 (.fd 5) []] ++ goes 1 2

/-- Descriptor 5 is reported and `main` adds a task for it. -/
def reportRun : List (Action Event) := .exec 1 (.ready [5]) [] :: goes 1 6

/-- The worker has not read yet, and `epoll_wait` reports descriptor 5 again. -/
def twoTasksRun : List (Action Event) := acceptRun ++ [.exec 0 (.send 0 [104]) []] ++ reportRun ++ reportRun

/-- The slow worker leaves two tasks for one connection in the queue. -/
theorem second_report_second_task : ¬ ∀ (cfg : Config) (s₀ s : ServerState), Started cfg s₀ →
    Reach (step (code cfg serverWorld)) s₀ s → OneTaskEach cfg s := by
  intro h
  have := (h ⟨1, 100⟩ oneServer _ oneServer_started (reach_after oneServer twoTasksRun)).single 5 0 (by decide +kernel)
  exact absurd this (by decide +kernel)

/-- Two bytes sent one after the other are each reported, read and written back by a task of their own.
A third byte is reported while the task before it still runs, and added after its end. Then the client
closes, its last task closes descriptor 5, and the next client is accepted on it and sends. -/
def idleRun : List (Action Event) :=
  acceptRun ++ [.exec 0 (.send 0 [104]) []] ++ reportRun ++ goes 2 10 ++
    [.exec 0 (.send 0 [105]) []] ++ reportRun ++ goes 2 8 ++
    [.exec 0 (.send 0 [106]) [], .exec 1 (.ready [5]) []] ++ goes 2 2 ++ goes 1 6 ++ goes 2 10 ++
    [.exec 0 (.close 0) []] ++ reportRun ++ goes 2 11 ++
    acceptRun ++ [.exec 0 (.send 1 [107]) []] ++ reportRun ++ goes 2 7

theorem oneTaskEach_exact_oneServer :
    ExactFor (step (code ⟨1, 100⟩ serverWorld)) (AddsIdle ⟨1, 100⟩) (OneTaskEachBelow ⟨1, 100⟩) oneServer ∧
    let s := after (stepIf (step (code ⟨1, 100⟩ serverWorld)) (AddsIdle ⟨1, 100⟩)) oneServer idleRun
    (s.shared.env.conns 0).echoed = [104, 105, 106] ∧ s.shared.env.table 5 = some 1 ∧
      (outstanding ⟨1, 100⟩ s).map (·.note) = [some 1] ∧ OneTaskEach ⟨1, 100⟩ s := by
  have hexact := oneTaskEach_exact ⟨1, 100⟩ oneServer oneServer_started (by decide)
  refine ⟨hexact, by decide +kernel, by decide +kernel, by decide +kernel, ?_⟩
  exact hexact.safe _ (ReachWith.of_stepIf (reach_after oneServer idleRun)) (by decide +kernel)

end LinuxProgram.Simple
