/-
What the statements of the pool do to the counters and to the table of the threads, said once for all
that is counted: `Books` lists the changes, and `tallying_of_books` turns a relation that they keep into
one that every run keeps.
-/
import LinuxProgram.Threadpool.Locks
import LinuxProgram.Machine.Tally

namespace LinuxProgram.Threadpool

open LinuxProgram.Machine

variable {F A : Type}

/-! ## What a worker counts for -/

/-- A worker on its way out: it takes no task any more. -/
def WorkerPc.retired : WorkerPc F A → Bool
  | .exitUnlock | .shutdownUnlock | .exiting | .exited => true
  | _ => false

/-- The location of a worker that has not retired. -/
def Loc.serving : Loc F A → Bool
  | .worker _ pc => !pc.retired
  | _ => false

/-- Between the two changes of `busy_thr_num`. -/
def WorkerPc.busy : WorkerPc F A → Bool
  | .busyUnlock _ | .call _ | .running _ | .idleLock | .busyDec => true
  | _ => false

def Loc.busy : Loc F A → Bool
  | .worker _ pc => pc.busy
  | _ => false

/-- A worker that takes no task any more. -/
def Loc.retired : Loc F A → Bool
  | .worker _ pc => pc.retired
  | _ => false

/-- The id of a worker that has not terminated. -/
def Loc.ids : Loc F A → Multiset Nat
  | .worker _ .exited => 0
  | .worker tid _ => {tid}
  | _ => 0

/-- Two locations of a thread that count for the same. -/
structure Kin (l l' : Loc F A) : Prop where
  serving : l'.serving = l.serving
  busy : l'.busy = l.busy
  retired : l'.retired = l.retired
  ids : l'.ids = l.ids

/-- A statement on mutexes and condition variables. -/
theorem kin_next {cfg : Config} {l l' : Loc F A} (h : (code cfg l).next = some l') : Kin l l' := by
  rcases l with ⟨tid, pc⟩ | ⟨task, pc⟩ | pc | pc | _
  · cases pc <;> cases h <;> exact ⟨rfl, rfl, rfl, rfl⟩
  · cases pc <;> cases h <;> exact ⟨rfl, rfl, rfl, rfl⟩
  · cases pc with
    | signal k =>
      simp only [code, adjustThread] at h
      split at h <;> cases h
      exact ⟨rfl, rfl, rfl, rfl⟩
    | _ => cases h <;> exact ⟨rfl, rfl, rfl, rfl⟩
  · cases pc <;> cases h <;> exact ⟨rfl, rfl, rfl, rfl⟩
  · cases h

/-! ## The books -/

/-- The fields are the same in both states. -/
structure SameBooks (p p' : Pool F A) : Prop where
  live : p'.liveThrNum = p.liveThrNum
  busy : p'.busyThrNum = p.busyThrNum
  waitExit : p'.waitExitThrNum = p.waitExitThrNum
  threads : p'.threads = p.threads
  alive : p'.alive = p.alive
  shutdown : p'.shutdown = p.shutdown

/-- What a statement can do to the counters and to the table of the threads. -/
inductive Books (cfg : Config) (p p' : Pool F A) : Loc F A → Loc F A → List (Loc F A) → Prop where
  | keep {l l' new} (hp : SameBooks p p') (hl : Kin l l') (hnew : ∀ n ∈ new, ∃ task, n = .add task .lock) :
      Books cfg p p' l l' new
  /-- A woken worker finds a request and does not retire. -/
  | stay {tid} (hwait : 0 < p.waitExitThrNum) (hp : SameBooks { p with waitExitThrNum := p.waitExitThrNum - 1 } p') :
      Books cfg p p' (.worker tid .exitTest) (.worker tid .test) []
  | retire {tid} (hwait : 0 < p.waitExitThrNum) (hmin : cfg.minThrNum < p.liveThrNum)
      (hp : SameBooks { p with waitExitThrNum := p.waitExitThrNum - 1, liveThrNum := p.liveThrNum - 1 } p') :
      Books cfg p p' (.worker tid .exitTest) (.worker tid .exitUnlock) []
  | leave {tid} (hshut : p.shutdown = true) (hp : SameBooks p p') :
      Books cfg p p' (.worker tid .shutdownTest) (.worker tid .shutdownUnlock) []
  | exit {tid} (hp : SameBooks { p with alive := p.alive.erase tid } p') :
      Books cfg p p' (.worker tid .exiting) (.worker tid .exited) []
  | begin {tid task} (hp : SameBooks { p with busyThrNum := p.busyThrNum + 1 } p') :
      Books cfg p p' (.worker tid (.busyInc task)) (.worker tid (.busyUnlock task)) []
  | finish {tid} (hp : SameBooks { p with busyThrNum := p.busyThrNum - 1 } p') :
      Books cfg p p' (.worker tid .busyDec) (.worker tid .idleUnlock) []
  | create {i tid add live busy} (hi : i < cfg.maxThrNum) (hlive : p.liveThrNum < cfg.maxThrNum)
      (hfree : p.slotFree i = true)
      (htid : tid ≠ 0) (halive : p.isThreadAlive tid = false) (hp : p' = p.create i tid) :
      Books cfg p p' (.adjust (.grow i add live busy)) (.adjust (.grow (i + 1) (add + 1) live busy)) [.worker tid .lock]
  | request (hp : SameBooks { p with waitExitThrNum := defaultThreadVary } p') :
      Books cfg p p' (.adjust .shrinkSet) (.adjust .shrinkUnlock) []
  | close (hp : SameBooks { p with shutdown := true } p') :
      Books cfg p p' (.destroy .store) (.destroy (.loop 0)) []

theorem SameBooks.refl (p : Pool F A) : SameBooks p p := ⟨rfl, rfl, rfl, rfl, rfl, rfl⟩

/-- A statement that the books do not show. -/
theorem Books.unseen {cfg : Config} {p p' : Pool F A} {l l' : Loc F A} (hp : SameBooks p p') (hl : Kin l l') :
    Books cfg p p' l l' [] :=
  .keep hp hl fun _ h => by cases h

@[simp] theorem Pool.exitTest_shutdown (cfg : Config) (p : Pool F A) : (p.exitTest cfg).shutdown = p.shutdown := by
  unfold Pool.exitTest; split <;> rfl

theorem books_exitTest (cfg : Config) (tid : Nat) (p : Pool F A) :
    Books cfg p (p.exitTest cfg) (.worker tid .exitTest)
      (.worker tid (if p.retires cfg then .exitUnlock else .test)) [] := by
  unfold Pool.exitTest Pool.retires
  by_cases hwait : p.waitExitThrNum > 0
  · by_cases hmin : p.liveThrNum > (cfg.minThrNum : Int)
    · simp only [hwait, hmin, decide_true, Bool.and_true, if_true]
      exact .retire hwait hmin (.refl _)
    · simp only [hwait, hmin, decide_true, decide_false, Bool.and_false, if_true, if_false, Bool.false_eq_true]
      exact .stay hwait (.refl _)
  · simp only [hwait, decide_false, Bool.false_and, if_false, Bool.false_eq_true]
    exact .unseen (.refl p) ⟨rfl, rfl, rfl, rfl⟩

theorem booked (cfg : Config) (l : Loc F A) : (code cfg l).Acts fun _ p p' l' new => Books cfg p p' l l' new := by
  rcases l with ⟨tid, pc⟩ | ⟨task, pc⟩ | pc | pc | _
  · cases pc with
    | exitTest => exact acts_update _ _ fun i p => books_exitTest cfg tid p
    | shutdownTest =>
      refine acts_update _ _ fun i p => ?_
      split
      · rename_i hs
        exact .leave hs (.refl p)
      · exact .unseen (.refl p) ⟨rfl, rfl, rfl, rfl⟩
    | test =>
      refine acts_update _ _ fun i p => ?_
      split <;> exact .unseen (.refl p) ⟨rfl, rfl, rfl, rfl⟩
    | exiting => exact acts_update _ _ fun i p => .exit (.refl _)
    | busyInc => exact acts_update _ _ fun i p => .begin (.refl _)
    | busyDec => exact acts_update _ _ fun i p => .finish (.refl _)
    | take | call | running =>
      exact acts_update _ _ fun i p => .unseen ⟨rfl, rfl, rfl, rfl, rfl, rfl⟩ ⟨rfl, rfl, rfl, rfl⟩
    | _ => trivial
  · cases pc with
    | test | shutdownTest =>
      refine acts_update _ _ fun i p => ?_
      split <;> exact .unseen (.refl p) ⟨rfl, rfl, rfl, rfl⟩
    | put => exact acts_update _ _ fun i p => .unseen ⟨rfl, rfl, rfl, rfl, rfl, rfl⟩ ⟨rfl, rfl, rfl, rfl⟩
    | _ => trivial
  · cases pc with
    | grow k add live busy =>
      intro i p x p' l' new h
      rcases growStep_cases h with ⟨rfl, rfl, rfl | rfl⟩ | ⟨tid, hi, -, hlive, hfree, htid, halive, hp, rfl, rfl⟩
      · exact .unseen (.refl _) ⟨rfl, rfl, rfl, rfl⟩
      · exact .unseen (.refl _) ⟨rfl, rfl, rfl, rfl⟩
      · exact .create hi hlive hfree htid halive hp
    | signal k =>
      simp only [code, adjustThread]
      split
      · trivial
      · exact acts_update _ _ fun i p => .unseen (.refl p) ⟨rfl, rfl, rfl, rfl⟩
    | shrinkSet => exact acts_update _ _ fun i p => .request (.refl _)
    | loop | growTest | shrinkTest =>
      refine acts_update _ _ fun i p => ?_
      split <;> exact .unseen (.refl p) ⟨rfl, rfl, rfl, rfl⟩
    | sleep | read | readBusy => exact acts_update _ _ fun i p => .unseen (.refl p) ⟨rfl, rfl, rfl, rfl⟩
    | _ => trivial
  · cases pc with
    | store => exact acts_update _ _ fun i p => .close (.refl _)
    | loop =>
      refine acts_update _ _ fun i p => ?_
      split <;> exact .unseen (.refl p) ⟨rfl, rfl, rfl, rfl⟩
    | bcast | lockLock | lockCounter | returned => trivial
    | _ => exact acts_update _ _ fun i p => .unseen ⟨rfl, rfl, rfl, rfl, rfl, rfl⟩ ⟨rfl, rfl, rfl, rfl⟩
  · intro i p x p' l' new h
    obtain ⟨rfl, rfl, task, rfl⟩ := client_acts cfg i p x p' l' new h
    exact .keep (.refl p') ⟨rfl, rfl, rfl, rfl⟩ fun n hn => ⟨task, List.mem_singleton.1 hn⟩

/-- A weight that sees no more than the kind of a location: a relation that the books keep, the statements keep. -/
theorem tallying_of_books {N : Type} [AddCommMonoid N] {cfg : Config} {w : Loc F A → N}
    {K : Loc F A → Pool F A → N → Outcome F A → Prop} {I : Pool F A → N → Prop} (hw : ∀ {l l'}, Kin l l' → w l' = w l)
    (h : ∀ {l p p' l' new x} (n : N), Books cfg p p' l l' new → K l p (n + w l) x → I p (n + w l) →
      I p' (n + w l' + tally w new)) : Tallying (code (F := F) (A := A) cfg) w K I := by
  intro l
  have hnext : ∀ {l'}, (code cfg l).next = some l' → w l' = w l := fun hn => hw (kin_next hn)
  cases hc : code cfg l with
  | act f =>
    intro i p x p' l' new n hf hK hI
    exact h n ((booked cfg l).of hc hf) hK hI
  | halt => trivial
  | _ => exact hnext (by rw [hc]; rfl)

/-- Calls of `threadpool_add` weigh nothing. -/
theorem tally_calls {N : Type} [AddCommMonoid N] {w : Loc F A → N} (hw : ∀ task, w (.add task .lock) = 0)
    {new : List (Loc F A)} (h : ∀ n ∈ new, ∃ task, n = .add task .lock) : tally w new = 0 := by
  induction new with
  | nil => rfl
  | cons l new ih =>
    obtain ⟨task, rfl⟩ := h l List.mem_cons_self
    rw [tally_cons, hw, ih fun n hn => h n (List.mem_cons_of_mem _ hn), add_zero]

end LinuxProgram.Threadpool
