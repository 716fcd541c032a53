/-
The thread pool of `threadpool.c`: the fields of `threadpool_t`, and the statements of
`threadpool_add`, `threadpool_thread`, `adjust_thread`, `threadpool_destroy` and
`threadpool_free` as a table over their program counters. A straight-line block under the pool
lock is one statement; every lock, unlock, wait, signal, broadcast and every access outside the
lock is a statement of its own.

The `malloc`, `pthread_*_init` and `pthread_create` calls are taken to succeed, as are the calls
on the mutexes; the `printf` lines are left out.
-/
import LinuxProgram.Machine.Outline

namespace LinuxProgram.Threadpool

open LinuxProgram.Machine

/-- `threadpool_task_t`; `none` is the null argument. -/
structure ThreadpoolTask (F A : Type) where
  function : F
  arg : Option A
  deriving DecidableEq, Repr

/-- The arguments of `threadpool_create`, kept in fields of the pool that nothing assigns later. -/
structure Config where
  minThrNum : Nat
  maxThrNum : Nat
  queueMaxSize : Nat

/-- `MIN_WAIT_TASK_NUM` -/
def minWaitTaskNum : Int := 10

/-- `DEFAULT_THREAD_VARY` -/
def defaultThreadVary : Nat := 10

inductive Mutex where
  | lock
  | threadCounter
  deriving DecidableEq, Repr

inductive Cond where
  | queueNotFull
  | queueNotEmpty
  deriving DecidableEq, Repr

/-- What `threadpool_free` destroys or frees. -/
inductive Resource where
  | taskQueue
  | threads
  | lock
  | threadCounter
  | queueNotEmpty
  | queueNotFull
  | pool
  deriving DecidableEq, Repr

/-- The fields of `threadpool_t` that change, the kernel's record of the unterminated threads, what
`threadpool_free` has released, and the history of the tasks: put in by which call of
`threadpool_add`, taken out and invoked by which worker. -/
structure Pool (F A : Type) where
  threads : List Nat
  taskQueue : Nat → ThreadpoolTask F A
  liveThrNum : Int
  busyThrNum : Int
  waitExitThrNum : Int
  queueFront : Nat
  queueRear : Nat
  queueSize : Int
  shutdown : Bool
  alive : List Nat
  released : List Resource
  added : List (Nat × ThreadpoolTask F A)
  taken : List (Nat × ThreadpoolTask F A)
  called : List (Nat × ThreadpoolTask F A)

/-- Where a worker is in `threadpool_thread`; after `take` it carries its local `task`. -/
inductive WorkerPc (F A : Type) where
  | lock
  | test
  | condWait
  | exitTest
  | exitUnlock
  | shutdownTest
  | shutdownUnlock
  | exiting
  | exited
  | take
  | notFull (task : ThreadpoolTask F A)
  | unlock (task : ThreadpoolTask F A)
  | busyLock (task : ThreadpoolTask F A)
  | busyInc (task : ThreadpoolTask F A)
  | busyUnlock (task : ThreadpoolTask F A)
  | call (task : ThreadpoolTask F A)
  | running (task : ThreadpoolTask F A)
  | idleLock
  | busyDec
  | idleUnlock

/-- Where a call of `threadpool_add` is. -/
inductive AddPc where
  | lock
  | test
  | condWait
  | shutdownTest
  | shutdownBroadcast
  | shutdownUnlock
  | put
  | signal
  | unlock
  | returned (ret : Int)

/-- Where the manager is in `adjust_thread`, with its locals `queue_size`, `live_thr_num`,
`busy_thr_num`, `i` and `add`. -/
inductive AdjustPc where
  | loop
  | sleep
  | lock
  | read
  | unlock (queueSize liveThrNum : Int)
  | counterLock (queueSize liveThrNum : Int)
  | readBusy (queueSize liveThrNum : Int)
  | counterUnlock (queueSize liveThrNum busyThrNum : Int)
  | growTest (queueSize liveThrNum busyThrNum : Int)
  | growLock (liveThrNum busyThrNum : Int)
  | grow (i add : Nat) (liveThrNum busyThrNum : Int)
  | growUnlock (liveThrNum busyThrNum : Int)
  | shrinkTest (liveThrNum busyThrNum : Int)
  | shrinkLock
  | shrinkSet
  | shrinkUnlock
  | signal (i : Nat)
  | returned

/-- Where the call of `threadpool_destroy` is; from `freeQueue` on it is in `threadpool_free`. -/
inductive DestroyPc where
  | store
  | loop (i : Nat)
  | bcast (i : Nat)
  | freeQueue
  | freeThreads
  | lockLock
  | destroyLock
  | lockCounter
  | destroyCounter
  | destroyNotEmpty
  | destroyNotFull
  | freePool
  | returned

/-- A control location: a worker with its thread id, a call of `threadpool_add` with its task, the
manager, the call of `threadpool_destroy`, or the program that makes the calls. -/
inductive Loc (F A : Type) where
  | worker (tid : Nat) (pc : WorkerPc F A)
  | add (task : ThreadpoolTask F A) (pc : AddPc)
  | adjust (pc : AdjustPc)
  | destroy (pc : DestroyPc)
  | client

/-- The outcomes left to the environment: the task of a new call, the id of a new thread. -/
inductive Outcome (F A : Type) where
  | none
  | task (t : ThreadpoolTask F A)
  | tid (n : Nat)

section Code

variable {F A : Type}

abbrev PoolInstr (F A : Type) := Instr Mutex Cond (Pool F A) (Outcome F A) (Loc F A)

abbrev PoolState (F A : Type) := State Mutex Cond (Pool F A) (Loc F A)

namespace Pool

/-- Lines 154 to 164 of `threadpool_add`, for the call that is thread `i`. -/
def put (cfg : Config) (i : Nat) (task : ThreadpoolTask F A) (p : Pool F A) : Pool F A :=
  let slot := p.taskQueue p.queueRear
  let slot := if slot.arg.isSome then { slot with arg := none } else slot
  let slot := { slot with function := task.function }
  let slot := { slot with arg := task.arg }
  { p with
    taskQueue := Function.update p.taskQueue p.queueRear slot
    queueRear := (p.queueRear + 1) % cfg.queueMaxSize
    queueSize := p.queueSize + 1
    added := p.added ++ [(i, task)] }

/-- The task at the front of the queue, as lines 219 and 220 copy it. -/
def front (p : Pool F A) : ThreadpoolTask F A :=
  ⟨(p.taskQueue p.queueFront).function, (p.taskQueue p.queueFront).arg⟩

/-- Lines 219 to 223 of `threadpool_thread`, for the worker that is thread `i`. -/
def take (cfg : Config) (i : Nat) (p : Pool F A) : Pool F A :=
  { p with
    queueFront := (p.queueFront + 1) % cfg.queueMaxSize
    queueSize := p.queueSize - 1
    taken := p.taken ++ [(i, p.front)] }

/-- A woken worker is to retire (lines 193 and 198). -/
def retires (cfg : Config) (p : Pool F A) : Bool :=
  decide (p.waitExitThrNum > 0) && decide (p.liveThrNum > cfg.minThrNum)

/-- Lines 193 to 201 of `threadpool_thread`. -/
def exitTest (cfg : Config) (p : Pool F A) : Pool F A :=
  if p.waitExitThrNum > 0 then
    { p with
      waitExitThrNum := p.waitExitThrNum - 1
      liveThrNum := if p.liveThrNum > (cfg.minThrNum : Int) then p.liveThrNum - 1 else p.liveThrNum }
  else p

/-- `is_thread_alive`: `pthread_kill(tid, 0)` is `ESRCH` when no unterminated thread has the id. -/
def isThreadAlive (p : Pool F A) (tid : Nat) : Bool := p.alive.contains tid

/-- The slot `threads[i]` may be given to a new thread (line 279). -/
def slotFree (p : Pool F A) (i : Nat) : Bool :=
  p.threads.getD i 0 == 0 || !p.isThreadAlive (p.threads.getD i 0)

/-- Lines 281 to 283: `pthread_create` gives the new thread the id `tid`. -/
def create (i tid : Nat) (p : Pool F A) : Pool F A :=
  { p with threads := p.threads.set i tid, alive := tid :: p.alive, liveThrNum := p.liveThrNum + 1 }

def release (r : Resource) (p : Pool F A) : Pool F A := { p with released := p.released ++ [r] }

end Pool

/-- `threadpool_add` -/
def threadpoolAdd (cfg : Config) (task : ThreadpoolTask F A) : AddPc → PoolInstr F A
  | .lock => .lock .lock (.add task .test)
  | .test => .branch (fun p => p.queueSize == cfg.queueMaxSize && !p.shutdown)
      (.add task .condWait) (.add task .shutdownTest)
  | .condWait => .wait .queueNotFull .lock (.add task .test)
  | .shutdownTest => .branch (·.shutdown) (.add task .shutdownBroadcast) (.add task .put)
  | .shutdownBroadcast => .broadcast .queueNotEmpty (.add task .shutdownUnlock)
  | .shutdownUnlock => .unlock .lock (.add task (.returned 0))
  | .put => .update (fun i p => p.put cfg i task) fun _ => .add task .signal
  | .signal => .signal .queueNotEmpty (.add task .unlock)
  | .unlock => .unlock .lock (.add task (.returned 0))
  | .returned _ => .halt

/-- `threadpool_thread`. A callback may return at any time. -/
def threadpoolThread (cfg : Config) (tid : Nat) : WorkerPc F A → PoolInstr F A
  | .lock => .lock .lock (.worker tid .test)
  | .test => .branch (fun p => p.queueSize == 0 && !p.shutdown)
      (.worker tid .condWait) (.worker tid .shutdownTest)
  | .condWait => .wait .queueNotEmpty .lock (.worker tid .exitTest)
  | .exitTest => .update (fun _ p => p.exitTest cfg) fun p =>
      .worker tid (if p.retires cfg then .exitUnlock else .test)
  | .exitUnlock => .unlock .lock (.worker tid .exiting)
  | .shutdownTest => .branch (·.shutdown) (.worker tid .shutdownUnlock) (.worker tid .take)
  | .shutdownUnlock => .unlock .lock (.worker tid .exiting)
  -- `pthread_exit`: from here on `pthread_kill` does not find the thread
  | .exiting => .assign (fun p => { p with alive := p.alive.erase tid }) (.worker tid .exited)
  | .exited => .halt
  | .take => .update (fun i p => p.take cfg i) fun p => .worker tid (.notFull p.front)
  | .notFull task => .broadcast .queueNotFull (.worker tid (.unlock task))
  | .unlock task => .unlock .lock (.worker tid (.busyLock task))
  | .busyLock task => .lock .threadCounter (.worker tid (.busyInc task))
  | .busyInc task => .assign (fun p => { p with busyThrNum := p.busyThrNum + 1 }) (.worker tid (.busyUnlock task))
  | .busyUnlock task => .unlock .threadCounter (.worker tid (.call task))
  | .call task => .update (fun i p => { p with called := p.called ++ [(i, task)] }) fun _ =>
      .worker tid (.running task)
  | .running _ => .skip (.worker tid .idleLock)
  | .idleLock => .lock .threadCounter (.worker tid .busyDec)
  | .busyDec => .assign (fun p => { p with busyThrNum := p.busyThrNum - 1 }) (.worker tid .idleUnlock)
  | .idleUnlock => .unlock .threadCounter (.worker tid .lock)

/-- One iteration of the loop at line 276. -/
def growStep (cfg : Config) (i add : Nat) (live busy : Int) (p : Pool F A) (x : Outcome F A) :
    Option (Pool F A × Loc F A × List (Loc F A)) :=
  if i < cfg.maxThrNum ∧ add < defaultThreadVary ∧ p.liveThrNum < cfg.maxThrNum then
    if p.slotFree i then
      match x with
      | .tid tid =>
        if tid ≠ 0 ∧ p.isThreadAlive tid = false then
          some (p.create i tid, .adjust (.grow (i + 1) (add + 1) live busy), [.worker tid .lock])
        else none
      | _ => none
    else some (p, .adjust (.grow (i + 1) add live busy), [])
  else some (p, .adjust (.growUnlock live busy), [])

/-- `adjust_thread` -/
def adjustThread (cfg : Config) : AdjustPc → PoolInstr F A
  | .loop => .branch (!·.shutdown) (.adjust .sleep) (.adjust .returned)
  | .sleep => .skip (.adjust .lock)
  | .lock => .lock .lock (.adjust .read)
  | .read => .update (fun _ => id) fun p => .adjust (.unlock p.queueSize p.liveThrNum)
  | .unlock size live => .unlock .lock (.adjust (.counterLock size live))
  | .counterLock size live => .lock .threadCounter (.adjust (.readBusy size live))
  | .readBusy size live => .update (fun _ => id) fun p => .adjust (.counterUnlock size live p.busyThrNum)
  | .counterUnlock size live busy => .unlock .threadCounter (.adjust (.growTest size live busy))
  | .growTest size live busy => .branch (fun _ => decide (size ≥ minWaitTaskNum) && decide (live < cfg.maxThrNum))
      (.adjust (.growLock live busy)) (.adjust (.shrinkTest live busy))
  | .growLock live busy => .lock .lock (.adjust (.grow 0 0 live busy))
  | .grow i add live busy => .act fun _ p x => growStep cfg i add live busy p x
  | .growUnlock live busy => .unlock .lock (.adjust (.shrinkTest live busy))
  | .shrinkTest live busy => .branch (fun _ => decide (busy * 2 < live) && decide (live > cfg.minThrNum))
      (.adjust .shrinkLock) (.adjust .loop)
  | .shrinkLock => .lock .lock (.adjust .shrinkSet)
  | .shrinkSet => .assign (fun p => { p with waitExitThrNum := defaultThreadVary }) (.adjust .shrinkUnlock)
  | .shrinkUnlock => .unlock .lock (.adjust (.signal 0))
  | .signal i =>
    if i < defaultThreadVary then .signal .queueNotEmpty (.adjust (.signal (i + 1)))
    else .skip (.adjust .loop)
  | .returned => .halt

/-- `threadpool_destroy` and, from `freeQueue` on, `threadpool_free`. -/
def threadpoolDestroy : DestroyPc → PoolInstr F A
  | .store => .assign (fun p => { p with shutdown := true }) (.destroy (.loop 0))
  | .loop i => .branch (fun p => decide ((i : Int) < p.liveThrNum)) (.destroy (.bcast i)) (.destroy .freeQueue)
  | .bcast i => .broadcast .queueNotEmpty (.destroy (.loop (i + 1)))
  | .freeQueue => .assign (·.release .taskQueue) (.destroy .freeThreads)
  | .freeThreads => .assign (·.release .threads) (.destroy .lockLock)
  | .lockLock => .lock .lock (.destroy .destroyLock)
  | .destroyLock => .assign (·.release .lock) (.destroy .lockCounter)
  | .lockCounter => .lock .threadCounter (.destroy .destroyCounter)
  | .destroyCounter => .assign (·.release .threadCounter) (.destroy .destroyNotEmpty)
  | .destroyNotEmpty => .assign (·.release .queueNotEmpty) (.destroy .destroyNotFull)
  | .destroyNotFull => .assign (·.release .queueNotFull) (.destroy .freePool)
  | .freePool => .assign (·.release .pool) (.destroy .returned)
  | .returned => .halt

/-- The program: any number of calls of `threadpool_add` until the pool is being freed. -/
def code (cfg : Config) : Loc F A → PoolInstr F A
  | .worker tid pc => threadpoolThread cfg tid pc
  | .add task pc => threadpoolAdd cfg task pc
  | .adjust pc => adjustThread cfg pc
  | .destroy pc => threadpoolDestroy pc
  | .client => .act fun _ p x =>
    match x with
    | .task t => if p.released.isEmpty then some (p, .client, [.add t .lock]) else none
    | _ => none

/-- The state when `threadpool_create` returns: the ids `pthread_create` gave the workers, the ids
of the other threads, and what the new queue happened to contain. -/
def threadpoolCreate (cfg : Config) (tids others : List Nat) (garbage : Nat → ThreadpoolTask F A) :
    PoolState F A where
  shared :=
    { threads := tids ++ List.replicate (cfg.maxThrNum - cfg.minThrNum) 0
      taskQueue := garbage
      liveThrNum := cfg.minThrNum
      busyThrNum := 0
      waitExitThrNum := 0
      queueFront := 0
      queueRear := 0
      queueSize := 0
      shutdown := false
      alive := tids ++ others
      released := []
      added := []
      taken := []
      called := [] }
  owner := fun _ => none
  threads := [.run .client, .run (.destroy .store), .run (.adjust .loop)] ++
    tids.map fun tid => .run (.worker tid .lock)

/-- The states in which `threadpool_create` can return. -/
structure Created (cfg : Config) (s : PoolState F A) : Prop where
  start : ∃ tids others garbage, tids.length = cfg.minThrNum ∧ (tids ++ others).Nodup ∧ 0 ∉ tids ++ others ∧
    s = threadpoolCreate cfg tids others garbage

end Code

end LinuxProgram.Threadpool
