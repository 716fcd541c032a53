/-
The thread pool of `threadpoolsimple.c`: the fields of `ThreadPool`, and the statements of
`addtask`, `thrRun` and `destroy_threadpool` as a table over their program counters. The programs
that call `addtask`, the callback `taskRun` and the data outside the pool are a parameter, so that
the pool can be studied with any callers and as part of the server that uses it.

The `malloc`, `pthread_*_init` and `pthread_create` calls are taken to succeed; the `printf` lines
are left out, as is `task_func`, which is `taskRun` in every task.
-/
import LinuxProgram.Data.Word
import LinuxProgram.Machine.Outline

namespace LinuxProgram.Simple

open LinuxProgram.Machine LinuxProgram.Data

/-- What `arg` points to: a slot of the queue, or the worker's copy of the task. -/
inductive Arg where
  | unset
  | slot (pos : Int)
  | copy
  deriving DecidableEq, Repr

/-- `PoolTask`. The last field is history: what was recorded outside the pool when the task was
added. -/
structure PoolTask (G : Type) where
  tasknum : Int
  arg : Arg
  fd : Nat
  epfd : Nat
  evs : Nat
  note : G
  deriving DecidableEq, Repr

/-- The arguments of `create_threadpool`. -/
structure Config where
  thrNum : Nat
  maxJobNum : Nat

inductive Mutex where
  | poolLock
  deriving DecidableEq, Repr

inductive Cond where
  | emptyTask
  | notEmptyTask
  deriving DecidableEq, Repr

/-- What `destroy_threadpool` destroys or frees. -/
inductive Resource where
  | notEmptyTask
  | emptyTask
  | poolLock
  | tasks
  | threads
  | pool
  deriving DecidableEq, Repr

/-- The fields of `ThreadPool` that change, the global `num`, what `destroy_threadpool` has released,
and the history of the tasks. -/
structure Pool (G : Type) where
  jobNum : Int
  tasks : Int → PoolTask G
  jobPush : Int
  jobPop : Int
  shutdown : Bool
  num : Int
  released : List Resource
  added : List (PoolTask G)
  taken : List (Nat × PoolTask G)
  called : List (Nat × PoolTask G)

/-- The pool and the data outside it. -/
structure Sys (E G : Type) where
  pool : Pool G
  env : E

/-- A statement of a program that calls `addtask`; it may see what has been released. -/
inductive CallerStmt (E X K : Type) where
  | addtask (fd evs : Nat) (next : K)
  | act (run : List Resource → E → X → Option (E × K × List K))
  | halt

/-- A statement of the callback. -/
inductive CallbackStmt (E X R : Type) where
  | act (run : E → X → Option (E × R))
  | ret

/-- What runs with the pool: the programs that call `addtask`, over locations `K`; the callback
`taskRun`, over locations `R`; and what is recorded of `E` with a task on a descriptor. -/
structure World (E X K R G : Type) where
  caller : K → CallerStmt E X K
  taskRun : PoolTask G → R
  callback : PoolTask G → R → CallbackStmt E X R
  record : E → Nat → G

inductive WorkerPc where
  | lock
  | test
  | condWait
  | jobTest
  | signal
  | shutdownTest
  | exitUnlock
  | exit
  | exited
  | unlock
  | call
  deriving DecidableEq, Repr

inductive AddPc where
  | lock
  | test
  | condWait
  | unlock
  | signal
  deriving DecidableEq, Repr

inductive DestroyPc where
  | store
  | broadcast
  | destroyNotEmpty
  | destroyEmpty
  | destroyLock
  | freeTasks
  | freeThreads
  | freePool
  | returned
  deriving DecidableEq, Repr

/-- A control location: a worker in `thrRun`, with the task in its own `PoolTask`; a worker in the
callback; a call of `addtask`, with where its caller goes on; a caller; the call of
`destroy_threadpool`. -/
inductive Loc (K R G : Type) where
  | worker (task : PoolTask G) (pc : WorkerPc)
  | callback (task : PoolTask G) (r : R)
  | add (fd evs : Nat) (next : K) (pc : AddPc)
  | caller (k : K)
  | destroy (pc : DestroyPc)

section Code

variable {E X K R G : Type}

abbrev SimpleInstr (E X K R G : Type) := Instr Mutex Cond (Sys E G) X (Loc K R G)

abbrev SimpleState (E K R G : Type) := State Mutex Cond (Sys E G) (Loc K R G)

namespace Pool

/-- Lines 84 to 92 of `addtask`. `epfd` keeps what was in the slot. -/
def put (cfg : Config) (fd evs : Nat) (note : G) (p : Pool G) : Pool G :=
  let pos := p.jobPush.tmod cfg.maxJobNum
  let task := { tasknum := p.num, arg := .slot pos, fd := fd, epfd := (p.tasks pos).epfd, evs := evs, note := note }
  { p with
    jobPush := wrap32 (p.jobPush + 1)
    num := wrap32 (p.num + 1)
    tasks := Function.update p.tasks pos task
    jobNum := p.jobNum + 1
    added := p.added ++ [task] }

/-- The copy of the front task that lines 120 to 123 of `thrRun` make. -/
def front (cfg : Config) (p : Pool G) : PoolTask G := { p.tasks (p.jobPop.tmod cfg.maxJobNum) with arg := .copy }

/-- Lines 120 to 124 of `thrRun`, for the worker that is thread `i`. -/
def take (cfg : Config) (i : Nat) (p : Pool G) : Pool G :=
  { p with
    jobPop := wrap32 (p.jobPop + 1)
    jobNum := p.jobNum - 1
    taken := p.taken ++ [(i, p.front cfg)] }

def release (r : Resource) (p : Pool G) : Pool G := { p with released := p.released ++ [r] }

end Pool

/-- An assignment to the pool. -/
def onPool (f : Nat → Pool G → Pool G) (next : Pool G → Loc K R G) : SimpleInstr E X K R G :=
  .update (fun i s => { s with pool := f i s.pool }) fun s => next s.pool

/-- `addtask`; `next` is where the caller goes on. -/
def addtask (cfg : Config) (w : World E X K R G) (fd evs : Nat) (next : K) : AddPc → SimpleInstr E X K R G
  | .lock => .lock .poolLock (.add fd evs next .test)
  | .test => .update
      (fun _ s => if s.pool.jobNum ≥ cfg.maxJobNum then s
        else { s with pool := s.pool.put cfg fd evs (w.record s.env fd) })
      fun s => .add fd evs next (if s.pool.jobNum ≥ cfg.maxJobNum then .condWait else .unlock)
  | .condWait => .wait .emptyTask .poolLock (.add fd evs next .test)
  | .unlock => .unlock .poolLock (.add fd evs next .signal)
  | .signal => .signal .notEmptyTask (.caller next)

/-- `thrRun` -/
def thrRun (cfg : Config) (w : World E X K R G) (task : PoolTask G) : WorkerPc → SimpleInstr E X K R G
  | .lock => .lock .poolLock (.worker task .test)
  | .test => .branch (fun s => decide (s.pool.jobNum ≤ 0) && !s.pool.shutdown)
      (.worker task .condWait) (.worker task .jobTest)
  | .condWait => .wait .notEmptyTask .poolLock (.worker task .test)
  | .jobTest => onPool (fun i p => if p.jobNum ≠ 0 then p.take cfg i else p) fun p =>
      if p.jobNum ≠ 0 then .worker (p.front cfg) .signal else .worker task .shutdownTest
  | .signal => .signal .emptyTask (.worker task .shutdownTest)
  | .shutdownTest => .branch (·.pool.shutdown) (.worker task .exitUnlock) (.worker task .unlock)
  | .exitUnlock => .unlock .poolLock (.worker task .exit)
  -- `free(task)` and `pthread_exit`
  | .exit => .skip (.worker task .exited)
  | .exited => .halt
  | .unlock => .unlock .poolLock (.worker task .call)
  | .call => onPool (fun i p => { p with called := p.called ++ [(i, task)] }) fun _ => .callback task (w.taskRun task)

/-- `destroy_threadpool` -/
def destroyThreadpool : DestroyPc → SimpleInstr E X K R G
  | .store => onPool (fun _ p => { p with shutdown := true }) fun _ => .destroy .broadcast
  | .broadcast => .broadcast .notEmptyTask (.destroy .destroyNotEmpty)
  | .destroyNotEmpty => onPool (fun _ => .release .notEmptyTask) fun _ => .destroy .destroyEmpty
  | .destroyEmpty => onPool (fun _ => .release .emptyTask) fun _ => .destroy .destroyLock
  | .destroyLock => onPool (fun _ => .release .poolLock) fun _ => .destroy .freeTasks
  | .freeTasks => onPool (fun _ => .release .tasks) fun _ => .destroy .freeThreads
  | .freeThreads => onPool (fun _ => .release .threads) fun _ => .destroy .freePool
  | .freePool => onPool (fun _ => .release .pool) fun _ => .destroy .returned
  | .returned => .halt

def code (cfg : Config) (w : World E X K R G) : Loc K R G → SimpleInstr E X K R G
  | .worker task pc => thrRun cfg w task pc
  | .callback task r =>
    match w.callback task r with
    | .act run => .act fun _ s x => (run s.env x).map fun e => ({ s with env := e.1 }, .callback task e.2, [])
    | .ret => .skip (.worker task .lock)
  | .add fd evs next pc => addtask cfg w fd evs next pc
  | .caller k =>
    match w.caller k with
    | .addtask fd evs next => .skip (.add fd evs next .lock)
    | .act run => .act fun _ s x => (run s.pool.released s.env x).map fun e =>
        ({ s with env := e.1 }, .caller e.2.1, e.2.2.map .caller)
    | .halt => .halt
  | .destroy pc => destroyThreadpool pc

/-- The state when `create_threadpool` returns, with what the new queue and the workers' new
`PoolTask`s happened to contain, and the threads that use the pool. -/
def createThreadpool (tasks : Int → PoolTask G) (copies : List (PoolTask G)) (env : E) (others : List (Loc K R G)) :
    SimpleState E K R G where
  shared :=
    { pool :=
        { jobNum := 0
          tasks := tasks
          jobPush := 0
          jobPop := 0
          shutdown := false
          num := 0
          released := []
          added := []
          taken := []
          called := [] }
      env := env }
  owner := fun _ => none
  threads := others.map .run ++ copies.map fun task => .run (.worker task .lock)

end Code

end LinuxProgram.Simple
