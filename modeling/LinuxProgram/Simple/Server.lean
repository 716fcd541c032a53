/-
The server of `threadpoolsimple.c`: `main` with its level-triggered `epoll_wait` and its call of
`addtask` for each reported client, the callback `taskRun`, and the kernel's connections,
descriptors and epoll set under them. Clients connect, send and close in any order; a descriptor is
given to the next connection lowest-free-first once it is closed.

`socket`, `listen`, `accept` and `epoll_ctl` are taken to succeed, and `write` to send all its bytes.
-/
import LinuxProgram.Simple.Locks

namespace LinuxProgram.Simple

open LinuxProgram.Machine

/-! ## The kernel -/

/-- A connection: what the client has sent and the server has not read, whether the client has
closed, and what the server has written back. -/
structure Conn where
  unread : List UInt8
  eof : Bool
  echoed : List UInt8
  deriving DecidableEq, Repr

/-- `table` gives the connection open on a descriptor, `registered` is the epoll set without the
listening socket, and `backlog` are the connections not accepted yet, of the `made` ones. -/
structure Kernel where
  table : Nat → Option Nat
  registered : List Nat
  conns : Nat → Conn
  made : Nat
  backlog : List Nat

/-- The listening socket, the first descriptor after standard input, output and error. -/
def lfd : Nat := 3

def epfd : Nat := 4

/-- The array of `epoll_wait` in `main`. -/
def maxEvents : Nat := 1024

namespace Kernel

/-- Unread data or end of stream. -/
def readable (e : Kernel) (c : Nat) : Bool := !(e.conns c).unread.isEmpty || (e.conns c).eof

/-- What a level-triggered `epoll_wait` has to report. -/
def ready (e : Kernel) : List Nat :=
  (if e.backlog.isEmpty then [] else [lfd]) ++ e.registered.filter fun fd => (e.table fd).any e.readable

/-- `epoll_wait` may fill the array with `fds`, in any order. -/
def Reports (e : Kernel) (fds : List Nat) : Prop :=
  fds ≠ [] ∧ fds.Nodup ∧ (∀ fd ∈ fds, fd ∈ e.ready) ∧ fds.length ≤ maxEvents ∧
    (fds.length = maxEvents ∨ ∀ fd ∈ e.ready, fd ∈ fds)

instance (e : Kernel) (fds : List Nat) : Decidable (e.Reports fds) := by unfold Reports; infer_instance

/-- `fd` is the lowest free descriptor. -/
def LowestFree (e : Kernel) (fd : Nat) : Prop :=
  epfd < fd ∧ e.table fd = none ∧ ∀ k < fd, epfd < k → e.table k ≠ none

instance (e : Kernel) (fd : Nat) : Decidable (e.LowestFree fd) := by unfold LowestFree; infer_instance

def setConn (e : Kernel) (c : Nat) (f : Conn → Conn) : Kernel :=
  { e with conns := Function.update e.conns c (f (e.conns c)) }

/-- A client connects. -/
def connect (e : Kernel) : Kernel :=
  { e with
    conns := Function.update e.conns e.made ⟨[], false, []⟩
    made := e.made + 1
    backlog := e.backlog ++ [e.made] }

/-- `accept` -/
def accept (e : Kernel) (c fd : Nat) : Kernel :=
  { e with table := Function.update e.table fd (some c), backlog := e.backlog.tail }

/-- `epoll_ctl` with `EPOLL_CTL_ADD` -/
def ctlAdd (e : Kernel) (fd : Nat) : Kernel := { e with registered := e.registered.insert fd }

/-- `epoll_ctl` with `EPOLL_CTL_DEL` -/
def ctlDel (e : Kernel) (fd : Nat) : Kernel := { e with registered := e.registered.filter (· ≠ fd) }

/-- `close` also takes the descriptor out of the epoll set. -/
def close (e : Kernel) (fd : Nat) : Kernel := { e.ctlDel fd with table := Function.update e.table fd none }

end Kernel

/-! ## The server -/

/-- Where `main` is, with the array `evs` and the index `i`; and the clients. -/
inductive ServerPc where
  | clients
  | epollWait
  | dispatch (evs : List Nat) (i : Nat)
  | accept (evs : List Nat) (i : Nat)
  | ctlAdd (cfd : Nat) (evs : List Nat) (i : Nat)
  deriving DecidableEq, Repr

/-- Where a worker is in `taskRun`; at its end, whether the task has left its connection. -/
inductive TaskPc where
  | read
  | write (buf : List UInt8)
  | close
  | ctlDel
  | ended (left : Bool)
  deriving DecidableEq, Repr

/-- What the clients do next, what `epoll_wait` reports, which descriptor `accept` returns. -/
inductive Event where
  | none
  | connect
  | send (c : Nat) (bytes : List UInt8)
  | close (c : Nat)
  | ready (fds : List Nat)
  | fd (n : Nat)
  deriving DecidableEq, Repr

/-- The clients connect, send and close. -/
def clients (e : Kernel) : Event → Option Kernel
  | .connect => some e.connect
  | .send c bytes => if c < e.made ∧ (e.conns c).eof = false then
      some (e.setConn c fun k => { k with unread := k.unread ++ bytes }) else none
  | .close c => if c < e.made then some (e.setConn c fun k => { k with eof := true }) else none
  | _ => none

/-- `main` from its loop on, and the clients. -/
def server : ServerPc → CallerStmt Kernel Event ServerPc
  | .clients => .act fun _ e x => (clients e x).map fun e' => (e', .clients, [])
  | .epollWait => .act fun _ e x =>
    match x with
    | .ready fds => if e.Reports fds then some (e, .dispatch fds 0, []) else none
    | _ => none
  | .dispatch evs i =>
    match evs[i]? with
    | none => .act fun _ e _ => some (e, .epollWait, [])
    | some fd => if fd = lfd then .act fun _ e _ =>
      some (e, .accept evs i, []) else .addtask fd i (.dispatch evs (i + 1))
  | .accept evs i => .act fun _ e x =>
    match x, e.backlog with
    | .fd n, c :: _ => if e.LowestFree n then some (e.accept c n, .ctlAdd n evs i, []) else none
    | _, _ => none
  | .ctlAdd cfd evs i => .act fun _ e _ => some (e.ctlAdd cfd, .dispatch evs (i + 1), [])

/-- Line 147 of `taskRun`: `none` while the read blocks. -/
def readTask (fd : Nat) (e : Kernel) : Option (Kernel × TaskPc) :=
  match e.table fd with
  -- a closed descriptor
  | none => some (e, .ended true)
  | some c =>
    if (e.conns c).unread = [] then if (e.conns c).eof then some (e, .close) else none
    else some (e.setConn c fun k => { k with unread := k.unread.drop 1024 }, .write ((e.conns c).unread.take 1024))

/-- `taskRun` -/
def taskRun (task : PoolTask (Option Nat)) : TaskPc → CallbackStmt Kernel Event TaskPc
  | .read => .act fun e _ => readTask task.fd e
  | .write buf => .act fun e _ =>
    match e.table task.fd with
    | none => some (e, .ended false)
    | some c => some (e.setConn c fun k => { k with echoed := k.echoed ++ buf }, .ended false)
  | .close => .act fun e _ => some (e.close task.fd, .ctlDel)
  -- `epfd` of the task is what was in the slot
  | .ctlDel => .act fun e _ => some (if task.epfd = epfd then e.ctlDel task.fd else e, .ended true)
  | .ended _ => .ret

/-- The server: with each task the connection then open on its descriptor is recorded. -/
def serverWorld : World Kernel Event ServerPc TaskPc (Option Nat) where
  caller := server
  taskRun _ := .read
  callback := taskRun
  record e fd := e.table fd

abbrev ServerLoc := Loc ServerPc TaskPc (Option Nat)

abbrev ServerState := SimpleState Kernel ServerPc TaskPc (Option Nat)

abbrev Task := PoolTask (Option Nat)

/-- The states in which `main` can enter its loop. -/
structure Started (cfg : Config) (s : ServerState) : Prop where
  start : ∃ tasks copies conns, copies.length = cfg.thrNum ∧
    s = createThreadpool tasks copies ⟨fun _ => none, [], conns, 0, []⟩ [.caller .clients, .caller .epollWait]

/-! ## The property -/

/-- The tasks in the queue, from the front. -/
def Pool.queued (cfg : Config) (p : Pool (Option Nat)) : List Task :=
  (List.range p.jobNum.toNat).map fun (k : Nat) => p.tasks ((p.jobPop + k).tmod cfg.maxJobNum)

/-- The task a worker has taken and not finished. -/
def Loc.inHand : ServerLoc → List Task
  | .worker t .signal | .worker t .shutdownTest | .worker t .unlock | .worker t .call => [t]
  | .callback t _ => [t]
  | _ => []

/-- The tasks that are queued or running. -/
def outstanding (cfg : Config) (s : ServerState) : List Task :=
  s.shared.pool.queued cfg ++ s.locs.flatMap Loc.inHand

/-- Each open connection has at most one task that is queued or running, and a worker about to
read finds on the task's descriptor the connection that was open there when the task was added,
with something to read. -/
structure OneTaskEach (cfg : Config) (s : ServerState) : Prop where
  single : ∀ fd c, s.shared.env.table fd = some c → ((outstanding cfg s).filter (·.note == some c)).length ≤ 1
  reads : ∀ t, Thread.run (.callback t .read) ∈ s.threads →
    ∃ c, t.note = some c ∧ s.shared.env.table t.fd = some c ∧ s.shared.env.readable c = true

/-- Whenever `addtask` stores a task, its descriptor is open on a connection that has something to
read and no task queued or running. This is asked of the first `2 ^ 31 - 1` tasks. -/
def AddsIdle (cfg : Config) (s : ServerState) : Action Event → Prop
  | .exec i _ _ =>
    match s.threads[i]? with
    | some (.run (.add fd _ _ .test)) =>
      s.shared.pool.jobNum < cfg.maxJobNum → s.shared.pool.added.length + 1 < 2 ^ 31 →
        ∃ c ∈ s.shared.env.table fd, s.shared.env.readable c = true ∧ ∀ t ∈ outstanding cfg s, t.note ≠ some c
    | _ => True
  | .spurious _ => True

instance (cfg : Config) (s : ServerState) (a : Action Event) : Decidable (AddsIdle cfg s a) := by
  unfold AddsIdle; split
  · split <;> infer_instance
  · infer_instance

/-- The property, while `job_push` has not overflowed. -/
def OneTaskEachBelow (cfg : Config) (s : ServerState) : Prop :=
  s.shared.pool.added.length < 2 ^ 31 → OneTaskEach cfg s

end LinuxProgram.Simple
