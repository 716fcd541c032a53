/-
The edge-triggered echo server `4_epoll_et.c`: the loop of `main` call by call, the kernel's side of
each connection with its registration and its posted edge, and the clients, who connect, send and
close between any two calls.

`fcntl` on an open descriptor and `epoll_ctl` of an accepted one succeed, and `epoll_wait` without a
timeout returns no empty batch. The `printf` lines and the copy to the standard output are left out.
-/
import LinuxProgram.Machine.Reach
import Mathlib.Logic.Function.Basic
import Mathlib.Tactic

namespace LinuxProgram.EpollEt

open LinuxProgram.Machine

/-- The number of entries of `evs`. -/
def evsLen : Nat := 1024

/-- `sizeof(buf)` -/
def bufLen : Nat := 4

def epollin : Nat := 1

/-! ## Connections -/

/-- What the kernel keeps of a connection: the bytes the server has not read, whether the client has
closed its side, the registration with the epoll instance, the edge posted to it, and the bytes the
server has written back. -/
structure Conn where
  unread : List UInt8
  finished : Bool
  registered : Bool
  posted : Bool
  echoed : List UInt8
  deriving DecidableEq, Repr

/-- What a client sends: bytes, or the end of its stream. -/
inductive Arrival where
  | bytes (chunk : List UInt8)
  | fin
  deriving DecidableEq, Repr

namespace Conn

def fresh : Conn := ⟨[], false, false, false, []⟩

/-- There is something to read, bytes or the end of the stream. -/
def Pending (c : Conn) : Prop := c.unread ≠ [] ∨ c.finished = true

instance (c : Conn) : Decidable c.Pending := by
  unfold Pending; infer_instance

/-- Whatever arrives posts an edge to a registered descriptor. -/
def arrive (c : Conn) : Arrival → Option Conn
  | .bytes chunk =>
    if c.finished = false ∧ chunk ≠ [] then
      some { c with unread := c.unread ++ chunk, posted := c.posted || c.registered }
    else none
  | .fin =>
    if c.finished = false then some { c with finished := true, posted := c.posted || c.registered }
    else none

/-- `epoll_ctl` with `EPOLL_CTL_ADD` and `EPOLLET`, which posts an edge if there is something to read. -/
def add (c : Conn) : Conn := { c with registered := true, posted := decide c.Pending }

end Conn

/-! ## The server -/

/-- An entry of `evs`. -/
structure Event where
  fd : Nat
  events : Nat
  deriving DecidableEq, Repr

/-- `evs[i].events & EPOLLIN` -/
def Event.Readable (e : Event) : Prop := e.events &&& epollin ≠ 0

instance (e : Event) : Decidable e.Readable := by
  unfold Event.Readable; infer_instance

/-- Where the server stands, with what is left of the batch: in `epoll_wait`, in front of the next
event, behind `Accept`, in front of `read`, in front of `write`. -/
inductive Pc where
  | wait
  | handle (evs : List Event)
  | accepted (cfd : Nat) (evs : List Event)
  | read (fd : Nat) (evs : List Event)
  | write (fd : Nat) (buf : List UInt8) (evs : List Event)
  | exited
  deriving DecidableEq, Repr

structure Server where
  fd : Nat
  backlog : List Conn
  conns : Nat → Option Conn
  pc : Pc

/-- What `read` returns: that many bytes, `EAGAIN`, or another error. -/
inductive ReadResult where
  | bytes (n : Nat)
  | again
  | error
  deriving DecidableEq, Repr

/-- Clients connect, and send on a connection in the backlog or on an accepted one. The server takes
the step it stands in front of, with the results of its system calls. -/
inductive Action where
  | connect
  | arriveQueued (i : Nat) (a : Arrival)
  | arrive (fd : Nat) (a : Arrival)
  | wait (evs : List Event)
  | waitFails
  | next
  | accept (cfd : Nat)
  | acceptFails
  | add
  | read (r : ReadResult)
  | write (n : Nat)
  | sigpipe
  deriving DecidableEq, Repr

namespace Server

/-- `epoll_wait` may report the listening socket as readable while a connection is in the backlog. An
accepted connection is reported for a posted edge, as readable if there is something to read. -/
def Reports (s : Server) (e : Event) : Prop :=
  if e.fd = s.fd then e.Readable → s.backlog ≠ []
  else (s.conns e.fd).any fun c => c.posted && decide (c.Pending → e.Readable)

instance (s : Server) (e : Event) : Decidable (s.Reports e) := by
  unfold Reports; infer_instance

/-- `epoll_wait` takes the edges it reports. -/
def epollWait (evs : List Event) (s : Server) : Option Server :=
  if s.pc = .wait ∧ evs ≠ [] ∧ evs.length ≤ evsLen ∧ (evs.map (·.fd)).Nodup ∧ ∀ e ∈ evs, s.Reports e then
    some { s with
      conns := fun fd => (s.conns fd).map fun c => if fd ∈ evs.map (·.fd) then { c with posted := false } else c
      pc := .handle evs }
  else none

/-- The process ends, and with it all connections. -/
def exit (s : Server) : Server := { s with backlog := [], conns := fun _ => none, pc := .exited }

/-- The head of the `for` loop and its tests, where they do not lead to `Accept`. -/
def next (s : Server) : Option Server :=
  match s.pc with
  | .handle [] => some { s with pc := .wait }
  | .handle (e :: evs) =>
    if e.fd = s.fd ∧ e.Readable then none
    else if e.Readable then some { s with pc := .read e.fd evs }
    else some { s with pc := .handle evs }
  | _ => none

/-- The rest of the batch if its first event is that of a connection to accept. -/
def accepting (s : Server) : Option (List Event) :=
  match s.pc with
  | .handle (e :: evs) => if e.fd = s.fd ∧ e.Readable then some evs else none
  | _ => none

/-- `Accept` takes the oldest connection of the backlog, on a descriptor that is not open. -/
def accept (cfd : Nat) (s : Server) : Option Server :=
  match s.accepting, s.backlog with
  | some evs, c :: backlog =>
    if cfd ≠ s.fd ∧ s.conns cfd = none then
      some { s with backlog := backlog, conns := Function.update s.conns cfd (some c), pc := .accepted cfd evs }
    else none
  | _, _ => none

def epollCtlAdd (s : Server) : Option Server :=
  match s.pc with
  | .accepted cfd evs =>
    some { s with conns := Function.update s.conns cfd ((s.conns cfd).map Conn.add), pc := .handle evs }
  | _ => none

/-- `Close`, which also removes the registration; on a descriptor that is not open it ends the process. -/
def close (fd : Nat) (evs : List Event) (s : Server) : Server :=
  match s.conns fd with
  | some _ => { s with conns := Function.update s.conns fd none, pc := .handle evs }
  | none => s.exit

/-- `read` returns 0 at the end of the stream, `EAGAIN` while the client may still send, and another
error at any time. -/
def read (s : Server) : ReadResult → Option Server
  | .bytes n =>
    match s.pc with
    | .read fd evs => (s.conns fd).bind fun c =>
      if n = 0 then (if c.unread = [] ∧ c.finished = true then some (s.close fd evs) else none)
      else if n ≤ bufLen ∧ n ≤ c.unread.length then
        some { s with
          conns := Function.update s.conns fd (some { c with unread := c.unread.drop n })
          pc := .write fd (c.unread.take n) evs }
      else none
    | _ => none
  | .again =>
    match s.pc with
    | .read fd evs => (s.conns fd).bind fun c =>
      if c.Pending then none else some { s with pc := .handle evs }
    | _ => none
  | .error =>
    match s.pc with
    | .read fd evs => some (s.close fd evs)
    | _ => none

/-- `write` takes that many bytes of `buf`, none where it fails; the loop does not look. -/
def write (n : Nat) (s : Server) : Option Server :=
  match s.pc with
  | .write fd buf evs =>
    some { s with
      conns := Function.update s.conns fd ((s.conns fd).map fun c => { c with echoed := c.echoed ++ buf.take n })
      pc := .read fd evs }
  | _ => none

end Server

open Server

def step (s : Server) : Action → Option Server
  | .connect => if s.pc = .exited then none else some { s with backlog := s.backlog ++ [.fresh] }
  | .arriveQueued i a => (s.backlog[i]?.bind (·.arrive a)).map fun c => { s with backlog := s.backlog.set i c }
  | .arrive fd a => ((s.conns fd).bind (·.arrive a)).map fun c =>
      { s with conns := Function.update s.conns fd (some c) }
  | .wait evs => s.epollWait evs
  | .waitFails => if s.pc = .wait then some s.exit else none
  | .next => s.next
  | .accept cfd => s.accept cfd
  | .acceptFails => s.accepting.map fun _ => s.exit
  | .add => s.epollCtlAdd
  | .read r => s.read r
  | .write n => s.write n
  | .sigpipe => match s.pc with
    | .write _ _ _ => some s.exit
    | _ => none

/-- The server before its loop, with the listening socket registered, level-triggered. -/
def main (fd : Nat) : Server := ⟨fd, [], fun _ => none, .wait⟩

end LinuxProgram.EpollEt
