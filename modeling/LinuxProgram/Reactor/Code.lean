/-
The reactor server `5_reactor.c`: the array `events_g` with the entries of the clients and, behind
them, that of the listening socket; the registrations of the epoll instance; and the loop of `main`,
which calls back through the pointers that `epoll_wait` returns. One action is a call of `epoll_wait`
or the callback for one event, with the results of its system calls.

The `arg` and `epfd` of an entry are never used after they are set and are left out, as are the
`printf` lines. The server does not look at the bytes it moves; for each descriptor the model records
those received and sent on the latest connection that had its number.
-/
import LinuxProgram.Machine.Reach
import Mathlib.Logic.Function.Basic
import Mathlib.Tactic

namespace LinuxProgram.Reactor

open LinuxProgram.Machine

/-- `_EVENT_SIZE_`, the number of entries for clients and the index of the listening socket's. -/
def eventSize : Nat := 1024

/-- `_BUF_LEN_` -/
def bufLen : Nat := 1024

def epollin : Nat := 1
def epollout : Nat := 4
def epollerr : Nat := 8
def epollhup : Nat := 16

inductive Callback where
  | initAccept
  | readData
  | sendData
  deriving DecidableEq, Repr

/-- `xevents` -/
structure XEvents where
  fd : Nat
  events : Nat
  callback : Option Callback
  buf : Nat → UInt8
  buflen : Int

/-- The server between two statements of `main`: `events_g`; for each descriptor registered with the
epoll instance its mask and the index of the entry that `data.ptr` points to; the accepted descriptors
that are open, with the bytes received and sent; and what is left of the latest batch of events. -/
structure Server where
  lfd : Nat
  eventsG : Nat → XEvents
  registered : Nat → Option (Nat × Nat)
  clients : List Nat
  received : Nat → List UInt8
  sent : Nat → List UInt8
  batch : List (Nat × Nat)
  crashed : Bool

/-- What the system calls of a callback do: `Accept` returns a descriptor; `recv` returns bytes, none
at the end of the stream, or fails; `send` takes that many bytes, or fails. -/
inductive Outcome where
  | none
  | accept (cfd : Nat)
  | recv (data : List UInt8)
  | recvError
  | send (n : Nat)
  | sendError
  deriving DecidableEq

/-- `epoll_wait` reports events on descriptors; the callback of the next event of the batch runs. -/
inductive Action where
  | wait (ready : List (Nat × Nat))
  | dispatch (o : Outcome)

namespace XEvents

/-- `ev->buf[ev->buflen] = '\0'`. Behind `buf` lies the low byte of `buflen`; the byte before it is
one of `callback` that is zero. -/
def terminate (x : XEvents) : XEvents :=
  if x.buflen = bufLen then { x with buflen := x.buflen - x.buflen % 256 }
  else if 0 ≤ x.buflen then { x with buf := Function.update x.buf x.buflen.toNat 0 }
  else x

/-- The first `n` bytes of `buf`. -/
def bytes (x : XEvents) (n : Nat) : List UInt8 := (List.range n).map x.buf

end XEvents

namespace Server

def eventadd (fd events : Nat) (callback : Callback) (ev : Nat) (s : Server) : Server :=
  { s with
    eventsG := Function.update s.eventsG ev { s.eventsG ev with fd := fd, events := events, callback := some callback }
    registered := Function.update s.registered fd ((s.registered fd).or (some (events, ev))) }

def eventset (fd events : Nat) (callback : Callback) (ev : Nat) (s : Server) : Server :=
  { s with
    eventsG := Function.update s.eventsG ev { s.eventsG ev with fd := fd, events := events, callback := some callback }
    registered := Function.update s.registered fd ((s.registered fd).map fun _ => (events, ev)) }

def eventdel (ev fd : Nat) (s : Server) : Server :=
  { s with
    eventsG := Function.update s.eventsG ev
      { s.eventsG ev with fd := 0, events := 0, callback := none, buf := fun _ => 0 }
    registered := Function.update s.registered fd none }

/-- `Close`, which also removes the registration. -/
def close (fd : Nat) (s : Server) : Server :=
  { s with clients := s.clients.erase fd, registered := Function.update s.registered fd none }

def sendData (fd ev : Nat) (s : Server) : Outcome → Option Server
  | .send n =>
    if (n : Int) ≤ (s.eventsG ev).buflen then
      if n = 0 then some ((s.close fd).eventdel ev fd)
      else some ({ s with sent := Function.update s.sent fd (s.sent fd ++ (s.eventsG ev).bytes n) }.eventset
        fd epollin .readData ev)
    else none
  | .sendError => some ((s.close fd).eventdel ev fd)
  | _ => none

/-- The entry after `recv` and the statement behind it. -/
def readInto (ev : Nat) (buf : Nat → UInt8) (buflen : Int) (s : Server) : Server :=
  { s with eventsG := Function.update s.eventsG ev { s.eventsG ev with buf := buf, buflen := buflen }.terminate }

def readData (fd ev : Nat) (s : Server) : Outcome → Option Server
  | .recv data =>
    if data.length ≤ bufLen then
      let s' : Server := { s with received := Function.update s.received fd (s.received fd ++ data) }
      let s' := s'.readInto ev (fun k => data.getD k ((s.eventsG ev).buf k)) data.length
      some (if (s'.eventsG ev).buflen ≤ 0 then (s'.close fd).eventdel ev fd
        else s'.eventset fd epollout .sendData ev)
    else none
  | .recvError => some (((s.readInto ev (s.eventsG ev).buf (-1)).close fd).eventdel ev fd)
  | _ => none

/-- The first index below `_EVENT_SIZE_` with `fd == 0`, or `_EVENT_SIZE_`. -/
@[irreducible] def freeIndex (s : Server) : Nat :=
  ((List.range eventSize).find? fun i => (s.eventsG i).fd == 0).getD eventSize

/-- The new descriptor is not open in the server. -/
def initAccept (events : Nat) (s : Server) : Outcome → Option Server
  | .accept cfd =>
    if cfd ≠ 0 ∧ cfd ≠ s.lfd ∧ cfd ∉ s.clients then
      some ({ s with
        clients := cfd :: s.clients
        received := Function.update s.received cfd []
        sent := Function.update s.sent cfd [] }.eventadd cfd events .readData s.freeIndex)
    else none
  | _ => none

/-- What `epoll_wait` may return: at most `_EVENT_SIZE_` registered descriptors, each once, with events
of their masks, errors and hangups. -/
def Reports (s : Server) (ready : List (Nat × Nat)) : Prop :=
  (ready.map (·.1)).Nodup ∧ ready.length ≤ eventSize ∧
    ∀ r ∈ ready, ∃ m ∈ s.registered r.1, r.2 &&& (m.1 ||| epollerr ||| epollhup) = r.2

instance (s : Server) (ready : List (Nat × Nat)) : Decidable (s.Reports ready) := by
  unfold Reports; infer_instance

end Server

open Server

def step (s : Server) (a : Action) : Option Server :=
  if s.crashed then none
  else match a with
    | .wait ready =>
      if s.batch = [] ∧ s.Reports ready then
        some { s with batch := ready.filterMap fun r => (s.registered r.1).map fun m => (r.2, m.2) }
      else none
    | .dispatch o =>
      match s.batch with
      | [] => none
      | (events, ev) :: rest =>
        let x := s.eventsG ev
        let s := { s with batch := rest }
        if x.events &&& events ≠ 0 then
          match x.callback with
          | none => some { s with crashed := true }
          | some .initAccept => initAccept x.events s o
          | some .readData => readData x.fd ev s o
          | some .sendData => sendData x.fd ev s o
        else if o = .none then some s
        else none

/-- The server before its loop, with the listening socket `lfd`. -/
def main (lfd : Nat) : Server :=
  { lfd := lfd
    eventsG := fun _ => { fd := 0, events := 0, callback := none, buf := fun _ => 0, buflen := 0 }
    registered := fun _ => none
    clients := []
    received := fun _ => []
    sent := fun _ => []
    batch := []
    crashed := false : Server }.eventadd lfd epollin .initAccept eventSize

end LinuxProgram.Reactor
