/-
The poll server `2_poll.c`: the array `client`, the loop of `main` with its two early exits, and the
calls it makes. One action is a call of `poll`, `Accept` or `read` with its result, or a turn of the
service loop that passes an entry over.

The contents of `client` before the loop that the program does not assign are a parameter. The `printf`
lines and the copy of the bytes to the standard output are left out. `Close` succeeds on an open
descriptor; where it does not, the process ends there as after any other `perr_exit`.
-/
import LinuxProgram.Machine.Reach
import Mathlib.Logic.Function.Basic
import Mathlib.Tactic

namespace LinuxProgram.Poll

open LinuxProgram.Machine

/-- `MAXLINE` -/
def maxLine : Nat := 128

/-- `OPEN_MAX`, the number of entries of `client`. -/
def openMax : Nat := 1024

def pollin : Nat := 1
def pollerr : Nat := 8
def pollhup : Nat := 16
def pollnval : Nat := 32

/-- `struct pollfd` -/
structure Pollfd where
  fd : Int
  events : Nat
  revents : Nat
  deriving DecidableEq, Repr, Inhabited

/-- Where the loop of `main` stands: before `poll`; before `Accept`; before the entry `i` of the service
loop. `nready` is passed along. -/
inductive Loc where
  | head
  | accept (nready : Int)
  | service (i : Nat) (nready : Int)
  | exited
  deriving DecidableEq, Repr

/-- The calls that have returned; for `poll` the descriptors that it reported readable. -/
inductive Call where
  | poll (readable : List Int)
  | accept (connfd : Int)
  | read (sockfd : Int)
  | write (sockfd : Int) (bytes : List UInt8)
  | close (sockfd : Int)
  deriving DecidableEq, Repr

/-- The server; the accepted descriptors that are open; and the calls made, the latest first. -/
structure Server where
  listenfd : Int
  client : Nat → Pollfd
  maxi : Nat
  loc : Loc
  clients : List Int
  calls : List Call

/-- The results of `read`: bytes, the end of the stream, `ECONNRESET` or another error. -/
inductive Reading where
  | data (bytes : List UInt8)
  | eof
  | reset
  | error
  deriving DecidableEq, Repr

/-- `poll` sets `revents`, or fails; `Accept` returns a descriptor, or ends the process; `read` returns;
an entry of the service loop is passed over. -/
inductive Action where
  | poll (revents : Option (Nat → Nat))
  | accept (connfd : Option Int)
  | read (r : Reading)
  | pass

namespace Server

variable (s : Server)

/-- `client[i].revents & POLLIN` -/
def pollinAt (i : Nat) : Prop := (s.client i).revents &&& pollin ≠ 0

/-- The service loop reads from the entry. -/
def readableAt (i : Nat) : Prop := 0 ≤ (s.client i).fd ∧ s.pollinAt i

instance (i : Nat) : Decidable (s.pollinAt i) := by unfold pollinAt; infer_instance

instance (i : Nat) : Decidable (s.readableAt i) := by unfold readableAt; infer_instance

/-- What `poll` may report: nothing for entries whose descriptor is negative, else events of the mask and
errors. -/
def Reports (revents : Nat → Nat) : Prop :=
  ∀ i ≤ s.maxi, if (s.client i).fd < 0 then revents i = 0
    else revents i &&& ((s.client i).events ||| pollerr ||| pollhup ||| pollnval) = revents i

instance (revents : Nat → Nat) : Decidable (s.Reports revents) := by unfold Reports; infer_instance

/-- `client` after `poll(client, maxi + 1, -1)`. -/
def polled (revents : Nat → Nat) : Nat → Pollfd :=
  fun i => if i ≤ s.maxi then { s.client i with revents := revents i } else s.client i

/-- The value that `poll` returns. -/
def nready (revents : Nat → Nat) : Nat := (List.range (s.maxi + 1)).countP fun i => revents i ≠ 0

/-- The descriptors reported readable. -/
def reportedBy (revents : Nat → Nat) : List Int :=
  ((List.range (s.maxi + 1)).filter fun i => revents i &&& pollin ≠ 0).map fun i => (s.client i).fd

/-- The statement behind `poll`. -/
def enter (n : Int) : Server := { s with loc := if s.pollinAt 0 then .accept n else .service 1 n }

def poll : Option (Nat → Nat) → Option Server
  | none => some (enter { s with calls := .poll [] :: s.calls } (-1))
  | some revents =>
    if s.Reports revents then
      some (enter { s with client := s.polled revents, calls := .poll (s.reportedBy revents) :: s.calls }
        (s.nready revents))
    else none

/-- The first index from 1 on with a negative `fd`, or `OPEN_MAX`. -/
@[irreducible] def freeIndex : Nat :=
  ((List.range' 1 (openMax - 1)).find? fun i => (s.client i).fd < 0).getD openMax

/-- `client[i].fd = connfd; client[i].events = POLLIN; if (i > maxi) maxi = i;` -/
def enroll (connfd : Int) (i : Nat) : Server :=
  { s with
    client := Function.update s.client i { s.client i with fd := connfd, events := pollin }
    maxi := max s.maxi i }

/-- The new descriptor is not open in the server. -/
def accept (nready : Int) : Option Int → Option Server
  | none => some { s with loc := .exited }
  | some connfd =>
    if 0 ≤ connfd ∧ connfd ≠ s.listenfd ∧ connfd ∉ s.clients then
      let s' := { s with clients := connfd :: s.clients, calls := .accept connfd :: s.calls }
      if s.freeIndex = openMax then some { s' with loc := .exited }
      else some { s'.enroll connfd s.freeIndex with
        loc := if nready - 1 ≤ 0 then .head else .service 1 (nready - 1) }
    else none

/-- `Close(sockfd); client[i].fd = -1;` -/
def drop (i : Nat) : Server :=
  { s with
    client := Function.update s.client i { s.client i with fd := -1 }
    clients := s.clients.erase (s.client i).fd
    calls := .close (s.client i).fd :: s.calls }

/-- `if (--nready <= 0) break;` and the next turn otherwise. -/
def next (i : Nat) (nready : Int) : Server :=
  { s with loc := if nready - 1 ≤ 0 then .head else .service (i + 1) (nready - 1) }

def read (i : Nat) (nready : Int) (r : Reading) : Option Server :=
  let s' := { s with calls := .read (s.client i).fd :: s.calls }
  match r with
  | .data bytes =>
    if bytes ≠ [] ∧ bytes.length ≤ maxLine then
      some (next { s' with calls := .write (s.client i).fd bytes :: s'.calls } i nready)
    else none
  | .eof => some ((s'.drop i).next i nready)
  | .reset => some ((s'.drop i).next i nready)
  | .error => some { s' with loc := .exited }

end Server

def step (s : Server) (a : Action) : Option Server :=
  match s.loc, a with
  | .head, .poll revents => s.poll revents
  | .accept nready, .accept connfd => s.accept nready connfd
  | .service i nready, .read r => if i ≤ s.maxi ∧ s.readableAt i then s.read i nready r else none
  | .service i nready, .pass =>
    if i ≤ s.maxi then
      if s.readableAt i then none else some { s with loc := .service (i + 1) nready }
    else some { s with loc := .head }
  | _, _ => none

/-- The server before its loop. -/
def main (listenfd : Int) (garbage : Nat → Pollfd) : Server where
  listenfd := listenfd
  client i :=
    if i = 0 then { garbage 0 with fd := listenfd, events := pollin }
    else if i < openMax then { garbage i with fd := -1 }
    else garbage i
  maxi := 0
  loc := .head
  clients := []
  calls := []

end LinuxProgram.Poll
