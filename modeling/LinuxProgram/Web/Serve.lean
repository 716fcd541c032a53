/-
The epoll server `01_epoll_web.c` with all of its clients: the loop of `main` and, for every readable connection, the
calls of `recv` in `process_http_request`. Whatever other clients do in between, a connection gets the requests that
`processHttpRequests` finds in its own bytes, and it is closed behind an answer or when the client has gone.

What is sent is left out but for the closing behind it. Accepted sockets are non-blocking. As in `Web.Segments` a
buffer that the first `recv` fills is taken to be read although it then has no NUL.
-/
import LinuxProgram.Epoll.Loop
import LinuxProgram.Io.Inbox
import LinuxProgram.Web.Segments

namespace LinuxProgram.Web.Epoll

open LinuxProgram.Data (str)
open LinuxProgram.Io LinuxProgram.Machine LinuxProgram.Machine.Connections
open LinuxProgram.Epoll (served_alone world_fds at_busy)

/-- `_EVENT_SIZE` -/
def eventSize : Nat := 1024

/-- `sizeof(temp)` -/
def tempSize : Nat := 1024

/-- A connection, with what the calls of `process_http_request` for it have read and the requests they have found. -/
structure Connected extends Inbox where
  arrivals : List Arrival
  requests : List (Option Request)
  deriving DecidableEq, Repr

/-- `process_http_request` is in front of the first `recv`, or in the loop that discards. -/
inductive Stage where
  | first
  | discard (first : List UInt8) (discarded : List (List UInt8))
  deriving DecidableEq, Repr

/-- What `recv` returns: that many bytes, `EAGAIN`, or another error. -/
inductive Recv where
  | bytes (n : Nat)
  | again
  | error
  deriving DecidableEq, Repr

namespace Connected

def fresh : Connected := ⟨.empty, [], []⟩

def arrive (a : Io.Arrival) (c : Connected) : Option Connected :=
  (c.toInbox.arrive a).map fun i => { c with toInbox := i }

/-- The request line is parsed and the request answered. -/
def respond (fs : FileSystem) (first : List UInt8) (discarded : List (List UInt8)) (c : Connected) :
    Connected × Next Stage :=
  ({ c with arrivals := c.arrivals ++ [⟨first, discarded⟩], requests := c.requests ++ [request first] },
    if (request first).any (answers fs) then .close else .done)

def run (fs : FileSystem) : Stage → Recv → Connected → Option (Connected × Next Stage)
  | .first, .bytes n, c =>
    if n = 0 then (if c.unread = [] ∧ c.finished = true then some (c, .close) else none)
    else if n ≤ bufSize ∧ n ≤ c.unread.length then
      some ({ c with toInbox := c.drop n }, .go (.discard (c.unread.take n) []))
    else none
  -- `ret <= 0`
  | .first, .again, c => if c.ready then none else some (c, .close)
  | .first, .error, c => if c.failed then some (c, .close) else none
  | .discard first discarded, .bytes n, c =>
    if n = 0 then (if c.unread = [] ∧ c.finished = true then some (c.respond fs first discarded) else none)
    else if n ≤ tempSize ∧ n ≤ c.unread.length then
      some ({ c with toInbox := c.drop n }, .go (.discard first (discarded ++ [c.unread.take n])))
    else none
  -- the loop that discards ends at `EAGAIN` and at an error just as at the end of the stream
  | .discard first discarded, .again, c => if c.ready then none else some (c.respond fs first discarded)
  | .discard first discarded, .error, c => if c.failed then some (c.respond fs first discarded) else none

end Connected

/-- `process_http_request`, called for a connection that is readable. -/
def handler (fs : FileSystem) : Handler Connected Stage Io.Arrival Recv where
  fresh := .fresh
  arrive := Connected.arrive
  starts := fun c => c.ready
  start := .first
  run := Connected.run fs

/-- What the calls have read for the request that is not yet parsed. -/
def inHand : Option Stage → List UInt8
  | some (.discard first discarded) => first ++ discarded.flatten
  | _ => []

/-- What `recv` may have delivered. -/
structure Sized (a : Arrival) : Prop where
  first : a.first ≠ [] ∧ a.first.length ≤ bufSize
  discarded : ∀ d ∈ a.discarded, d ≠ [] ∧ d.length ≤ tempSize

/-- The bytes that have arrived are those of the parsed requests, those in hand and those not read, in this order; the
requests are those that `processHttpRequests` finds. -/
structure Connected.Kept (fs : FileSystem) (c : Connected) (h : Option Stage) : Prop where
  whole : (c.arrivals.flatMap fun a => a.first ++ a.discarded.flatten) ++ inHand h ++ c.unread = c.received
  requests : c.requests = processHttpRequests fs c.arrivals
  sized : ∀ a ∈ c.arrivals, Sized a
  inHand : ∀ first discarded, h = some (.discard first discarded) → Sized ⟨first, discarded⟩

/-- Some way of cutting what has been read. -/
def Connected.Cuts (fs : FileSystem) (c : Connected) (h : Option Stage) : Prop :=
  ∃ taken, ∃ cut : Cut taken, taken ++ Epoll.inHand h ++ c.unread = c.received ∧
    c.requests = processHttpRequests fs cut.arrivals

section Connection

variable {fs : FileSystem} {c c' : Connected} {h : Option Stage}

/-- Everything that a step of the handler can be. -/
inductive RunCase (fs : FileSystem) (c : Connected) : Stage → Connected → Next Stage → Prop where
  | first (n : Nat) (hpos : n ≠ 0) (hsize : n ≤ bufSize) (hn : n ≤ c.unread.length) :
      RunCase fs c .first { c with toInbox := c.drop n } (.go (.discard (c.unread.take n) []))
  | closed (hend : c.unread = [] ∧ c.finished = true ∨ c.failed = true ∨ c.ready = false) :
      RunCase fs c .first c .close
  | discard (first : List UInt8) (discarded : List (List UInt8)) (n : Nat) (hpos : n ≠ 0) (hsize : n ≤ tempSize)
      (hn : n ≤ c.unread.length) :
      RunCase fs c (.discard first discarded) { c with toInbox := c.drop n }
        (.go (.discard first (discarded ++ [c.unread.take n])))
  | answer (first : List UInt8) (discarded : List (List UInt8)) (hans : (request first).any (answers fs) = true) :
      RunCase fs c (.discard first discarded) (c.respond fs first discarded).1 .close
  | pass (first : List UInt8) (discarded : List (List UInt8)) (hans : (request first).any (answers fs) = false) :
      RunCase fs c (.discard first discarded) (c.respond fs first discarded).1 .done

theorem respond_case (first : List UInt8) (discarded : List (List UInt8)) :
    RunCase fs c (.discard first discarded) (c.respond fs first discarded).1 (c.respond fs first discarded).2 := by
  by_cases hans : (request first).any (answers fs) = true
  · have hnext : (c.respond fs first discarded).2 = .close := if_pos hans
    rw [hnext]
    exact .answer first discarded hans
  · have hnext : (c.respond fs first discarded).2 = .done := if_neg hans
    rw [hnext]
    exact .pass first discarded (Bool.eq_false_iff.2 hans)

theorem run_cases {g : Stage} {x : Recv} {out : Next Stage} (hr : c.run fs g x = some (c', out)) :
    RunCase fs c g c' out := by
  unfold Connected.run at hr
  split at hr
  · split at hr
    · split at hr
      · rename_i hend
        cases hr
        exact .closed (.inl hend)
      · cases hr
    · rename_i hpos
      split at hr
      · rename_i hn
        cases hr
        exact .first _ hpos hn.1 hn.2
      · cases hr
  · split at hr
    · cases hr
    · rename_i hready
      cases hr
      exact .closed (.inr (.inr (Bool.eq_false_iff.2 hready)))
  · split at hr
    · rename_i hfail
      cases hr
      exact .closed (.inr (.inl hfail))
    · cases hr
  · split at hr
    · split at hr
      · cases hr
        exact respond_case _ _
      · cases hr
    · rename_i hpos
      split at hr
      · rename_i hn
        cases hr
        exact .discard _ _ _ hpos hn.1 hn.2
      · cases hr
  · split at hr
    · cases hr
    · cases hr
      exact respond_case _ _
  · split at hr
    · cases hr
      exact respond_case _ _
    · cases hr

end Connection

/-! ## The server -/

section Cutting

variable {fs : FileSystem} {c c' : Connected} {pc : LinuxProgram.Epoll.Pc Stage}

/-- The server with one connection. -/
def serving (pc : LinuxProgram.Epoll.Pc Stage) (c : Connected) : LinuxProgram.Epoll.Server Connected Stage :=
  ⟨3, [], Function.update (fun _ => none) 5 (some c), [], pc⟩

/-- Nothing is there to be read, and the client goes on. -/
structure Quiescent (c : Connected) : Prop where
  unread : c.unread = []
  finished : c.finished = false
  failed : c.failed = false

/-- A connection that has got more bytes. -/
def Connected.sent (c : Connected) (chunk : List UInt8) : Connected :=
  { c with received := c.received ++ chunk, unread := c.unread ++ chunk }

/-- A connection all of whose bytes have been read. -/
def Connected.read (c : Connected) : Connected := { c with unread := [] }

theorem Quiescent.arrive (hc : Quiescent c) {chunk : List UInt8} (hne : chunk ≠ []) :
    c.arrive (.bytes chunk) = some (c.sent chunk) := by
  simp [Connected.arrive, Inbox.arrive, Connected.sent, hc.finished, hc.failed, hne]

variable (fs)

theorem Quiescent.read (hc : Quiescent c) (chunk : List UInt8) : Quiescent (c.sent chunk).read :=
  ⟨rfl, hc.finished, hc.failed⟩

end Cutting

end LinuxProgram.Web.Epoll
