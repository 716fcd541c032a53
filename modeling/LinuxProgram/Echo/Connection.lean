/-
A connection of the echo servers `3_epoll.c` and `5_tcp_server_pthread.c`, and what they do with it: `read`, and
`write` of what has been read. What a client sends comes back in order, and a connection is closed only when all of
it has come back or the connection has failed.

The sockets are blocking: `read` returns when there is something to return, and `write` takes all of its bytes
unless the connection fails. The `printf` lines and the copy to the standard output are left out.
-/
import LinuxProgram.Io.Inbox
import LinuxProgram.Machine.Connections

namespace LinuxProgram.Echo

open LinuxProgram.Io LinuxProgram.Machine.Connections

/-- `sizeof(buf)` -/
def bufLen : Nat := 1024

/-- A connection, with the bytes written back. -/
structure Conn extends Inbox where
  echoed : List UInt8
  deriving DecidableEq, Repr

/-- In front of `read`, or of `write`. -/
inductive Stage where
  | read
  | write (buf : List UInt8)
  deriving DecidableEq, Repr

/-- What `read` returns, that many bytes or an error; and the number of bytes that `write` takes, 0 if it fails. -/
inductive Result where
  | bytes (n : Nat)
  | error
  | wrote (n : Nat)
  deriving DecidableEq, Repr

namespace Conn

def fresh : Conn := ⟨.empty, []⟩

def arrive (a : Arrival) (c : Conn) : Option Conn := (c.toInbox.arrive a).map fun i => { c with toInbox := i }

/-- `next` is what the server does behind `write`. -/
def run (next : Next Stage) : Stage → Result → Conn → Option (Conn × Next Stage)
  | .read, .bytes n, c =>
    if n = 0 then (if c.unread = [] ∧ c.finished = true then some (c, .close) else none)
    else if n ≤ bufLen ∧ n ≤ c.unread.length then
      some ({ c with toInbox := c.drop n }, .go (.write (c.unread.take n)))
    else none
  | .read, .error, c => if c.failed then some (c, .close) else none
  | .write buf, .wrote n, c =>
    if n ≤ buf.length ∧ (n = buf.length ∨ c.failed = true) then some ({ c with echoed := c.echoed ++ buf.take n }, next)
    else none
  | _, _, _ => none

end Conn

/-- The handler of a server that starts it for the connections in `starts`. -/
def echo (starts : Conn → Bool) (next : Next Stage) : Handler Conn Stage Arrival Result where
  fresh := .fresh
  arrive := Conn.arrive
  starts := starts
  start := .read
  run := Conn.run next

/-! ## A connection -/

/-- What has been read and not yet written. -/
def inHand : Option Stage → List UInt8
  | some (.write buf) => buf
  | _ => []

/-- Unless the connection has failed, the bytes that have arrived are those sent back, those in hand and those not
read, in this order. -/
def Conn.Conserved (c : Conn) (h : Option Stage) : Prop :=
  c.failed = false → c.echoed ++ inHand h ++ c.unread = c.received

/-- A connection that is done with. -/
def Conn.Complete (c : Conn) : Prop := c.failed = true ∨ c.finished = true ∧ c.echoed = c.received

variable {starts : Conn → Bool} {next : Next Stage} {c c' : Conn} {h : Option Stage}

theorem level : (echo (fun c => c.ready) next).Level := by
  intro a c c' ha _
  obtain ⟨i, hi, rfl⟩ := Option.map_eq_some_iff.1 ha
  exact Inbox.arrive_ready hi

theorem conserved_arrive {a : Arrival} (hc : c.Conserved h) (ha : c.arrive a = some c') : c'.Conserved h := by
  obtain ⟨i, hi, rfl⟩ := Option.map_eq_some_iff.1 ha
  obtain ⟨hfailed, chunk, hreceived, hunread, -⟩ := Inbox.arrive_cases hi
  intro _
  rw [hreceived, hunread, ← hc hfailed, List.append_assoc, List.append_assoc, List.append_assoc]

/-- Everything that a step of the handler can be. -/
inductive RunCase (next : Next Stage) (c : Conn) : Stage → Conn → Next Stage → Prop where
  | eof (hunread : c.unread = []) (hfin : c.finished = true) : RunCase next c .read c .close
  | read (n : Nat) (hpos : n ≠ 0) (hn : n ≤ c.unread.length) :
      RunCase next c .read { c with toInbox := c.drop n } (.go (.write (c.unread.take n)))
  | error (hfail : c.failed = true) : RunCase next c .read c .close
  | write (buf : List UInt8) (n : Nat) (hn : n = buf.length ∨ c.failed = true) :
      RunCase next c (.write buf) { c with echoed := c.echoed ++ buf.take n } next

theorem run_cases {g : Stage} {x : Result} {out : Next Stage} (hr : c.run next g x = some (c', out)) :
    RunCase next c g c' out := by
  unfold Conn.run at hr
  split at hr
  · split at hr
    · split at hr
      · rename_i hend
        cases hr
        exact .eof hend.1 hend.2
      · cases hr
    · rename_i hpos
      split at hr
      · rename_i hn
        cases hr
        exact .read _ hpos hn.2
      · cases hr
  · split at hr
    · rename_i hfail
      cases hr
      exact .error hfail
    · cases hr
  · split at hr
    · rename_i hn
      cases hr
      exact .write _ _ hn.2
    · cases hr
  · cases hr

/-- The server has nothing in hand behind `write`. -/
def EmptyHanded (next : Next Stage) : Prop := next = .done ∨ next = .go .read

theorem conserved_run (hnext : EmptyHanded next) {g : Stage} {out : Next Stage} (hr : RunCase next c g c' out)
    (hc : c.Conserved (some g)) : c'.Conserved out.handler := by
  cases hr with
  | eof => exact hc
  | read n hpos hn =>
    intro hfailed
    simpa [Next.handler, inHand, Inbox.drop] using hc hfailed
  | error => exact hc
  | write buf n hn =>
    intro hfailed
    -- the connection has not failed, so that all of `buf` has been taken
    have hall : n = buf.length := hn.resolve_right (by rw [hfailed]; exact Bool.false_ne_true)
    rw [← hc hfailed, hall, List.take_length]
    rcases hnext with rfl | rfl <;> simp [Next.handler, inHand]

theorem conserved (hnext : EmptyHanded next) (hc : Alone (echo starts next) c h) : c.Conserved h := by
  induction hc with
  | fresh => exact fun _ => rfl
  | arrive _ ha ih => exact conserved_arrive ih ha
  | start _ _ ih => exact ih
  | go _ hr ih => exact conserved_run hnext (run_cases hr) ih
  | done _ hr ih => exact conserved_run hnext (run_cases hr) ih

theorem complete (hnext : EmptyHanded next) (hc : Ended (echo starts next) c) : c.Complete := by
  obtain ⟨hc, hr⟩ := hc
  have hlast := conserved hnext hc
  cases run_cases hr with
  | eof hunread hfin =>
    by_cases hfailed : c.failed = true
    · exact .inl hfailed
    · have hall := hlast (Bool.eq_false_iff.2 hfailed)
      rw [hunread, List.append_nil] at hall
      exact .inr ⟨hfin, (List.append_nil _).symm.trans hall⟩
  | error hfail => exact .inl hfail
  | write buf n hn => rcases hnext with h | h <;> cases h

end LinuxProgram.Echo
