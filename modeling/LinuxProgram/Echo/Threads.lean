/-
The echo server `5_tcp_server_pthread.c`: `main` accepts, allocates a `CINFO` for the connection and creates a
detached thread, which serves the connection, closes it and frees the `CINFO`. Any thread may take the next step, and
the kernel and the heap may give out again at once what has been given back.

A `CINFO` is its `cfd`; the address in it is only printed. What is printed is left out, and so is that `printf` takes
a buffer that `read` has filled for a string. When `main` returns, or a wrapper or a signal ends the
process, everything is released.
-/
import LinuxProgram.Echo.Connection

namespace LinuxProgram.Echo.Threads

open LinuxProgram.Io LinuxProgram.Machine LinuxProgram.Machine.Connections

/-- `client_fun` reads until the connection ends. -/
def handler : Handler Conn Stage Arrival Result := echo (fun _ => true) (.go .read)

/-- A thread is in its loop, or behind `close` and in front of `free`. -/
inductive Loc where
  | serving (h : Stage)
  | closed
  deriving DecidableEq, Repr

/-- A thread, with the address of its `CINFO`. -/
structure Thread where
  info : Nat
  loc : Loc
  deriving DecidableEq, Repr

/-- `main` is in front of `Accept`, of `malloc` or of `pthread_create`. -/
inductive MainLoc where
  | accept
  | malloc (cfd : Nat)
  | create (info : Nat)
  | exited
  deriving DecidableEq, Repr

structure Server where
  fd : Nat
  backlog : List Conn
  conns : Nat → Option Conn
  closed : List Conn
  /-- The `CINFO` at an address. -/
  heap : Nat → Option Nat
  threads : Nat → Option Thread
  main : MainLoc
  /-- A thread has used a `CINFO` that is not allocated or a descriptor that is not open. -/
  stale : Bool

/-- The calls of `main` with their results, `none` where they fail; and the next step of a thread. -/
inductive Action where
  | connect
  | arriveQueued (i : Nat) (a : Arrival)
  | arrive (fd : Nat) (a : Arrival)
  | accept (cfd : Option Nat)
  | malloc (info : Option Nat)
  | create (tid : Option Nat)
  | run (tid : Nat) (x : Result)
  | free (tid : Nat)
  | killed
  deriving DecidableEq, Repr

namespace Server

def exit (s : Server) : Server :=
  { s with backlog := [], conns := fun _ => none, heap := fun _ => none, threads := fun _ => none, main := .exited }

/-- `Accept` takes the oldest connection of the backlog, on a descriptor that is not open; where it fails it ends the
process. -/
def accept (s : Server) : Option Nat → Option Server
  | none => if s.main = .accept then some s.exit else none
  | some cfd =>
    match s.main, s.backlog with
    | .accept, c :: backlog =>
      if cfd ≠ s.fd ∧ s.conns cfd = none then
        some { s with backlog := backlog, conns := Function.update s.conns cfd (some c), main := .malloc cfd }
      else none
    | _, _ => none

/-- `malloc` finds an address where nothing is allocated, and the descriptor is stored there; where it fails, the
loop goes on with the next connection. -/
def malloc (s : Server) (info : Option Nat) : Option Server :=
  match s.main, info with
  | .malloc _, none => some { s with main := .accept }
  | .malloc cfd, some info =>
    if s.heap info = none then
      some { s with heap := Function.update s.heap info (some cfd), main := .create info }
    else none
  | _, _ => none

/-- `pthread_create`; where it fails, `main` returns. -/
def create (s : Server) (tid : Option Nat) : Option Server :=
  match s.main, tid with
  | .create _, none => some s.exit
  | .create info, some tid =>
    if s.threads tid = none then
      some { s with threads := Function.update s.threads tid (some ⟨info, .serving handler.start⟩), main := .accept }
    else none
  | _, _ => none

/-- A step of the loop of `client_fun`, with the `close` behind it. -/
def run (s : Server) (tid : Nat) (x : Result) : Option Server :=
  match s.threads tid with
  | some ⟨info, .serving h⟩ =>
    match s.heap info with
    | none => some { s with stale := true }
    | some cfd =>
      match s.conns cfd with
      | none => some { s with stale := true }
      | some c =>
        match handler.run h x c with
        | some (c', .go h') => some { s with
            conns := Function.update s.conns cfd (some c')
            threads := Function.update s.threads tid (some ⟨info, .serving h'⟩) }
        | some (c', .close) => some { s with
            conns := Function.update s.conns cfd none
            closed := c' :: s.closed
            threads := Function.update s.threads tid (some ⟨info, .closed⟩) }
        | _ => none
  | _ => none

/-- `free`, and the end of the thread. -/
def free (s : Server) (tid : Nat) : Option Server :=
  match s.threads tid with
  | some ⟨info, .closed⟩ =>
    if s.heap info = none then some { s with stale := true }
    else some { s with heap := Function.update s.heap info none, threads := Function.update s.threads tid none }
  | _ => none

end Server

open Server

def step (s : Server) : Action → Option Server
  | .connect => if s.main = .exited then none else some { s with backlog := s.backlog ++ [handler.fresh] }
  | .arriveQueued i a => (s.backlog[i]?.bind (handler.arrive a)).map fun c => { s with backlog := s.backlog.set i c }
  | .arrive fd a => ((s.conns fd).bind (handler.arrive a)).map fun c =>
    { s with conns := Function.update s.conns fd (some c) }
  | .accept cfd => s.accept cfd
  | .malloc info => s.malloc info
  | .create tid => s.create tid
  | .run tid x => s.run tid x
  | .free tid => s.free tid
  | .killed => some s.exit

/-- The server in front of its loop. -/
def main (fd : Nat) : Server := ⟨fd, [], fun _ => none, [], fun _ => none, fun _ => none, .accept, false⟩

/-! ## What a step does -/

section Steps

variable {s s' : Server}

/-- Everything that a step can be. -/
inductive StepCase (s : Server) : Action → Server → Prop where
  | connect : StepCase s .connect { s with backlog := s.backlog ++ [handler.fresh] }
  | arriveQueued {i : Nat} {c c' : Conn} {a : Arrival} (hc : s.backlog[i]? = some c)
      (ha : handler.arrive a c = some c') :
      StepCase s (.arriveQueued i a) { s with backlog := s.backlog.set i c' }
  | arrive {fd : Nat} {c c' : Conn} {a : Arrival} (hc : s.conns fd = some c) (ha : handler.arrive a c = some c') :
      StepCase s (.arrive fd a) { s with conns := Function.update s.conns fd (some c') }
  | exit {a : Action} (ha : a ≠ .malloc none) : StepCase s a s.exit
  | accept {cfd : Nat} {c : Conn} {backlog : List Conn} (hmain : s.main = .accept) (hq : s.backlog = c :: backlog)
      (hne : cfd ≠ s.fd) (hfree : s.conns cfd = none) : StepCase s (.accept (some cfd))
        { s with backlog := backlog, conns := Function.update s.conns cfd (some c), main := .malloc cfd }
  | mallocFails {cfd : Nat} (hmain : s.main = .malloc cfd) : StepCase s (.malloc none) { s with main := .accept }
  | malloc {cfd info : Nat} (hmain : s.main = .malloc cfd) (hfree : s.heap info = none) :
      StepCase s (.malloc (some info))
        { s with heap := Function.update s.heap info (some cfd), main := .create info }
  | create {info tid : Nat} (hmain : s.main = .create info) (hfree : s.threads tid = none) :
      StepCase s (.create (some tid))
        { s with threads := Function.update s.threads tid (some ⟨info, .serving handler.start⟩), main := .accept }
  | stale {tid : Nat} {x : Result} {t : Thread} (ht : s.threads tid = some t)
      (hstale : s.heap t.info = none ∨ ∃ h cfd, t.loc = .serving h ∧ s.heap t.info = some cfd ∧ s.conns cfd = none)
      {a : Action} (ha : a = .run tid x ∨ a = .free tid) : StepCase s a { s with stale := true }
  | go {tid info cfd : Nat} {x : Result} {h h' : Stage} {c c' : Conn} (ht : s.threads tid = some ⟨info, .serving h⟩)
      (hinfo : s.heap info = some cfd) (hc : s.conns cfd = some c) (hr : handler.run h x c = some (c', .go h')) :
      StepCase s (.run tid x) { s with
        conns := Function.update s.conns cfd (some c')
        threads := Function.update s.threads tid (some ⟨info, .serving h'⟩) }
  | close {tid info cfd : Nat} {x : Result} {h : Stage} {c c' : Conn} (ht : s.threads tid = some ⟨info, .serving h⟩)
      (hinfo : s.heap info = some cfd) (hc : s.conns cfd = some c) (hr : handler.run h x c = some (c', .close)) :
      StepCase s (.run tid x) { s with
        conns := Function.update s.conns cfd none
        closed := c' :: s.closed
        threads := Function.update s.threads tid (some ⟨info, .closed⟩) }
  | free {tid info cfd : Nat} (ht : s.threads tid = some ⟨info, .closed⟩) (hinfo : s.heap info = some cfd) :
      StepCase s (.free tid)
        { s with heap := Function.update s.heap info none, threads := Function.update s.threads tid none }

theorem accept_cases {cfd : Option Nat} (h : s.accept cfd = some s') : StepCase s (.accept cfd) s' := by
  unfold accept at h
  split at h
  · split at h
    · cases h
      exact .exit nofun
    · cases h
  · split at h
    · rename_i hmain hq
      split at h
      · rename_i hok
        cases h
        exact .accept hmain hq hok.1 hok.2
      · cases h
    · cases h

theorem malloc_cases {info : Option Nat} (h : s.malloc info = some s') : StepCase s (.malloc info) s' := by
  unfold malloc at h
  split at h
  · rename_i hmain
    cases h
    exact .mallocFails hmain
  · rename_i hmain
    split at h
    · rename_i hfree
      cases h
      exact .malloc hmain hfree
    · cases h
  · cases h

theorem create_cases {tid : Option Nat} (h : s.create tid = some s') : StepCase s (.create tid) s' := by
  unfold create at h
  split at h
  · cases h
    exact .exit nofun
  · rename_i hmain
    split at h
    · rename_i hfree
      cases h
      exact .create hmain hfree
    · cases h
  · cases h

theorem run_step_cases {tid : Nat} {x : Result} (h : s.run tid x = some s') : StepCase s (.run tid x) s' := by
  unfold run at h
  split at h
  · rename_i info hd ht
    split at h
    · rename_i hinfo
      cases h
      exact .stale (x := x) ht (.inl hinfo) (.inl rfl)
    · rename_i cfd hinfo
      split at h
      · rename_i hc
        cases h
        exact .stale (x := x) ht (.inr ⟨hd, cfd, rfl, hinfo, hc⟩) (.inl rfl)
      · rename_i c hc
        split at h
        · rename_i hr
          cases h
          exact .go ht hinfo hc hr
        · rename_i hr
          cases h
          exact .close ht hinfo hc hr
        · cases h
  · cases h

theorem free_cases {tid : Nat} (h : s.free tid = some s') : StepCase s (.free tid) s' := by
  unfold free at h
  split at h
  · rename_i info ht
    split at h
    · rename_i hinfo
      cases h
      exact .stale (x := .error) ht (.inl hinfo) (.inr rfl)
    · rename_i hinfo
      obtain ⟨cfd, hcfd⟩ := Option.ne_none_iff_exists'.1 hinfo
      cases h
      exact .free ht hcfd
  · cases h

theorem step_cases {a : Action} (h : step s a = some s') : StepCase s a s' := by
  cases a with
  | connect =>
    simp only [step] at h
    split at h
    · cases h
    · cases h
      exact .connect
  | arriveQueued i a =>
    obtain ⟨c', hc', rfl⟩ := Option.map_eq_some_iff.1 h
    obtain ⟨c, hc, ha⟩ := Option.bind_eq_some_iff.1 hc'
    exact .arriveQueued hc ha
  | arrive fd a =>
    obtain ⟨c', hc', rfl⟩ := Option.map_eq_some_iff.1 h
    obtain ⟨c, hc, ha⟩ := Option.bind_eq_some_iff.1 hc'
    exact .arrive hc ha
  | accept cfd => exact accept_cases h
  | malloc info => exact malloc_cases h
  | create tid => exact create_cases h
  | run tid x => exact run_step_cases h
  | free tid => exact free_cases h
  | killed =>
    cases h
    exact .exit nofun

end Steps

end LinuxProgram.Echo.Threads
