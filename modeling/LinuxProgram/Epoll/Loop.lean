/-
The loop of `main` in `3_epoll.c` and `01_epoll_web.c`, call by call: `epoll_wait`, level-triggered, and for every
event `Accept` or the handler of the connection, whose steps are a parameter. Clients connect and send between any
two calls.

`epoll_ctl` of an accepted descriptor succeeds, so that the connections that are open are those of the epoll
instance. `Close` comes before `EPOLL_CTL_DEL`, which finds nothing left to remove and whose result is not looked
at; it is left out, and so are the `printf` lines. The second server makes an accepted descriptor non-blocking.
-/
import LinuxProgram.EpollEt.Code
import LinuxProgram.Machine.Connections

namespace LinuxProgram.Epoll

open LinuxProgram.Machine LinuxProgram.Machine.Connections
open LinuxProgram.EpollEt (Event)

variable {C H A X : Type}

/-- Where the loop stands, with what is left of the batch: in `epoll_wait`, in front of the next event, at a step of
the handler. -/
inductive Pc (H : Type) where
  | wait
  | handle (evs : List Event)
  | busy (fd : Nat) (h : H) (evs : List Event)
  | exited
  /-- A handler is at work on a descriptor that is not open. -/
  | stale
  deriving DecidableEq, Repr

structure Server (C H : Type) where
  lfd : Nat
  backlog : List C
  conns : Nat → Option C
  closed : List C
  pc : Pc H

inductive Action (A X : Type) where
  | connect
  | arriveQueued (i : Nat) (a : A)
  | arrive (fd : Nat) (a : A)
  | wait (evs : List Event)
  | waitFails
  | next
  | accept (cfd : Nat)
  | acceptFails
  | run (x : X)
  /-- A signal ends the process. -/
  | killed
  deriving DecidableEq, Repr

namespace Server

/-- What `epoll_wait` reports of a registered descriptor: it is readable only if a connection waits to be accepted, or
if there is something for the handler. -/
def Reports (K : Handler C H A X) (s : Server C H) (e : Event) : Prop :=
  if e.fd = s.lfd then e.Readable → s.backlog ≠ []
  else (s.conns e.fd).any fun c => decide (e.Readable → K.starts c = true)

instance (K : Handler C H A X) (s : Server C H) (e : Event) : Decidable (s.Reports K e) := by
  unfold Reports; infer_instance

def epollWait (K : Handler C H A X) (maxevents : Nat) (evs : List Event) (s : Server C H) : Option (Server C H) :=
  match s.pc with
  | .wait =>
    if evs.length ≤ maxevents ∧ (evs.map (·.fd)).Nodup ∧ ∀ e ∈ evs, s.Reports K e then some { s with pc := .handle evs }
    else none
  | _ => none

/-- The process ends, and with it all connections. -/
def exit (s : Server C H) : Server C H := { s with backlog := [], conns := fun _ => none, pc := .exited }

/-- The head of the `for` loop and its tests, where they do not lead to `Accept`. -/
def next (K : Handler C H A X) (s : Server C H) : Option (Server C H) :=
  match s.pc with
  | .handle [] => some { s with pc := .wait }
  | .handle (e :: evs) =>
    if e.fd = s.lfd ∧ e.Readable then none
    else some { s with pc := if e.Readable then .busy e.fd K.start evs else .handle evs }
  | _ => none

/-- The rest of the batch if its first event is that of a connection to accept. -/
def accepting (s : Server C H) : Option (List Event) :=
  match s.pc with
  | .handle (e :: evs) => if e.fd = s.lfd ∧ e.Readable then some evs else none
  | _ => none

/-- `Accept` takes the oldest connection of the backlog, on a descriptor that is not open, and `epoll_ctl` adds it. -/
def accept (cfd : Nat) (s : Server C H) : Option (Server C H) :=
  match s.accepting, s.backlog with
  | some evs, c :: backlog =>
    if cfd ≠ s.lfd ∧ s.conns cfd = none then
      some { s with backlog := backlog, conns := Function.update s.conns cfd (some c), pc := .handle evs }
    else none
  | _, _ => none

/-- A step of the handler. -/
def run (K : Handler C H A X) (x : X) (s : Server C H) : Option (Server C H) :=
  match s.pc with
  | .busy fd h evs =>
    match s.conns fd with
    | none => some { s with pc := .stale }
    | some c =>
      match K.run h x c with
      | none => none
      | some (c', .go h') => some { s with conns := Function.update s.conns fd (some c'), pc := .busy fd h' evs }
      | some (c', .done) => some { s with conns := Function.update s.conns fd (some c'), pc := .handle evs }
      | some (c', .close) =>
        some { s with conns := Function.update s.conns fd none, closed := c' :: s.closed, pc := .handle evs }
  | _ => none

end Server

open Server

def step (K : Handler C H A X) (maxevents : Nat) (s : Server C H) : Action A X → Option (Server C H)
  | .connect => match s.pc with
    | .exited => none
    | _ => some { s with backlog := s.backlog ++ [K.fresh] }
  | .arriveQueued i a => (s.backlog[i]?.bind (K.arrive a)).map fun c => { s with backlog := s.backlog.set i c }
  | .arrive fd a => ((s.conns fd).bind (K.arrive a)).map fun c =>
    { s with conns := Function.update s.conns fd (some c) }
  | .wait evs => s.epollWait K maxevents evs
  | .waitFails => match s.pc with
    | .wait => some s.exit
    | _ => none
  | .next => s.next K
  | .accept cfd => s.accept cfd
  | .acceptFails => s.accepting.map fun _ => s.exit
  | .run x => s.run K x
  | .killed => some s.exit

/-- The server before its loop, with the listening socket registered. -/
def main (lfd : Nat) : Server C H := ⟨lfd, [], fun _ => none, [], .wait⟩

/-! ## What a step does -/

section Steps

variable {K : Handler C H A X} {maxevents : Nat} {s s' : Server C H}

/-- Everything that a step can be. -/
inductive StepCase (K : Handler C H A X) (maxevents : Nat) (s : Server C H) : Action A X → Server C H → Prop where
  | connect : StepCase K maxevents s .connect { s with backlog := s.backlog ++ [K.fresh] }
  | arriveQueued {i : Nat} {c c' : C} {a : A} (hc : s.backlog[i]? = some c) (ha : K.arrive a c = some c') :
      StepCase K maxevents s (.arriveQueued i a) { s with backlog := s.backlog.set i c' }
  | arrive {fd : Nat} {c c' : C} {a : A} (hc : s.conns fd = some c) (ha : K.arrive a c = some c') :
      StepCase K maxevents s (.arrive fd a) { s with conns := Function.update s.conns fd (some c') }
  | wait {evs : List Event} (hpc : s.pc = .wait) (hlen : evs.length ≤ maxevents) (hnodup : (evs.map (·.fd)).Nodup)
      (hreports : ∀ e ∈ evs, s.Reports K e) : StepCase K maxevents s (.wait evs) { s with pc := .handle evs }
  | exit {a : Action A X} (ha : ∀ cfd, a ≠ .accept cfd) : StepCase K maxevents s a s.exit
  | batchEnd (hpc : s.pc = .handle []) : StepCase K maxevents s .next { s with pc := .wait }
  | pass {e : Event} {evs : List Event} (hpc : s.pc = .handle (e :: evs)) :
      StepCase K maxevents s .next { s with pc := .handle evs }
  | start {e : Event} {evs : List Event} (hpc : s.pc = .handle (e :: evs)) (hread : e.Readable) (hne : e.fd ≠ s.lfd) :
      StepCase K maxevents s .next { s with pc := .busy e.fd K.start evs }
  | accept {e : Event} {evs : List Event} {c : C} {backlog : List C} {cfd : Nat} (hpc : s.pc = .handle (e :: evs))
      (he : e.fd = s.lfd) (hq : s.backlog = c :: backlog) (hne : cfd ≠ s.lfd) (hfree : s.conns cfd = none) :
      StepCase K maxevents s (.accept cfd)
        { s with backlog := backlog, conns := Function.update s.conns cfd (some c), pc := .handle evs }
  | stale {fd : Nat} {h : H} {evs : List Event} {x : X} (hpc : s.pc = .busy fd h evs) (hc : s.conns fd = none) :
      StepCase K maxevents s (.run x) { s with pc := .stale }
  | go {fd : Nat} {h h' : H} {evs : List Event} {c c' : C} {x : X} (hpc : s.pc = .busy fd h evs)
      (hc : s.conns fd = some c)
      (hr : K.run h x c = some (c', .go h')) :
      StepCase K maxevents s (.run x) { s with conns := Function.update s.conns fd (some c'), pc := .busy fd h' evs }
  | done {fd : Nat} {h : H} {evs : List Event} {c c' : C} {x : X} (hpc : s.pc = .busy fd h evs)
      (hc : s.conns fd = some c)
      (hr : K.run h x c = some (c', .done)) :
      StepCase K maxevents s (.run x) { s with conns := Function.update s.conns fd (some c'), pc := .handle evs }
  | close {fd : Nat} {h : H} {evs : List Event} {c c' : C} {x : X} (hpc : s.pc = .busy fd h evs)
      (hc : s.conns fd = some c)
      (hr : K.run h x c = some (c', .close)) :
      StepCase K maxevents s (.run x)
        { s with conns := Function.update s.conns fd none, closed := c' :: s.closed, pc := .handle evs }

theorem next_cases (h : s.next K = some s') : StepCase K maxevents s .next s' := by
  unfold next at h
  split at h
  · rename_i hpc
    cases h
    exact .batchEnd hpc
  · rename_i e evs hpc
    split at h
    · cases h
    · rename_i hlisten
      cases h
      by_cases hread : e.Readable
      · rw [if_pos hread]
        exact .start hpc hread fun hfd => hlisten ⟨hfd, hread⟩
      · rw [if_neg hread]
        exact .pass hpc
  · cases h

theorem accepting_cases {evs : List Event} (h : s.accepting = some evs) :
    ∃ e, s.pc = .handle (e :: evs) ∧ e.fd = s.lfd := by
  unfold accepting at h
  split at h
  · rename_i e evs' hpc
    split at h
    · rename_i hlisten
      cases h
      exact ⟨e, hpc, hlisten.1⟩
    · cases h
  · cases h

theorem accept_cases {cfd : Nat} (h : s.accept cfd = some s') : StepCase K maxevents s (.accept cfd) s' := by
  unfold accept at h
  split at h
  · rename_i evs c backlog hevs hq
    obtain ⟨e, hpc, he⟩ := accepting_cases hevs
    split at h
    · rename_i hok
      cases h
      exact .accept hpc he hq hok.1 hok.2
    · cases h
  · cases h

theorem run_cases {x : X} (h : s.run K x = some s') : StepCase K maxevents s (.run x) s' := by
  unfold run at h
  split at h
  · rename_i fd hd evs hpc
    split at h
    · rename_i hc
      cases h
      exact .stale hpc hc
    · rename_i c hc
      split at h
      · cases h
      · rename_i hr
        cases h
        exact .go hpc hc hr
      · rename_i hr
        cases h
        exact .done hpc hc hr
      · rename_i hr
        cases h
        exact .close hpc hc hr
  · cases h

theorem step_cases {a : Action A X} (h : step K maxevents s a = some s') : StepCase K maxevents s a s' := by
  cases a with
  | connect =>
    simp only [step] at h
    split at h
    · cases h
    · cases h
      exact .connect
  | arriveQueued i a =>
    obtain ⟨c', hc', rfl⟩ := Option.map_eq_some_iff.1 h
    obtain ⟨c, hc, ha⟩ := Option.bind_eq_some_iff.1 hc'
    exact .arriveQueued hc ha
  | arrive fd a =>
    obtain ⟨c', hc', rfl⟩ := Option.map_eq_some_iff.1 h
    obtain ⟨c, hc, ha⟩ := Option.bind_eq_some_iff.1 hc'
    exact .arrive hc ha
  | wait evs =>
    simp only [step, epollWait] at h
    split at h
    · rename_i hpc
      split at h
      · rename_i hok
        cases h
        exact .wait hpc hok.1 hok.2.1 hok.2.2
      · cases h
    · cases h
  | waitFails =>
    simp only [step] at h
    split at h
    · cases h
      exact .exit nofun
    · cases h
  | next => exact next_cases h
  | accept cfd => exact accept_cases h
  | acceptFails =>
    obtain ⟨evs, -, rfl⟩ := Option.map_eq_some_iff.1 h
    exact .exit nofun
  | run x => exact run_cases h
  | killed =>
    cases h
    exact .exit nofun

theorem step_wait {evs : List Event} (hpc : s.pc = .wait) (hlen : evs.length ≤ maxevents)
    (hnodup : (evs.map (·.fd)).Nodup) (hreports : ∀ e ∈ evs, s.Reports K e) :
    step K maxevents s (.wait evs) = some { s with pc := .handle evs } := by
  simp only [step, epollWait, hpc]
  exact if_pos ⟨hlen, hnodup, hreports⟩

theorem step_accept {e : Event} {evs : List Event} {c : C} {backlog : List C} {cfd : Nat}
    (hpc : s.pc = .handle (e :: evs)) (he : e.fd = s.lfd) (hread : e.Readable) (hq : s.backlog = c :: backlog)
    (hne : cfd ≠ s.lfd) (hfree : s.conns cfd = none) :
    step K maxevents s (.accept cfd) =
      some { s with backlog := backlog, conns := Function.update s.conns cfd (some c), pc := .handle evs } := by
  have haccepting : s.accepting = some evs := by simp [accepting, hpc, he, hread]
  simp only [step, Server.accept, haccepting, hq]
  exact if_pos ⟨hne, hfree⟩

end Steps

/-! ## The connections -/

/-- The handler that is at work on a descriptor. -/
def Pc.at (pc : Pc H) (fd : Nat) : Option H :=
  match pc with
  | .busy fd' h _ => if fd' = fd then some h else none
  | _ => none

/-- What is left of the batch. -/
def Pc.batch : Pc H → List Event
  | .handle evs | .busy _ _ evs => evs
  | _ => []

/-- The connections of the server, each with the handler that is at work on it. -/
def Server.world (s : Server C H) : World C H :=
  ⟨s.backlog, fun fd => (s.conns fd).map fun c => (c, s.pc.at fd), s.closed⟩

/-- The events left in the batch are of different descriptors and still tell the truth, and the handler is at work on
an open descriptor that none of them is of. -/
structure Valid (K : Handler C H A X) (s : Server C H) : Prop where
  lfd : s.conns s.lfd = none
  nodup : (s.pc.batch.map (·.fd)).Nodup
  reports : ∀ e ∈ s.pc.batch, s.Reports K e
  busy : ∀ fd h evs, s.pc = .busy fd h evs → (∃ c, s.conns fd = some c) ∧ fd ∉ evs.map (·.fd)
  fresh : s.pc ≠ .stale

section Connections

variable {K : Handler C H A X} {maxevents : Nat} {s s' : Server C H}

theorem valid_main (lfd : Nat) : Valid K (main lfd : Server C H) := by
  constructor <;> simp [main, Pc.batch]

theorem reports_client {e : Event} (h : s.Reports K e) (hne : e.fd ≠ s.lfd) (hread : e.Readable) :
    ∃ c, s.conns e.fd = some c ∧ K.starts c = true := by
  rw [Reports, if_neg hne, Option.any_eq_true_iff_get] at h
  obtain ⟨hsome, hget⟩ := h
  exact ⟨_, (Option.some_get hsome).symm, of_decide_eq_true hget hread⟩

/-- An event tells the truth as long as its descriptor is left alone. -/
theorem reports_of_same {e : Event} (h : s.Reports K e) (hlfd : s'.lfd = s.lfd) (hconn : s'.conns e.fd = s.conns e.fd)
    (hq : e.fd = s.lfd → s.backlog ≠ [] → s'.backlog ≠ []) : s'.Reports K e := by
  unfold Reports at h ⊢
  rw [hlfd, hconn]
  split
  · rename_i he
    rw [if_pos he] at h
    exact fun hread => hq he (h hread)
  · rename_i he
    rwa [if_neg he] at h

/-- A step of the handler changes nothing but the connection it is at work on. -/
theorem valid_served (h : Valid K s) {fd : Nat} {hd : H} {evs : List Event} (hpc : s.pc = .busy fd hd evs)
    {o : Option C} {closed : List C} {pc : Pc H} (hpc' : pc = .handle evs ∨ ∃ h' c, pc = .busy fd h' evs ∧ o = some c) :
    Valid K { s with conns := Function.update s.conns fd o, closed := closed, pc := pc } := by
  obtain ⟨⟨d, hd⟩, hnot⟩ := h.busy _ _ _ hpc
  have hnodup := h.nodup
  have hreports := h.reports
  simp only [hpc, Pc.batch] at hnodup hreports
  have hbatch : pc.batch = evs := by rcases hpc' with rfl | ⟨h', c, rfl, -⟩ <;> rfl
  have hfd : fd ≠ s.lfd := by
    rintro rfl
    simp [h.lfd] at hd
  refine ⟨?_, ?_, ?_, ?_, ?_⟩
  · simpa [Function.update_of_ne hfd.symm] using h.lfd
  · rwa [hbatch]
  · rw [hbatch]
    intro e he
    -- what is left of the batch is of other descriptors
    have hefd : e.fd ≠ fd := by
      rintro rfl
      exact hnot (List.mem_map_of_mem he)
    exact reports_of_same (hreports e he) rfl (Function.update_of_ne hefd _ _) fun _ hq => hq
  · rintro fd' h' evs' hbusy
    rcases hpc' with rfl | ⟨h'', c, rfl, rfl⟩
    · cases hbusy
    · cases hbusy
      exact ⟨⟨c, Function.update_self ..⟩, hnot⟩
  · rcases hpc' with rfl | ⟨h', c, rfl, -⟩ <;> simp

theorem valid_step (hK : K.Level) (h : Valid K s) {a : Action A X} (hs : StepCase K maxevents s a s') : Valid K s' := by
  cases hs with
  | connect =>
    refine ⟨h.lfd, h.nodup, ?_, h.busy, h.fresh⟩
    exact fun e he => reports_of_same (h.reports e he) rfl rfl fun _ _ => by simp
  | arriveQueued hc ha =>
    refine ⟨h.lfd, h.nodup, ?_, h.busy, h.fresh⟩
    exact fun e he => reports_of_same (h.reports e he) rfl rfl fun _ hq => by simpa using hq
  | @arrive fd c c' a hc ha =>
    have hfd : fd ≠ s.lfd := by
      rintro rfl
      simp [h.lfd] at hc
    refine ⟨?_, h.nodup, ?_, ?_, h.fresh⟩
    · simpa [Function.update_of_ne hfd.symm] using h.lfd
    · intro e he
      by_cases hefd : e.fd = fd
      · have hrep := h.reports e he
        unfold Reports at hrep ⊢
        rw [if_neg (by rw [hefd]; exact hfd), hefd] at hrep ⊢
        rw [hc] at hrep
        -- what there was for the handler is still there
        simp only [Function.update_self, Option.any_some, decide_eq_true_eq] at hrep ⊢
        exact fun hread => hK a c c' ha (hrep hread)
      · exact reports_of_same (h.reports e he) rfl (Function.update_of_ne hefd _ _) fun _ hq => hq
    · intro fd' hd evs hpc
      obtain ⟨⟨d, hd⟩, hnot⟩ := h.busy fd' hd evs hpc
      refine ⟨?_, hnot⟩
      by_cases hfd' : fd' = fd
      · exact ⟨c', by rw [hfd']; exact Function.update_self ..⟩
      · exact ⟨d, by rw [← hd]; exact Function.update_of_ne hfd' _ _⟩
  | wait hpc _ hnodup hreports =>
    refine ⟨h.lfd, hnodup, ?_, by simp, by simp⟩
    exact fun e he => reports_of_same (hreports e he) rfl rfl fun _ hq => hq
  | exit _ => constructor <;> simp [exit, Pc.batch]
  | batchEnd hpc => exact ⟨h.lfd, by simp [Pc.batch], by simp [Pc.batch], by simp, by simp⟩
  | @pass e evs hpc =>
    have hnodup := h.nodup
    have hreports := h.reports
    simp only [hpc, Pc.batch, List.map_cons, List.nodup_cons] at hnodup hreports
    refine ⟨h.lfd, hnodup.2, ?_, by simp, by simp⟩
    exact fun f hf => reports_of_same (hreports f (List.mem_cons_of_mem _ hf)) rfl rfl fun _ hq => hq
  | @start e evs hpc hread hne =>
    have hnodup := h.nodup
    have hreports := h.reports
    simp only [hpc, Pc.batch, List.map_cons, List.nodup_cons] at hnodup hreports
    obtain ⟨c, hc, -⟩ := reports_client (hreports e List.mem_cons_self) hne hread
    refine ⟨h.lfd, hnodup.2, ?_, ?_, by simp⟩
    · exact fun f hf => reports_of_same (hreports f (List.mem_cons_of_mem _ hf)) rfl rfl fun _ hq => hq
    · rintro fd hd evs' ⟨⟩
      exact ⟨⟨c, hc⟩, hnodup.1⟩
  | @accept e evs c backlog cfd hpc he hq hne hfree =>
    have hnodup := h.nodup
    have hreports := h.reports
    simp only [hpc, Pc.batch, List.map_cons, List.nodup_cons] at hnodup hreports
    refine ⟨?_, hnodup.2, ?_, by simp, by simp⟩
    · simpa [Function.update_of_ne hne.symm] using h.lfd
    · intro f hf
      have hrep := hreports f (List.mem_cons_of_mem _ hf)
      have hflfd : f.fd ≠ s.lfd := by
        rintro hflfd
        exact hnodup.1 (List.mem_map.2 ⟨f, hf, hflfd.trans he.symm⟩)
      -- no event can be left of a descriptor that was not open
      have hfcfd : f.fd ≠ cfd := by
        rintro rfl
        simp [Reports, hflfd, hfree] at hrep
      exact reports_of_same hrep rfl (Function.update_of_ne hfcfd _ _) fun hf => absurd hf hflfd
  | stale hpc hc =>
    -- the handler's own descriptor is open
    obtain ⟨⟨d, hd⟩, -⟩ := h.busy _ _ _ hpc
    simp [hc] at hd
  | go hpc _ _ => exact valid_served h hpc (.inr ⟨_, _, rfl, rfl⟩)
  | done hpc _ _ => exact valid_served h hpc (.inl rfl)
  | close hpc _ _ => exact valid_served h hpc (.inl rfl)

/-- The world where one descriptor has changed. -/
theorem world_update (fd : Nat) (o : Option C) (backlog closed : List C) (pc : Pc H)
    (hat : ∀ fd', fd' ≠ fd → pc.at fd' = s.pc.at fd') :
    Server.world ⟨s.lfd, backlog, Function.update s.conns fd o, closed, pc⟩ =
      ⟨backlog, Function.update s.world.fds fd (o.map fun c => (c, pc.at fd)), closed⟩ := by
  simp only [Server.world, World.mk.injEq, true_and, and_true]
  funext fd'
  by_cases hfd : fd' = fd
  · rw [hfd, Function.update_self, Function.update_self]
  · rw [Function.update_of_ne hfd, Function.update_of_ne hfd, hat fd' hfd]

theorem world_fds {fd : Nat} {c : C} (hc : s.conns fd = some c) : s.world.fds fd = some (c, s.pc.at fd) := by
  simp [Server.world, hc]

@[simp] theorem at_handle (evs : List Event) (fd : Nat) : (Pc.handle evs : Pc H).at fd = none := rfl

@[simp] theorem at_busy (fd : Nat) (h : H) (evs : List Event) : (Pc.busy fd h evs).at fd = some h := if_pos rfl

theorem at_busy_of_ne {fd fd' : Nat} (hne : fd' ≠ fd) (h : H) (evs : List Event) : (Pc.busy fd h evs).at fd' = none :=
  if_neg (Ne.symm hne)

/-- A step does to the connections what the steps of the world do. -/
theorem world_step (h : Valid K s) {a : Action A X} (hs : StepCase K maxevents s a s') :
    s'.world = s.world ∨ World.Step K s.world s'.world := by
  cases hs with
  | connect => exact .inr .connect
  | arriveQueued hc ha => exact .inr (.arriveQueued hc ha)
  | arrive hc ha =>
    rw [world_update _ _ _ _ _ fun _ _ => rfl]
    exact .inr (.arrive (world_fds hc) ha)
  | wait hpc _ _ _ => exact .inl (by simp [Server.world, Pc.at, hpc])
  | exit _ => exact .inr .exit
  | batchEnd hpc => exact .inl (by simp [Server.world, Pc.at, hpc])
  | pass hpc => exact .inl (by simp [Server.world, Pc.at, hpc])
  | @start e evs hpc hread hne =>
    have hreports := h.reports
    simp only [hpc, Pc.batch] at hreports
    obtain ⟨c, hc, hstarts⟩ := reports_client (hreports e List.mem_cons_self) hne hread
    have hidle := world_fds hc
    have hnow := world_update e.fd (some c) s.backlog s.closed (.busy e.fd K.start evs) fun fd' hfd' => by
      rw [hpc, at_handle, at_busy_of_ne hfd']
    rw [hpc, at_handle] at hidle
    -- the connection itself stays as it is
    rw [Option.map_some, at_busy, ← hc, Function.update_eq_self] at hnow
    rw [hnow]
    exact .inr (.start hidle hstarts)
  | @accept e evs c backlog cfd hpc he hq hne hfree =>
    rw [world_update _ _ _ _ _ fun fd' _ => by rw [hpc, at_handle, at_handle]]
    exact .inr (.accept hq (by simp [Server.world, hfree]))
  | stale hpc hc =>
    obtain ⟨⟨d, hd⟩, -⟩ := h.busy _ _ _ hpc
    simp [hc] at hd
  | go hpc hc hr =>
    have hbusy := world_fds hc
    rw [hpc, at_busy] at hbusy
    rw [world_update _ _ _ _ _ fun fd' hfd' => by rw [hpc, at_busy_of_ne hfd', at_busy_of_ne hfd'],
      Option.map_some, at_busy]
    exact .inr (.go hbusy hr)
  | done hpc hc hr =>
    have hbusy := world_fds hc
    rw [hpc, at_busy] at hbusy
    rw [world_update _ _ _ _ _ fun fd' hfd' => by rw [hpc, at_busy_of_ne hfd', at_handle], Option.map_some, at_handle]
    exact .inr (.done hbusy hr)
  | close hpc hc hr =>
    have hbusy := world_fds hc
    rw [hpc, at_busy] at hbusy
    rw [world_update _ _ _ _ _ fun fd' hfd' => by rw [hpc, at_busy_of_ne hfd', at_handle], Option.map_none]
    exact .inr (.close hbusy hr)

/-- In every run the connections are served as if each was alone, and the events that are left are not stale. -/
theorem served_alone (hK : K.Level) {lfd : Nat} (h : Reach (step K maxevents) (main lfd) s) :
    Valid K s ∧ s.world.Sound K := by
  apply h.invariant (I := fun u => Valid K u ∧ u.world.Sound K)
  · exact ⟨valid_main lfd, World.Sound.init⟩
  · rintro u a u' ⟨hv, hw⟩ hs
    have hcase : StepCase K maxevents u a u' := step_cases hs
    refine ⟨valid_step hK hv hcase, ?_⟩
    rcases world_step hv hcase with heq | hstep
    · rw [heq]
      exact hw
    · exact hw.step hstep

end Connections

end LinuxProgram.Epoll
