/-
The echo server with threads does to its connections what a server may do that serves each of them alone. So what a
client sends comes back in order, whatever the other threads do in between.
-/
import LinuxProgram.Echo.Owners

namespace LinuxProgram.Echo.Threads

open LinuxProgram.Io LinuxProgram.Machine LinuxProgram.Machine.Connections

/-- A thread is at work on the connection. -/
def Serves (s : Server) (cfd : Nat) (h : Stage) : Prop :=
  ∃ tid info, s.threads tid = some ⟨info, .serving h⟩ ∧ s.heap info = some cfd

/-- The connections of the server, each with the thread that is at work on it. -/
structure Shows (s : Server) (w : World Conn Stage) : Prop where
  queued : w.queued = s.backlog
  conns : ∀ cfd, s.conns cfd = (w.fds cfd).map Prod.fst
  handler : ∀ cfd c o, w.fds cfd = some (c, o) → ∀ h, o = some h ↔ Serves s cfd h
  closed : w.closed = s.closed

section Connections

variable {s s' : Server} {w : World Conn Stage}

theorem Serves.owns {cfd : Nat} {h : Stage} (hserves : Serves s cfd h) : ∃ tid, Owns s cfd (some tid) := by
  obtain ⟨tid, info, ht, hinfo⟩ := hserves
  exact ⟨tid, info, h, ht, hinfo⟩

theorem Shows.fds (h : Shows s w) {cfd : Nat} {c : Conn} (hc : s.conns cfd = some c) :
    ∃ o, w.fds cfd = some (c, o) := by
  rw [h.conns cfd, Option.map_eq_some_iff] at hc
  obtain ⟨⟨d, o⟩, hd, rfl⟩ := hc
  exact ⟨o, hd⟩

/-- One connection changes, and the thread at work on it. -/
theorem Shows.update (h : Shows s w) (s' : Server) (cfd : Nat) (p : Option (Conn × Option Stage))
    (hconns : s'.conns = Function.update s.conns cfd (p.map Prod.fst))
    (hother : ∀ d ≠ cfd, ∀ g, Serves s' d g ↔ Serves s d g)
    (hcfd : ∀ c o, p = some (c, o) → ∀ g, o = some g ↔ Serves s' cfd g) :
    Shows s' ⟨s'.backlog, Function.update w.fds cfd p, s'.closed⟩ := by
  refine ⟨rfl, fun d => ?_, fun d c o hd => ?_, rfl⟩
  · by_cases hne : d = cfd
    · simp [hconns, hne]
    · simp [hconns, hne, h.conns d]
  · by_cases hne : d = cfd
    · subst hne
      simp only [Function.update_self] at hd
      exact hcfd c o hd
    · simp only [Function.update_of_ne hne] at hd
      intro g
      rw [hother d hne g]
      exact h.handler d c o hd g

/-- Nothing changes but the holder of memory. -/
theorem Shows.same (h : Shows s w) (hbacklog : s'.backlog = s.backlog) (hconns : s'.conns = s.conns)
    (hclosed : s'.closed = s.closed) (hserves : ∀ d g, Serves s' d g ↔ Serves s d g) : Shows s' w := by
  refine ⟨h.queued.trans hbacklog.symm, fun d => by rw [hconns, h.conns d], fun d c o hd g => ?_,
    h.closed.trans hclosed.symm⟩
  rw [hserves d g]
  exact h.handler d c o hd g

/-- A thread goes on from serving a connection. -/
theorem serves_relocate (h : Owned s) {tid info cfd : Nat} {hd : Stage} (ht : s.threads tid = some ⟨info, .serving hd⟩)
    (hinfo : s.heap info = some cfd) (s' : Server) (loc : Loc) (hheap : s'.heap = s.heap)
    (hthreads : s'.threads = Function.update s.threads tid (some ⟨info, loc⟩)) :
    (∀ d ≠ cfd, ∀ g, Serves s' d g ↔ Serves s d g) ∧ ∀ g, Serves s' cfd g ↔ loc = .serving g := by
  have hown : Owns s cfd (some tid) := ⟨info, hd, ht, hinfo⟩
  constructor
  · intro d hne g
    constructor
    · rintro ⟨t, i, hthread, hi⟩
      rw [hheap] at hi
      by_cases htid : t = tid
      · rw [hthreads, htid, Function.update_self] at hthread
        cases hthread
        rw [hinfo] at hi
        exact absurd (Option.some.inj hi).symm hne
      · rw [hthreads, Function.update_of_ne htid] at hthread
        exact ⟨t, i, hthread, hi⟩
    · rintro ⟨t, i, hthread, hi⟩
      have htid : t ≠ tid := by
        rintro rfl
        rw [ht] at hthread
        cases hthread
        rw [hinfo] at hi
        exact hne (Option.some.inj hi).symm
      exact ⟨t, i, by rw [hthreads, Function.update_of_ne htid, hthread], by rw [hheap, hi]⟩
  · intro g
    constructor
    · rintro ⟨t, i, hthread, hi⟩
      by_cases htid : t = tid
      · rw [hthreads, htid, Function.update_self] at hthread
        cases hthread
        rfl
      · rw [hthreads, Function.update_of_ne htid] at hthread
        rw [hheap] at hi
        exact absurd (Option.some.inj (h.owns.unique cfd _ _ ⟨i, g, hthread, hi⟩ hown)) htid
    · rintro rfl
      exact ⟨tid, info, by rw [hthreads, Function.update_self], by rw [hheap, hinfo]⟩

/-- Memory that nobody holds is given out. -/
theorem serves_malloc (h : Owned s) {info cfd : Nat} (hfree : s.heap info = none) (s' : Server)
    (hheap : s'.heap = Function.update s.heap info (some cfd)) (hthreads : s'.threads = s.threads) (d : Nat)
    (g : Stage) : Serves s' d g ↔ Serves s d g := by
  have hsame : ∀ t i, s.threads t = some ⟨i, .serving g⟩ → s'.heap i = s.heap i := by
    intro t i ht
    rw [hheap]
    refine Function.update_of_ne ?_ _ _
    rintro rfl
    obtain ⟨e, he⟩ := h.holds.there i (some t) ⟨_, ht, rfl⟩
    simp [hfree] at he
  unfold Serves
  rw [hthreads]
  constructor
  · rintro ⟨t, i, ht, hi⟩
    exact ⟨t, i, ht, (hsame t i ht).symm.trans hi⟩
  · rintro ⟨t, i, ht, hi⟩
    exact ⟨t, i, ht, (hsame t i ht).trans hi⟩

/-- A thread that serves nobody gives its memory back. -/
theorem serves_free (h : Owned s) {tid info : Nat} (ht : s.threads tid = some ⟨info, .closed⟩) (s' : Server)
    (hheap : s'.heap = Function.update s.heap info none) (hthreads : s'.threads = Function.update s.threads tid none)
    (d : Nat) (g : Stage) : Serves s' d g ↔ Serves s d g := by
  have hkeep : ∀ t i, s.threads t = some ⟨i, .serving g⟩ → s'.threads t = s.threads t ∧ s'.heap i = s.heap i := by
    intro t i hthread
    have htid : t ≠ tid := by
      rintro rfl
      simp [ht] at hthread
    refine ⟨by rw [hthreads, Function.update_of_ne htid], ?_⟩
    rw [hheap]
    refine Function.update_of_ne ?_ _ _
    rintro rfl
    have hother : Holds s i (some t) := ⟨_, hthread, rfl⟩
    have hthis : Holds s i (some tid) := ⟨_, ht, rfl⟩
    exact htid (Option.some.inj (h.holds.unique i _ _ hother hthis))
  constructor
  · rintro ⟨t, i, hthread, hi⟩
    have htid : t ≠ tid := by
      rintro rfl
      simp [hthreads] at hthread
    rw [hthreads, Function.update_of_ne htid] at hthread
    exact ⟨t, i, hthread, (hkeep t i hthread).2.symm.trans hi⟩
  · rintro ⟨t, i, hthread, hi⟩
    obtain ⟨hsame, hinfo⟩ := hkeep t i hthread
    exact ⟨t, i, hsame.trans hthread, hinfo.trans hi⟩

/-- `main` leaves a connection to a new thread. -/
theorem serves_create (h : Owned s) {info tid cfd : Nat} (hmain : s.main = .create info)
    (hinfo : s.heap info = some cfd) (hfree : s.threads tid = none) (s' : Server) (hheap : s'.heap = s.heap)
    (hthreads : s'.threads = Function.update s.threads tid (some ⟨info, .serving handler.start⟩)) :
    (∀ d ≠ cfd, ∀ g, Serves s' d g ↔ Serves s d g) ∧ ∀ g, Serves s' cfd g ↔ handler.start = g := by
  have hown : Owns s cfd none := .inr ⟨info, hmain, hinfo⟩
  have hcases : ∀ d g, Serves s' d g ↔ Serves s d g ∨ d = cfd ∧ handler.start = g := by
    intro d g
    unfold Serves
    rw [hheap]
    constructor
    · rintro ⟨t, i, hthread, hi⟩
      rw [hthreads, Function.update_apply] at hthread
      split at hthread
      · cases hthread
        rw [hinfo] at hi
        exact .inr ⟨(Option.some.inj hi).symm, rfl⟩
      · exact .inl ⟨t, i, hthread, hi⟩
    · rintro (⟨t, i, hthread, hi⟩ | ⟨rfl, rfl⟩)
      · have htid : t ≠ tid := by
          rintro rfl
          simp [hfree] at hthread
        exact ⟨t, i, by rw [hthreads, Function.update_of_ne htid, hthread], hi⟩
      · exact ⟨tid, info, by rw [hthreads, Function.update_self], hinfo⟩
  constructor
  · intro d hne g
    rw [hcases]
    exact or_iff_left fun hthis => hne hthis.1
  · intro g
    rw [hcases]
    refine ⟨?_, fun hstart => .inr ⟨rfl, hstart⟩⟩
    rintro (hserves | ⟨-, hstart⟩)
    · obtain ⟨t, ht⟩ := hserves.owns
      simpa using h.owns.unique cfd _ _ ht hown
    · exact hstart

theorem shows_create (h : Owned s) (hw : Shows s w) {info tid : Nat} (hmain : s.main = .create info)
    (hfree : s.threads tid = none) : ∃ w', World.Step handler w w' ∧
      Shows { s with threads := Function.update s.threads tid (some ⟨info, .serving handler.start⟩), main := .accept }
        w' := by
  obtain ⟨cfd, hinfo⟩ := h.holds.there info none hmain
  have hown : Owns s cfd none := .inr ⟨info, hmain, hinfo⟩
  obtain ⟨c, hc⟩ := h.owns.there cfd none hown
  obtain ⟨o, ho⟩ := hw.fds hc
  -- the connection is the business of `main` alone
  have hidle : o = none := by
    cases o with
    | none => rfl
    | some g =>
      obtain ⟨t, ht⟩ := ((hw.handler cfd c _ ho g).1 rfl).owns
      simpa using h.owns.unique cfd _ _ ht hown
  subst hidle
  have hconn : s.conns = Function.update s.conns cfd (some c) := by rw [← hc, Function.update_eq_self]
  refine ⟨_, .start ho rfl, ?_⟩
  rw [hw.queued, hw.closed]
  obtain ⟨hother, hthis⟩ := serves_create h hmain hinfo hfree { s with
      threads := Function.update s.threads tid (some ⟨info, .serving handler.start⟩)
      main := .accept } rfl rfl
  refine hw.update { s with threads := _, main := .accept } cfd _ hconn hother ?_
  rintro d o ⟨⟩ g
  rw [hthis, Option.some.injEq]

/-- A step does to the connections what a step of the world does. -/
theorem shows_step {a : Action} (h : Owned s) (hw : Shows s w) (hs : StepCase s a s') :
    ∃ w', (w' = w ∨ World.Step handler w w') ∧ Shows s' w' := by
  cases hs with
  | connect => exact ⟨_, .inr .connect, ⟨congrArg (· ++ _) hw.queued, hw.conns, hw.handler, hw.closed⟩⟩
  | arriveQueued hc ha =>
    rw [← hw.queued] at hc
    exact ⟨_, .inr (.arriveQueued hc ha), ⟨congrArg (List.set · _ _) hw.queued, hw.conns, hw.handler, hw.closed⟩⟩
  | @arrive fd c c' a hc ha =>
    obtain ⟨o, ho⟩ := hw.fds hc
    refine ⟨_, .inr (.arrive ho ha), ?_⟩
    rw [hw.queued, hw.closed]
    refine hw.update { s with conns := _ } fd _ rfl (fun _ _ _ => .rfl) ?_
    rintro d o' ⟨⟩
    exact hw.handler fd c o ho
  | exit => exact ⟨_, .inr .exit, ⟨rfl, fun _ => rfl, nofun, hw.closed⟩⟩
  | @accept cfd c backlog hmain hq hne hfree =>
    have hnone : w.fds cfd = none := by
      have := hw.conns cfd
      rw [hfree] at this
      exact Option.map_eq_none_iff.1 this.symm
    refine ⟨_, .inr (.accept (hw.queued.trans hq) hnone), ?_⟩
    rw [hw.closed]
    refine hw.update { s with backlog := backlog, conns := _, main := .malloc cfd } cfd _ rfl (fun _ _ _ => .rfl) ?_
    rintro d o ⟨⟩ g
    refine iff_of_false nofun fun hserves => ?_
    obtain ⟨t, i, hthread, hi⟩ := hserves
    obtain ⟨e, he⟩ := h.owns.there cfd (some t) ⟨i, g, hthread, hi⟩
    simp [hfree] at he
  | mallocFails hmain => exact ⟨w, .inl rfl, hw.same rfl rfl rfl fun _ _ => .rfl⟩
  | malloc hmain hfree => exact ⟨w, .inl rfl, hw.same rfl rfl rfl (serves_malloc h hfree _ rfl rfl)⟩
  | create hmain hfree =>
    obtain ⟨w', hstep, hshows⟩ := shows_create h hw hmain hfree
    exact ⟨w', .inr hstep, hshows⟩
  | stale ht hstale _ => exact ⟨w, .inl rfl, hw.same rfl rfl rfl fun _ _ => .rfl⟩
  | @go tid info cfd x g g' c c' ht hinfo hc hr =>
    obtain ⟨o, ho⟩ := hw.fds hc
    obtain rfl := (hw.handler cfd c o ho g).2 ⟨tid, info, ht, hinfo⟩
    refine ⟨_, .inr (.go ho hr), ?_⟩
    rw [hw.queued, hw.closed]
    obtain ⟨hother, hthis⟩ := serves_relocate h ht hinfo { s with
        conns := Function.update s.conns cfd (some c')
        threads := Function.update s.threads tid (some ⟨info, .serving g'⟩) } (.serving g') rfl rfl
    refine hw.update { s with conns := _, threads := _ } cfd _ rfl hother ?_
    rintro d o ⟨⟩ k
    rw [hthis]
    simp
  | @close tid info cfd x g c c' ht hinfo hc hr =>
    obtain ⟨o, ho⟩ := hw.fds hc
    obtain rfl := (hw.handler cfd c o ho g).2 ⟨tid, info, ht, hinfo⟩
    refine ⟨_, .inr (.close ho hr), ?_⟩
    rw [hw.queued, hw.closed]
    obtain ⟨hother, -⟩ := serves_relocate h ht hinfo { s with
        conns := Function.update s.conns cfd none
        closed := c' :: s.closed
        threads := Function.update s.threads tid (some ⟨info, .closed⟩) } .closed rfl rfl
    exact hw.update { s with conns := _, closed := c' :: s.closed, threads := _ } cfd none rfl hother nofun
  | free ht _ => exact ⟨w, .inl rfl, hw.same rfl rfl rfl (serves_free h ht _ rfl rfl)⟩

/-- In every run the connections are served as if each was alone. -/
theorem served_alone {fd : Nat} (h : Reach step (main fd) s) : ∃ w, World.Sound handler w ∧ Shows s w := by
  refine ReachWith.invariant (I := fun u => ∃ w, World.Sound handler w ∧ Shows u w) h (fun u hu => owned_reach hu) ?_ ?_
  · exact ⟨_, World.Sound.init, rfl, fun _ => rfl, nofun, rfl⟩
  · rintro u a u' hu ⟨w, hsound, hshows⟩ - hs
    obtain ⟨w', rfl | hstep, hshows'⟩ := shows_step hu hshows (step_cases hs)
    · exact ⟨w', hsound, hshows'⟩
    · exact ⟨w', hsound.step hstep, hshows'⟩

theorem emptyHanded : EmptyHanded (.go .read) := .inr rfl

/-- In every interleaving no thread uses a `CINFO` that is not allocated or a descriptor that is not open; every
`CINFO` that is allocated has one holder, which is to free it; what a client has sent comes back in order, unless its
connection fails; and a connection is closed only when everything has come back. -/
theorem echo_threads {fd : Nat} (h : Reach step (main fd) s) :
    s.stale = false ∧ (∀ info cfd, s.heap info = some cfd → ∃! o, Holds s info o) ∧
      (∀ cfd c, s.conns cfd = some c → ∃ o, c.Conserved o ∧ ∀ g, o = some g ↔ Serves s cfd g) ∧
      ∀ c ∈ s.closed, c.Complete := by
  have howned := owned_reach h
  obtain ⟨w, hsound, hshows⟩ := served_alone h
  refine ⟨howned.fresh, ?_, ?_, ?_⟩
  · intro info cfd hinfo
    obtain ⟨o, ho⟩ := howned.held info cfd hinfo
    exact ⟨o, ho, fun o' ho' => howned.holds.unique info o' o ho' ho⟩
  · intro cfd c hc
    obtain ⟨o, ho⟩ := hshows.fds hc
    exact ⟨o, conserved emptyHanded (hsound.fds cfd c o ho), hshows.handler cfd c o ho⟩
  · intro c hc
    rw [← hshows.closed] at hc
    exact complete emptyHanded (hsound.closed c hc)

/-- One client sends and goes while `main` is still about to create its thread; the address and the descriptor are
given out again to the next one. -/
def twoClients : List Action :=
  [.connect, .accept (some 4), .malloc (some 100), .arrive 4 (.bytes [104, 105]), .create (some 1), .run 1 (.bytes 2),
    .arrive 4 .fin, .run 1 (.wrote 2), .run 1 (.bytes 0), .connect, .accept (some 4), .free 1, .malloc (some 100),
    .create (some 1)]

theorem echo_threads_two_clients :
    let s := after step (main 3) twoClients
    (s.heap 100 = some 4 ∧ s.closed.map Conn.echoed = [[104, 105]]) ∧
      s.stale = false ∧ (∀ info cfd, s.heap info = some cfd → ∃! o, Holds s info o) ∧
      (∀ cfd c, s.conns cfd = some c → ∃ o, c.Conserved o ∧ ∀ g, o = some g ↔ Serves s cfd g) ∧
      ∀ c ∈ s.closed, c.Complete :=
  ⟨by decide +kernel, echo_threads (reach_after (main 3) twoClients)⟩

end Connections

end LinuxProgram.Echo.Threads
