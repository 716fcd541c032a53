/-
No input is stranded behind an edge that the server has used up. A connection with something to read
has a posted edge, or the server holds it: it was just accepted, its event is still to come in the
batch, or it is being read.
-/
import LinuxProgram.EpollEt.Code

namespace LinuxProgram.EpollEt

open LinuxProgram.Machine Server

/-! ## What the server holds -/

/-- The events of the batch that the loop has not come to. -/
def Pc.batch : Pc → List Event
  | .handle evs | .accepted _ evs | .read _ evs | .write _ _ evs => evs
  | .wait | .exited => []

/-- The connection whose read loop runs. -/
def Pc.drained : Pc → Option Nat
  | .read fd _ | .write fd _ _ => some fd
  | _ => none

/-- The connection that is accepted and not yet added to the epoll instance. -/
def Pc.entering : Pc → Option Nat
  | .accepted cfd _ => some cfd
  | _ => none

/-- Every connection with something to read has a posted edge or is the one being drained. -/
def EdgeOrDrained (s : Server) : Prop :=
  ∀ fd c, s.conns fd = some c → c.Pending → c.posted = true ∨ s.pc.drained = some fd

/-- The server comes to the connection without a further edge. -/
def Pc.Holds (pc : Pc) (fd : Nat) : Prop :=
  (∃ e ∈ pc.batch, e.fd = fd ∧ e.Readable) ∨ pc.drained = some fd ∨ pc.entering = some fd

/-- Every connection with something to read has a posted edge or is held by the server. -/
def NoneStranded (s : Server) : Prop :=
  ∀ fd c, s.conns fd = some c → c.Pending → c.posted = true ∨ s.pc.Holds fd

/-! ## What a step does -/

inductive Steps (s : Server) : Server → Prop where
  | backlog (backlog : List Conn) (h : s.backlog ≠ [] → backlog ≠ []) : Steps s { s with backlog := backlog }
  | arrive (fd : Nat) (c c' : Conn) (hc : s.conns fd = some c) (hreg : c'.registered = c.registered)
    (hpost : c'.posted = (c.posted || c.registered)) : Steps s { s with conns := Function.update s.conns fd (some c') }
  | wait (evs : List Event) (hpc : s.pc = .wait) (hnodup : (evs.map (·.fd)).Nodup) (hev : ∀ e ∈ evs, s.Reports e) :
    Steps s { s with
      conns := fun fd => (s.conns fd).map fun c => if fd ∈ evs.map (·.fd) then { c with posted := false } else c
      pc := .handle evs }
  | finish (hpc : s.pc = .handle []) : Steps s { s with pc := .wait }
  | pick (e : Event) (evs : List Event) (hpc : s.pc = .handle (e :: evs)) (hfd : e.fd ≠ s.fd) (hr : e.Readable) :
    Steps s { s with pc := .read e.fd evs }
  | skip (e : Event) (evs : List Event) (hpc : s.pc = .handle (e :: evs)) (hr : ¬ e.Readable) :
    Steps s { s with pc := .handle evs }
  | accept (e : Event) (evs : List Event) (c : Conn) (backlog : List Conn) (cfd : Nat) (hpc : s.pc = .handle (e :: evs))
    (hfd : e.fd = s.fd) (hb : s.backlog = c :: backlog) (hcfd : cfd ≠ s.fd) (hfree : s.conns cfd = none) :
    Steps s { s with
      backlog := backlog, conns := Function.update s.conns cfd (some c), pc := .accepted cfd evs }
  | add (cfd : Nat) (evs : List Event) (hpc : s.pc = .accepted cfd evs) :
    Steps s { s with conns := Function.update s.conns cfd ((s.conns cfd).map Conn.add), pc := .handle evs }
  | bytes (fd : Nat) (evs : List Event) (c : Conn) (n : Nat) (hpc : s.pc = .read fd evs) (hc : s.conns fd = some c) :
    Steps s { s with
      conns := Function.update s.conns fd (some { c with unread := c.unread.drop n })
      pc := .write fd (c.unread.take n) evs }
  | again (fd : Nat) (evs : List Event) (c : Conn) (hpc : s.pc = .read fd evs) (hc : s.conns fd = some c)
    (hidle : ¬ c.Pending) : Steps s { s with pc := .handle evs }
  | close (fd : Nat) (evs : List Event) (hpc : s.pc = .read fd evs) :
    Steps s { s with conns := Function.update s.conns fd none, pc := .handle evs }
  | write (fd : Nat) (buf : List UInt8) (evs : List Event) (n : Nat) (hpc : s.pc = .write fd buf evs) :
    Steps s { s with
      conns := Function.update s.conns fd ((s.conns fd).map fun c => { c with echoed := c.echoed ++ buf.take n })
      pc := .read fd evs }
  | exit : Steps s s.exit

theorem Conn.arrive_cases {c c' : Conn} {a : Arrival} (h : c.arrive a = some c') :
    c'.registered = c.registered ∧ c'.posted = (c.posted || c.registered) := by
  cases a with
  | bytes chunk =>
    unfold Conn.arrive at h
    obtain ⟨-, ⟨⟩⟩ := Option.ite_none_right_eq_some.1 h
    exact ⟨rfl, rfl⟩
  | fin =>
    unfold Conn.arrive at h
    obtain ⟨-, ⟨⟩⟩ := Option.ite_none_right_eq_some.1 h
    exact ⟨rfl, rfl⟩

theorem accepting_eq {s : Server} {evs : List Event} (h : s.accepting = some evs) :
    ∃ e, s.pc = .handle (e :: evs) ∧ e.fd = s.fd := by
  unfold Server.accepting at h
  split at h
  · rename_i e evs' hpc
    obtain ⟨⟨hfd, -⟩, ⟨⟩⟩ := Option.ite_none_right_eq_some.1 h
    exact ⟨e, hpc, hfd⟩
  · cases h

theorem next_cases {s s' : Server} (h : s.next = some s') : Steps s s' := by
  unfold Server.next at h
  split at h
  · rename_i hpc
    cases h
    exact .finish hpc
  · rename_i e evs hpc
    split at h
    · cases h
    rename_i hl
    split at h
    · rename_i hr
      cases h
      exact .pick e evs hpc (fun hfd => hl ⟨hfd, hr⟩) hr
    · rename_i hr
      cases h
      exact .skip e evs hpc hr
  · cases h

theorem close_cases {s : Server} {fd : Nat} {evs : List Event} (hpc : s.pc = .read fd evs) :
    Steps s (s.close fd evs) := by
  unfold Server.close
  split
  · exact .close fd evs hpc
  · exact .exit

theorem read_cases {s s' : Server} {r : ReadResult} (h : s.read r = some s') : Steps s s' := by
  cases r with
  | bytes n =>
    unfold Server.read at h
    dsimp only at h
    split at h
    · rename_i fd evs hpc
      obtain ⟨c, hc, h⟩ := Option.bind_eq_some_iff.1 h
      split at h
      · obtain ⟨-, ⟨⟩⟩ := Option.ite_none_right_eq_some.1 h
        exact close_cases hpc
      · obtain ⟨-, ⟨⟩⟩ := Option.ite_none_right_eq_some.1 h
        exact .bytes fd evs c n hpc hc
    · cases h
  | again =>
    unfold Server.read at h
    dsimp only at h
    split at h
    · rename_i fd evs hpc
      obtain ⟨c, hc, h⟩ := Option.bind_eq_some_iff.1 h
      obtain ⟨hidle, ⟨⟩⟩ := Option.ite_none_left_eq_some.1 h
      exact .again fd evs c hpc hc hidle
    · cases h
  | error =>
    unfold Server.read at h
    dsimp only at h
    split at h
    · rename_i fd evs hpc
      cases h
      exact close_cases hpc
    · cases h

theorem step_cases {s s' : Server} {a : Action} (h : step s a = some s') : Steps s s' := by
  unfold step at h
  cases a with
  | connect =>
    obtain ⟨-, ⟨⟩⟩ := Option.ite_none_left_eq_some.1 h
    exact .backlog _ fun _ => List.append_ne_nil_of_right_ne_nil _ (by simp)
  | arriveQueued i a =>
    obtain ⟨c, -, rfl⟩ := Option.map_eq_some_iff.1 h
    exact .backlog _ fun hb => by rwa [Ne, List.set_eq_nil_iff]
  | arrive fd a =>
    obtain ⟨c', hc', rfl⟩ := Option.map_eq_some_iff.1 h
    obtain ⟨c, hc, harr⟩ := Option.bind_eq_some_iff.1 hc'
    obtain ⟨hreg, hpost⟩ := Conn.arrive_cases harr
    exact .arrive fd c c' hc hreg hpost
  | wait evs =>
    obtain ⟨⟨hpc, -, -, hnodup, hev⟩, ⟨⟩⟩ := Option.ite_none_right_eq_some.1 h
    exact .wait evs hpc hnodup hev
  | waitFails =>
    obtain ⟨-, ⟨⟩⟩ := Option.ite_none_right_eq_some.1 h
    exact .exit
  | next => exact next_cases h
  | accept cfd =>
    dsimp only [Server.accept] at h
    split at h
    · rename_i evs c backlog hacc hb
      obtain ⟨⟨hcfd, hfree⟩, ⟨⟩⟩ := Option.ite_none_right_eq_some.1 h
      obtain ⟨e, hpc, hfd⟩ := accepting_eq hacc
      exact .accept e evs c backlog cfd hpc hfd hb hcfd hfree
    · cases h
  | acceptFails =>
    obtain ⟨-, -, rfl⟩ := Option.map_eq_some_iff.1 h
    exact .exit
  | add =>
    dsimp only [Server.epollCtlAdd] at h
    split at h
    · rename_i cfd evs hpc
      cases h
      exact .add cfd evs hpc
    · cases h
  | read r => exact read_cases h
  | write n =>
    dsimp only [Server.write] at h
    split at h
    · rename_i fd buf evs hpc
      cases h
      exact .write fd buf evs n hpc
    · cases h
  | sigpipe =>
    dsimp only at h
    split at h
    · cases h
      exact .exit
    · cases h

/-! ## No edge is missed -/

/-- The listening socket is no connection; an open connection is registered or about to be. -/
structure Watched (s : Server) : Prop where
  listener : s.conns s.fd = none
  registered : ∀ fd c, s.conns fd = some c → c.registered = true ∨ s.pc.entering = some fd
  covered : NoneStranded s

theorem watched_of_none {s : Server} (h : ∀ fd, s.conns fd = none) : Watched s := by
  refine ⟨h _, fun fd c hc => ?_, fun fd c hc => ?_⟩ <;>
    rw [h] at hc <;> cases hc

theorem Pc.Holds.of_mem {pc : Pc} {e : Event} (he : e ∈ pc.batch) (hr : e.Readable) : pc.Holds e.fd :=
  .inl ⟨e, he, rfl, hr⟩

theorem holds_wait {fd : Nat} : ¬ Pc.wait.Holds fd := by
  unfold Pc.Holds
  simp [Pc.batch, Pc.drained, Pc.entering]

theorem holds_handle {fd : Nat} {evs : List Event} : (Pc.handle evs).Holds fd ↔ ∃ e ∈ evs, e.fd = fd ∧ e.Readable := by
  unfold Pc.Holds
  simp [Pc.batch, Pc.drained, Pc.entering]

theorem holds_accepted {fd cfd : Nat} {evs : List Event} :
    (Pc.accepted cfd evs).Holds fd ↔ (Pc.handle evs).Holds fd ∨ cfd = fd := by
  unfold Pc.Holds
  simp [Pc.batch, Pc.drained, Pc.entering]

theorem holds_read {fd fd' : Nat} {evs : List Event} :
    (Pc.read fd' evs).Holds fd ↔ (Pc.handle evs).Holds fd ∨ fd' = fd := by
  unfold Pc.Holds
  simp [Pc.batch, Pc.drained, Pc.entering]

theorem holds_write {fd fd' : Nat} {buf : List UInt8} {evs : List Event} :
    (Pc.write fd' buf evs).Holds fd ↔ (Pc.read fd' evs).Holds fd := by
  unfold Pc.Holds
  simp [Pc.batch, Pc.drained, Pc.entering]

/-- A connection that `epoll_wait` does not report keeps its edge; one that it reports while there is
something to read comes up in the batch. -/
theorem covered_wait {s : Server} (h : Watched s) (hpc : s.pc = .wait) {evs : List Event} (hev : ∀ e ∈ evs, s.Reports e)
    {fd : Nat} {c : Conn} (hc : s.conns fd = some c) (hp : c.Pending) :
    (fd ∉ evs.map (·.fd) ∧ c.posted = true) ∨ (Pc.handle evs).Holds fd := by
  by_cases hfd : fd ∈ evs.map (·.fd)
  · right
    obtain ⟨e, he, rfl⟩ := List.mem_map.1 hfd
    have hrep := hev e he
    have hl : e.fd ≠ s.fd := fun hl => by rw [hl, h.listener] at hc; cases hc
    unfold Server.Reports at hrep
    rw [if_neg hl, hc, Option.any_some, Bool.and_eq_true, decide_eq_true_eq] at hrep
    exact .of_mem he (hrep.2 hp)
  · left
    have hcov := h.covered fd c hc hp
    rw [hpc] at hcov
    exact ⟨hfd, hcov.resolve_right holds_wait⟩

/-- The server goes on to another statement. -/
theorem Watched.move {s : Server} (h : Watched s) (pc : Pc) (henter : s.pc.entering = none)
    (hholds : ∀ fd c, s.conns fd = some c → c.Pending → s.pc.Holds fd → pc.Holds fd) : Watched { s with pc := pc } := by
  refine ⟨h.listener, fun fd c hc => ?_, fun fd c hc hp => ?_⟩
  · exact .inl ((h.registered fd c hc).resolve_right (by rw [henter]; exact Option.some_ne_none fd ∘ Eq.symm))
  · exact (h.covered fd c hc hp).imp_right (hholds fd c hc hp)

/-- One descriptor changes, and the server goes on. -/
theorem Watched.set {s : Server} (h : Watched s) (backlog : List Conn) (pc : Pc) {fd : Nat} {v : Option Conn}
    (hl : s.fd = fd → v = none)
    (hnew : ∀ c, v = some c → (c.registered = true ∨ pc.entering = some fd) ∧
      (c.Pending → c.posted = true ∨ pc.Holds fd))
    (henter : ∀ fd', fd' ≠ fd → s.pc.entering = some fd' → pc.entering = some fd')
    (hholds : ∀ fd', fd' ≠ fd → fd' ≠ s.fd → s.pc.Holds fd' → pc.Holds fd') :
    Watched { s with backlog := backlog, conns := Function.update s.conns fd v, pc := pc } := by
  refine ⟨?_, fun fd' c hc => ?_, fun fd' c hc hp => ?_⟩
  · show Function.update s.conns fd v s.fd = none
    by_cases hne : s.fd = fd
    · rw [hne, Function.update_self, hl hne]
    · rw [Function.update_of_ne hne, h.listener]
  · change Function.update s.conns fd v fd' = some c at hc
    by_cases hne : fd' = fd
    · subst hne
      rw [Function.update_self] at hc
      exact (hnew c hc).1
    · rw [Function.update_of_ne hne] at hc
      exact (h.registered fd' c hc).imp_right (henter fd' hne)
  · change Function.update s.conns fd v fd' = some c at hc
    by_cases hne : fd' = fd
    · subst hne
      rw [Function.update_self] at hc
      exact (hnew c hc).2 hp
    · rw [Function.update_of_ne hne] at hc
      refine (h.covered fd' c hc hp).imp_right (hholds fd' hne ?_)
      rintro rfl
      rw [h.listener] at hc
      cases hc

theorem Watched.wait {s : Server} (h : Watched s) (hpc : s.pc = .wait) {evs : List Event}
    (hev : ∀ e ∈ evs, s.Reports e) : Watched { s with
      conns := fun fd => (s.conns fd).map fun c => if fd ∈ evs.map (·.fd) then { c with posted := false } else c
      pc := .handle evs } := by
  refine ⟨?_, fun fd d hd => ?_, fun fd d hd hp => ?_⟩
  · show Option.map _ (s.conns s.fd) = none
    rw [h.listener]
    rfl
  · obtain ⟨c, hc, rfl⟩ := Option.map_eq_some_iff.1 hd
    have hr := (h.registered fd c hc).resolve_right (by simp [hpc, Pc.entering])
    left
    split <;> exact hr
  · obtain ⟨c, hc, rfl⟩ := Option.map_eq_some_iff.1 hd
    have hp' : c.Pending := by split at hp <;> exact hp
    rcases covered_wait h hpc hev hc hp' with ⟨hfd, hpost⟩ | hheld
    · left
      rw [if_neg hfd]
      exact hpost
    · exact .inr hheld

theorem Watched.step {s s' : Server} (h : Watched s) (hs : Steps s s') : Watched s' := by
  have hopen : ∀ {fd c}, s.conns fd = some c → s.fd ≠ fd := by
    rintro fd c hc rfl
    rw [h.listener] at hc
    cases hc
  cases hs with
  | backlog => exact ⟨h.listener, h.registered, h.covered⟩
  | arrive fd c c' hc hreg hpost =>
    refine h.set s.backlog s.pc (fun hl => absurd hl (hopen hc)) ?_ (fun _ _ => id) (fun _ _ _ => id)
    rintro d ⟨⟩
    rw [hreg, hpost]
    refine ⟨h.registered fd c hc, fun _ => ?_⟩
    rcases h.registered fd c hc with hr | henter
    · left
      rw [hr, Bool.or_true]
    · exact .inr (.inr (.inr henter))
  | wait evs hpc hnodup hev => exact h.wait hpc hev
  | finish hpc =>
    refine h.move _ (by rw [hpc]; rfl) fun fd c hc hp hheld => ?_
    rw [hpc, holds_handle] at hheld
    simp at hheld
  | pick e evs hpc hfd hr =>
    refine h.move _ (by rw [hpc]; rfl) fun fd c hc hp hheld => ?_
    rw [hpc, holds_handle, List.exists_mem_cons_iff] at hheld
    exact holds_read.2 (hheld.symm.imp holds_handle.2 And.left)
  | skip e evs hpc hr =>
    refine h.move _ (by rw [hpc]; rfl) fun fd c hc hp hheld => ?_
    rw [hpc, holds_handle, List.exists_mem_cons_iff] at hheld
    exact holds_handle.2 (hheld.resolve_left fun he => hr he.2)
  | accept e evs c backlog cfd hpc hfd hb hcfd hfree =>
    refine h.set backlog _ (fun hl => absurd hl.symm hcfd) ?_ ?_ ?_
    · exact fun d _ => ⟨.inr rfl, fun _ => .inr (holds_accepted.2 (.inr rfl))⟩
    · intro fd _ henter
      rw [hpc] at henter
      cases henter
    · -- the event of the listening socket is no connection's
      intro fd _ hl hheld
      rw [hpc, holds_handle, List.exists_mem_cons_iff] at hheld
      exact holds_accepted.2 (.inl (holds_handle.2 (hheld.resolve_left fun he => hl (he.1.symm.trans hfd))))
  | add cfd evs hpc =>
    refine h.set s.backlog _ (fun hl => by rw [← hl, h.listener]; rfl) ?_ ?_ ?_
    · intro d hd
      obtain ⟨c, -, rfl⟩ := Option.map_eq_some_iff.1 hd
      exact ⟨.inl rfl, fun hp => .inl (decide_eq_true hp)⟩
    · intro fd hne henter
      rw [hpc] at henter
      exact absurd (Option.some.inj henter).symm hne
    · intro fd hne _ hheld
      rw [hpc, holds_accepted] at hheld
      exact hheld.resolve_right (Ne.symm hne)
  | bytes fd evs c n hpc hc =>
    have hr := (h.registered fd c hc).resolve_right (by simp [hpc, Pc.entering])
    refine h.set s.backlog _ (fun hl => absurd hl (hopen hc)) ?_ ?_ ?_
    · rintro d ⟨⟩
      exact ⟨.inl hr, fun _ => .inr (holds_write.2 (holds_read.2 (.inr rfl)))⟩
    · intro fd' _ henter
      rw [hpc] at henter
      cases henter
    · intro fd' _ _ hheld
      rw [hpc] at hheld
      exact holds_write.2 hheld
  | again fd evs c hpc hc hidle =>
    refine h.move _ (by rw [hpc]; rfl) fun fd' d hd hp hheld => ?_
    rw [hpc, holds_read] at hheld
    refine hheld.resolve_right ?_
    rintro rfl
    rw [hc] at hd
    cases hd
    exact hidle hp
  | close fd evs hpc =>
    refine h.set s.backlog _ (fun _ => rfl) (fun d hd => by cases hd) ?_ ?_
    · intro fd' _ henter
      rw [hpc] at henter
      cases henter
    · intro fd' hne _ hheld
      rw [hpc, holds_read] at hheld
      exact hheld.resolve_right (Ne.symm hne)
  | write fd buf evs n hpc =>
    refine h.set s.backlog _ (fun hl => by rw [← hl, h.listener]; rfl) ?_ ?_ ?_
    · intro d hd
      obtain ⟨c, hc, rfl⟩ := Option.map_eq_some_iff.1 hd
      exact ⟨.inl ((h.registered fd c hc).resolve_right (by simp [hpc, Pc.entering])),
        fun _ => .inr (holds_read.2 (.inr rfl))⟩
    · intro fd' _ henter
      rw [hpc] at henter
      cases henter
    · intro fd' _ _ hheld
      rwa [hpc, holds_write] at hheld
  | exit => exact watched_of_none fun _ => rfl

theorem watched_valid {fd : Nat} {s : Server} (h : Reach step (main fd) s) : Watched s :=
  h.invariant (watched_of_none fun _ => rfl) fun _ _ _ hI hs => hI.step (step_cases hs)

end LinuxProgram.EpollEt
