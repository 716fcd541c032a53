/-
What the reactor does to each connection. While the entries suffice, every open client has one entry,
in the state its registration says, and gets back bytes of its own, in order and at most once. It gets
all of them back exactly if each `send` takes all it is offered: `sendData` goes back to reading
whatever `send` returned. `Writen` of `wrap.c` sends again until all is sent.
-/
import LinuxProgram.Reactor.Capacity

namespace LinuxProgram.Reactor

open LinuxProgram.Machine Server

/-! ## Isolation -/

def XEvents.Reading (x : XEvents) : Prop := x.events = epollin ∧ x.callback = some .readData

def XEvents.Sending (x : XEvents) : Prop := x.events = epollout ∧ x.callback = some .sendData

/-- Every open client has one entry, which is reading or sending and registered so; no callback went
through a cleared entry; and what was sent on a connection was received on it before. -/
structure Isolated (s : Server) : Prop where
  client : ∀ c ∈ s.clients, ∃ i < eventSize, (s.eventsG i).fd = c ∧ (∀ j ≤ eventSize, (s.eventsG j).fd = c → j = i) ∧
    Xor (s.eventsG i).Reading (s.eventsG i).Sending ∧ s.registered c = some ((s.eventsG i).events, i)
  running : s.crashed = false
  echo : ∀ c, List.Sublist (s.sent c) (s.received c)

theorem kept_sublist : Kept List.Sublist fun _ _ => True where
  nil := List.Sublist.slnil
  send _ _ _ n _ _ h := h.append (List.take_sublist n _)

theorem kept_eq : Kept Eq fun n buflen => (n : Int) = buflen where
  nil := rfl
  send out before chunk n _ hn h := by
    rw [h, List.take_of_length_le (by omega)]

section Isolation

variable {lfd : Nat} {s : Server}

theorem consistent_sublist (h : Reach step (main lfd) s) : Consistent List.Sublist s :=
  consistent_valid kept_sublist (h.mono fun _ _ _ _ _ _ _ _ _ _ => trivial)

theorem Entry.exclusive {R : List UInt8 → List UInt8 → Prop} {i : Nat} {x : XEvents} (h : Entry R s i x)
    (h0 : x.fd ≠ 0) (hl : x.fd ≠ s.lfd) : Xor x.Reading x.Sending := by
  have hne : epollin ≠ epollout := by decide
  cases h with
  | cleared hfd _ _ => exact absurd hfd h0
  | listening _ hfd _ _ => exact absurd hfd hl
  | reading _ hev hcb _ _ => exact .inl ⟨⟨hev, hcb⟩, fun hs => hne (hev.symm.trans hs.1)⟩
  | sending _ hev hcb _ _ _ _ => exact .inr ⟨⟨hev, hcb⟩, fun hr => hne (hr.1.symm.trans hev)⟩

/-- The bytes of an open client. -/
theorem Consistent.sublist (h : Consistent List.Sublist s) {c : Nat} (hc : c ∈ s.clients) :
    List.Sublist (s.sent c) (s.received c) := by
  obtain ⟨h0, hl, i, hi, rfl⟩ := h.client c hc
  cases h.entry i hi with
  | cleared hfd _ _ => exact absurd hfd h0
  | listening _ hfd _ _ => exact absurd hfd hl
  | reading _ _ _ _ hlog => exact hlog
  | sending _ _ _ _ before hgot hlog =>
    rw [hgot]
    exact hlog.trans (List.sublist_append_left ..)

/-- A step leaves the record of a descriptor alone that is not open after it. -/
theorem logs_of_closed (h : Consistent List.Sublist s) {s' : Server} {a : Action} (hs : step s a = some s') {c : Nat}
    (hc : c ∉ s'.clients) : s'.sent c = s.sent c ∧ s'.received c = s.received c := by
  cases step_cases hs with
  | wait | skip | crash => exact ⟨rfl, rfl⟩
  | accept hb hcb h0 hl hfresh =>
    have hne : c ≠ _ := fun e => hc (e ▸ List.mem_cons_self)
    exact ⟨Function.update_of_ne hne _ _, Function.update_of_ne hne _ _⟩
  | read hb hcb hd hbuf =>
    have hne : c ≠ _ := fun e => hc (e ▸ (h.called (h.pop hb).2 (.inl hcb)).1)
    exact ⟨rfl, Function.update_of_ne hne _ _⟩
  | write hb hcb hn hle =>
    have hne : c ≠ _ := fun e => hc (e ▸ (h.called (h.pop hb).2 (.inr hcb)).1)
    exact ⟨Function.update_of_ne hne _ _, rfl⟩
  | drop hb hcb ho => exact ⟨rfl, rfl⟩

/-- What was sent on the latest connection with a number was received on it, also when it is closed. -/
theorem sublist_valid (h : Reach step (main lfd) s) (c : Nat) : List.Sublist (s.sent c) (s.received c) := by
  refine ReachWith.invariant (I := fun u => ∀ c, List.Sublist (u.sent c) (u.received c)) h
    (fun u hu => consistent_sublist hu) (fun _ => List.Sublist.slnil) (fun u a u' hC hI _ hs c => ?_) c
  by_cases hc : c ∈ u'.clients
  · exact (hC.step kept_sublist hs fun _ _ _ _ _ _ _ => trivial).sublist hc
  · obtain ⟨h1, h2⟩ := logs_of_closed hC hs hc
    rw [h1, h2]
    exact hI c

end Isolation

/-- In every run in which at most `_EVENT_SIZE_` clients are open at once, the entries, descriptors and
registrations agree and the connections do not touch each other. -/
theorem isolated (lfd : Nat) (s : Server) (h : ReachWith step RoomFor (main lfd) s) : Isolated s := by
  have hC := consistent_sublist h.reach
  refine ⟨fun c hc => ?_, hC.running, sublist_valid h.reach⟩
  obtain ⟨i, hi, hfd, huniq⟩ := (hC.slotLaw (listener_valid h)).client c hc
  obtain ⟨h0, hl, -⟩ := hC.client c hc
  have hentry := hC.entry i (le_of_lt hi)
  refine ⟨i, hi, hfd, huniq, hentry.exclusive (by rwa [hfd]) (by rwa [hfd]), ?_⟩
  rw [← hfd]
  exact hentry.registered (by rwa [hfd]) (by rwa [hfd])

/-- A client sends `hi`, and `send` takes one byte of it. -/
def shortRun : List Action :=
  [.wait [(3, epollin)], .dispatch (.accept 5), .wait [(5, epollin)], .dispatch (.recv [104, 105]),
    .wait [(5, epollout)], .dispatch (.send 1)]

/-- Then a second client comes and sends, the first one closes, and a third gets its descriptor and its entry. The
two that are open are reported and served together. -/
def reuseRun : List Action :=
  shortRun ++
  [.wait [(3, epollin)], .dispatch (.accept 6), .wait [(6, epollin), (5, epollin)], .dispatch (.recv [120]),
    .dispatch (.recv []), .wait [(3, epollin)], .dispatch (.accept 5), .wait [(5, epollin), (6, epollout)],
    .dispatch (.recv [121, 122]), .dispatch (.send 1), .wait [(5, epollout)], .dispatch (.send 2)]

theorem isolated_reuseRun :
    let s := after (stepIf step RoomFor) (main 3) reuseRun
    s.clients = [5, 6] ∧ (s.eventsG 0).fd = 5 ∧ (s.eventsG 1).fd = 6 ∧ s.sent 5 = [121, 122] ∧ s.sent 6 = [120] ∧
      Isolated s :=
  ⟨by decide +kernel, by decide +kernel, by decide +kernel, by decide +kernel, by decide +kernel,
    isolated 3 _ (.of_stepIf (reach_after (main 3) reuseRun))⟩

/-! ## Echo -/

/-- An open client whose entry reads has got back all it sent. -/
def EchoLaw (s : Server) : Prop := ∀ c ∈ s.clients, ∀ i ≤ eventSize, (s.eventsG i).fd = c →
  (s.eventsG i).callback = some .readData → s.sent c = s.received c

/-- A `send` that takes bytes takes all it is offered. -/
def FullSends : Server → Action → Prop := Sends fun n buflen => (n : Int) = buflen

theorem Consistent.echoLaw {s : Server} (h : Consistent Eq s) : EchoLaw s := by
  rintro c hc i hi rfl hcb
  cases h.entry i hi with
  | cleared _ _ hcb' => rw [hcb] at hcb'; cases hcb'
  | listening _ _ _ hcb' => rw [hcb] at hcb'; cases hcb'
  | reading _ _ _ _ hlog => exact hlog
  | sending _ _ hcb' _ _ _ _ => rw [hcb] at hcb'; cases hcb'

/-- After a short `send` the entry reads again with bytes missing. -/
theorem not_echoLaw_of_short {lfd : Nat} {s u : Server} (h : Reach step (main lfd) s) {a : Action}
    (hs : step s a = some u) (ha : ¬ FullSends s a) : ¬ EchoLaw u := by
  intro hecho
  simp only [FullSends, Sends, not_forall] at ha
  obtain ⟨n, events, ev, rest, rfl, hb, hpos, hshort⟩ := ha
  have hC := consistent_sublist h
  have hev := (hC.pop hb).2
  cases step_cases hs with
  | @write events' ev' rest' m hb' hcb hn hle =>
    obtain ⟨rfl, rfl⟩ : events' = events ∧ ev' = ev := by
      have := hb'.symm.trans hb
      simp only [List.cons.injEq, Prod.mk.injEq] at this
      exact this.1
    obtain ⟨hc, -⟩ := hC.called hev (.inr hcb)
    have hx : ({ s with batch := rest' }.write ev' n).eventsG ev' =
        { s.eventsG ev' with events := epollin, callback := some .readData } := Function.update_self ..
    have heq := hecho _ hc ev' hev (by rw [hx]) (by rw [hx])
    have hsent : ({ s with batch := rest' }.write ev' n).sent (s.eventsG ev').fd =
        s.sent (s.eventsG ev').fd ++ (s.eventsG ev').bytes n := Function.update_self ..
    cases hC.entry ev' hev with
    | sending _ _ _ _ before hgot hlog =>
      have hgot' : ({ s with batch := rest' }.write ev' n).received (s.eventsG ev').fd = _ := hgot
      rw [hsent, hgot'] at heq
      have hlen := congrArg List.length heq
      have hle' := hlog.length_le
      simp only [List.length_append, XEvents.bytes, List.length_map, List.length_range] at hlen
      omega
    | cleared _ _ hcb' => rw [hcb] at hcb'; cases hcb'
    | listening _ _ _ hcb' => rw [hcb] at hcb'; cases hcb'
    | reading _ _ hcb' _ _ => rw [hcb] at hcb'; cases hcb'
  | @crash o _ _ _ hb' hcb hev' =>
    have := (hC.step kept_sublist hs fun _ _ _ _ _ _ _ => trivial).running
    cases this
  | drop hb' hcb ho =>
    rcases ho with (ho | ho) | ho | ho <;> cases ho
    omega

/-- Each connection gets back what it sent exactly in the runs in which each `send` that takes bytes
takes all it is offered. -/
theorem echoLaw_exact (lfd : Nat) : ExactFor step FullSends EchoLaw (main lfd) where
  safe _ h := (consistent_valid kept_eq h).echoLaw
  needed _ _ u h hs ha := ⟨u, Reach.refl u, not_echoLaw_of_short h hs ha⟩

theorem short_send_loses_byte : ¬ ∀ (lfd : Nat) (s : Server), Reach step (main lfd) s → EchoLaw s := by
  intro h
  have hecho := h 3 _ (reach_after (main 3) shortRun) 5 (by decide +kernel) 0 (by decide +kernel) (by decide +kernel)
    (by decide +kernel)
  have hlost : (after step (main 3) shortRun).sent 5 ≠ (after step (main 3) shortRun).received 5 := by decide +kernel
  exact hlost hecho

end LinuxProgram.Reactor
