/-
What happens when the entries run out. `initAccept` looks for a free entry below `_EVENT_SIZE_` and uses
the index at which the search stops, which is the entry of the listening socket if there is none. So
the law of the slots is kept exactly by the runs in which a client is only accepted while fewer than
`_EVENT_SIZE_` are open.
-/
import LinuxProgram.Reactor.Slots

namespace LinuxProgram.Reactor

open LinuxProgram.Machine Server

/-! ## The property -/

/-- The last entry is the listening socket's, and every open client has exactly one entry, before it. -/
structure SlotLaw (s : Server) : Prop where
  listener : (s.eventsG eventSize).fd = s.lfd ∧ (s.eventsG eventSize).events = epollin ∧
    (s.eventsG eventSize).callback = some .initAccept
  client : ∀ c ∈ s.clients, ∃ i < eventSize, (s.eventsG i).fd = c ∧ ∀ j ≤ eventSize, (s.eventsG j).fd = c → j = i

/-- A client is only accepted while fewer than `_EVENT_SIZE_` are open. -/
def RoomFor (s : Server) (a : Action) : Prop := ∀ cfd, a = .dispatch (.accept cfd) → s.clients.length < eventSize

instance (s : Server) (a : Action) : Decidable (RoomFor s a) :=
  match a with
  | .wait _ => .isTrue fun _ h => by cases h
  | .dispatch .none => .isTrue fun _ h => by cases h
  | .dispatch (.recv _) => .isTrue fun _ h => by cases h
  | .dispatch .recvError => .isTrue fun _ h => by cases h
  | .dispatch (.send _) => .isTrue fun _ h => by cases h
  | .dispatch .sendError => .isTrue fun _ h => by cases h
  | .dispatch (.accept cfd) => decidable_of_iff (s.clients.length < eventSize) ⟨fun h _ _ => h, fun h => h cfd rfl⟩

section Full

variable {R : List UInt8 → List UInt8 → Prop} {s : Server}

/-- With fewer clients than entries some entry is free. -/
theorem Consistent.freeIndex_lt (h : Consistent R s) (hroom : s.clients.length < eventSize) :
    s.freeIndex < eventSize := by
  rcases freeIndex_cases s with ⟨hlt, -⟩ | ⟨-, hall⟩
  · exact hlt
  · -- every entry has a client of its own
    have hmem : ∀ i < eventSize, (s.eventsG i).fd ∈ s.clients := by
      intro i hi
      cases h.entry i (le_of_lt hi) with
      | cleared hfd _ _ => exact absurd hfd (hall i hi)
      | listening hi' _ _ _ => omega
      | reading hc _ _ _ _ => exact hc
      | sending hc _ _ _ _ _ _ => exact hc
    have hnodup : ((List.range eventSize).map fun i => (s.eventsG i).fd).Nodup := by
      refine List.Nodup.map_on (fun i hi j hj hij => ?_) List.nodup_range
      have hi := List.mem_range.1 hi
      have hj := List.mem_range.1 hj
      exact h.unique (hmem i hi) (le_of_lt hi) (le_of_lt hj) rfl hij.symm
    have hsub : ((List.range eventSize).map fun i => (s.eventsG i).fd) ⊆ s.clients := by
      intro fd hfd
      obtain ⟨i, hi, rfl⟩ := List.mem_map.1 hfd
      exact hmem i (List.mem_range.1 hi)
    have := (hnodup.subperm hsub).length_le
    rw [List.length_map, List.length_range] at this
    omega

/-- A client's entry is before that of the listening socket. -/
theorem Consistent.index_lt (h : Consistent R s) (hl : (s.eventsG eventSize).callback = some .initAccept) {c : Nat}
    (hc : c ∈ s.clients) : ∃ i < eventSize, (s.eventsG i).fd = c := by
  obtain ⟨-, hne, i, hi, hfd⟩ := h.client c hc
  refine ⟨i, ?_, hfd⟩
  have : i ≠ eventSize := by
    rintro rfl
    exact hne (hfd.symm.trans (h.listening (le_refl _) hl).2.1)
  omega

/-- With as many clients as entries none is free. -/
theorem Consistent.freeIndex_eq (h : Consistent R s) (hl : (s.eventsG eventSize).callback = some .initAccept)
    (hfull : eventSize ≤ s.clients.length) : s.freeIndex = eventSize := by
  rcases freeIndex_cases s with ⟨hlt, h0⟩ | ⟨heq, -⟩
  · -- the clients have entries other than the free one
    have hsub : s.clients ⊆ ((List.range eventSize).erase s.freeIndex).map fun i => (s.eventsG i).fd := by
      intro c hc
      obtain ⟨i, hi, hfd⟩ := h.index_lt hl hc
      refine List.mem_map.2 ⟨i, ?_, hfd⟩
      rw [List.nodup_range.mem_erase_iff]
      refine ⟨?_, List.mem_range.2 hi⟩
      rintro rfl
      exact (h.client c hc).1 (hfd.symm.trans h0)
    have hle := (h.nodup.subperm hsub).length_le
    rw [List.length_map, List.length_erase_of_mem (List.mem_range.2 hlt), List.length_range] at hle
    have : 0 < eventSize := by norm_num [eventSize]
    omega
  · exact heq

theorem Consistent.slotLaw (h : Consistent R s) (hl : (s.eventsG eventSize).callback = some .initAccept) :
    SlotLaw s := by
  obtain ⟨-, hfd, hev⟩ := h.listening (le_refl _) hl
  refine ⟨⟨hfd, hev, hl⟩, fun c hc => ?_⟩
  obtain ⟨i, hi, hic⟩ := h.index_lt hl hc
  exact ⟨i, hi, hic, fun j hj hjc => h.unique hc hj (le_of_lt hi) hjc hic⟩

/-- A step with room leaves the listening socket's entry alone. -/
theorem listener_step (h : Consistent R s) (hl : (s.eventsG eventSize).callback = some .initAccept) {s' : Server}
    {a : Action} (hs : step s a = some s') (hok : RoomFor s a) : s'.eventsG eventSize = s.eventsG eventSize := by
  have hne : ∀ {ev : Nat}, ((s.eventsG ev).callback = some .readData ∨ (s.eventsG ev).callback = some .sendData) →
      eventSize ≠ ev := by
    rintro ev hcb rfl
    rw [hl] at hcb
    simp at hcb
  cases step_cases hs with
  | wait | skip | crash => rfl
  | @accept events ev rest cfd hb hcb h0 hlfd hc =>
    have hlt := h.freeIndex_lt (hok cfd rfl)
    exact Function.update_of_ne hlt.ne' _ _
  | read hb hcb hd hbuf => exact Function.update_of_ne (hne (.inl hcb)) _ _
  | write hb hcb hn hle => exact Function.update_of_ne (hne (.inr hcb)) _ _
  | drop hb hcb ho => exact Function.update_of_ne (hne hcb) _ _

end Full

/-! ## Runs -/

section Runs

variable {lfd : Nat} {s : Server}

theorem kept_true : Kept (fun _ _ => True) fun _ _ => True := ⟨trivial, fun _ _ _ _ _ _ _ => trivial⟩

/-- The invariant with nothing said about the bytes. -/
theorem consistent (h : Reach step (main lfd) s) : Consistent (fun _ _ => True) s :=
  consistent_valid kept_true
    (h.mono fun _ _ _ _ _ _ _ _ _ _ => trivial)

theorem listener_valid (h : ReachWith step RoomFor (main lfd) s) :
    (s.eventsG eventSize).callback = some .initAccept := by
  refine ReachWith.invariant (I := fun u => (u.eventsG eventSize).callback = some .initAccept) h
    (fun u hu => consistent hu) ?_ fun u a u' hC hl hok hs => ?_
  · simp [main, Server.eventadd]
  · rw [listener_step hC hl hs hok]
    exact hl

/-- An accept without room overwrites the entry of the listening socket. -/
theorem not_slotLaw_of_full (h : Reach step (main lfd) s) {a : Action} {u : Server} (hs : step s a = some u)
    (ha : ¬ RoomFor s a) : ¬ SlotLaw u := by
  intro hlaw
  have hC := consistent h
  simp only [RoomFor, not_forall, not_lt] at ha
  obtain ⟨cfd, rfl, hfull⟩ := ha
  have hcb' := hlaw.listener.2.2
  cases step_cases hs with
  | @accept events ev rest cfd hb hcb h0 hlfd hc =>
    obtain ⟨rfl, -, -⟩ := hC.listening (hC.pop hb).2 hcb
    rw [hC.freeIndex_eq hcb hfull] at hcb'
    simp [Server.takeIn] at hcb'
  | @crash o events ev rest hb hcb hev =>
    have := (hC.step kept_true hs
      fun _ _ _ _ _ _ _ => trivial).running
    cases this
  | drop hb hcb ho => rcases ho with (ho | ho) | ho | ho <;> cases ho

end Runs

/-- The law of the slots holds exactly in the runs in which each client is accepted while fewer than
`_EVENT_SIZE_` are open. -/
theorem slotLaw_exact (lfd : Nat) : ExactFor step RoomFor SlotLaw (main lfd) where
  safe _ h := (consistent h.reach).slotLaw (listener_valid h)
  needed _ _ u h hs ha := ⟨u, Reach.refl u, not_slotLaw_of_full h hs ha⟩

/-! ## One client too many -/

section Accepts

variable {R : List UInt8 → List UInt8 → Prop} {s : Server}

/-- Between two batches the server can accept another client. -/
theorem exists_accept (h : Consistent R s) (hl : (s.eventsG eventSize).callback = some .initAccept)
    (hb : s.batch = []) :
    ∃ u v cfd, step s (.wait [(s.lfd, epollin)]) = some u ∧ step u (.dispatch (.accept cfd)) = some v ∧
      u.clients = s.clients ∧ v.clients = cfd :: s.clients ∧ v.batch = [] := by
  obtain ⟨-, hfd, hev⟩ := h.listening (le_refl _) hl
  obtain ⟨cfd, hfresh⟩ := Infinite.exists_notMem_finset (0 :: s.lfd :: s.clients).toFinset
  simp only [List.mem_toFinset, List.mem_cons, not_or] at hfresh
  have hrep : s.Reports [(s.lfd, epollin)] := by
    refine ⟨List.nodup_singleton _, by norm_num [eventSize], fun r hr => ?_⟩
    rw [List.mem_singleton.1 hr]
    refine ⟨_, h.listener, ?_⟩
    show epollin &&& (epollin ||| epollerr ||| epollhup) = epollin
    decide
  have hwait : step s (.wait [(s.lfd, epollin)]) = some { s with batch := [(epollin, eventSize)] } := by
    simp [step, h.running, hb, hrep, h.listener]
  let u : Server := { s with batch := [(epollin, eventSize)] }
  have haccept : step u (.dispatch (.accept cfd)) =
      some ({ u with batch := [] }.takeIn cfd epollin { u with batch := [] }.freeIndex) := by
    simp only [step, u, h.running, hev, hl, epollin, Bool.false_eq_true, if_false, Nat.and_self, ne_eq, one_ne_zero,
      not_false_eq_true, if_true, initAccept, hfresh, and_self]
    rfl
  exact ⟨u, _, cfd, hwait, haccept, rfl, rfl, rfl⟩

/-- The server fills up. -/
theorem reach_clients (lfd : Nat) (n : Nat) (hn : n ≤ eventSize) :
    ∃ s, ReachWith step RoomFor (main lfd) s ∧ s.clients.length = n ∧ s.batch = [] := by
  induction n with
  | zero => exact ⟨_, ReachWith.refl _, rfl, rfl⟩
  | succ n ih =>
    obtain ⟨s, hr, hlen, hb⟩ := ih (by omega)
    obtain ⟨u, v, cfd, hu, hv, hcu, hcv, hbv⟩ := exists_accept (consistent hr.reach) (listener_valid hr) hb
    refine ⟨v, (hr.snoc hu fun _ h => ?_).snoc hv fun _ _ => ?_, ?_, hbv⟩
    · cases h
    · rw [hcu]
      omega
    · rw [hcv, List.length_cons, hlen]

end Accepts

theorem listener_overwritten : ¬ ∀ (lfd : Nat) (s : Server), Reach step (main lfd) s → SlotLaw s := by
  intro h
  obtain ⟨s, hr, hlen, hb⟩ := reach_clients 3 eventSize (le_refl _)
  obtain ⟨u, v, cfd, hu, hv, hcu, -, -⟩ := exists_accept (consistent hr.reach) (listener_valid hr) hb
  have hru := hr.reach.snoc hu
  refine not_slotLaw_of_full hru hv (fun hroom => ?_) (h 3 v (hru.snoc hv))
  have := hroom cfd rfl
  rw [hcu, hlen] at this
  omega

end LinuxProgram.Reactor
