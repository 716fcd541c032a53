/-
The entries of the reactor, the open descriptors and the registrations always agree: each entry is
cleared, that of the listening socket, or that of an open client in one of the two states that the
callbacks switch between; and the bytes sent and received stand in any relation `R` that a reading
followed by a sending of what was read keeps.
-/
import LinuxProgram.Reactor.Code

namespace LinuxProgram.Reactor

open LinuxProgram.Machine Server

/-! ## The invariant -/

/-- What entry `i` is, if it holds `x`. -/
inductive Entry (R : List UInt8 → List UInt8 → Prop) (s : Server) (i : Nat) (x : XEvents) : Prop where
  | cleared (hfd : x.fd = 0) (hev : x.events = 0) (hcb : x.callback = none)
  | listening (hi : i = eventSize) (hfd : x.fd = s.lfd) (hev : x.events = epollin) (hcb : x.callback = some .initAccept)
  | reading (hc : x.fd ∈ s.clients) (hev : x.events = epollin) (hcb : x.callback = some .readData)
    (hreg : s.registered x.fd = some (epollin, i)) (hlog : R (s.sent x.fd) (s.received x.fd))
  | sending (hc : x.fd ∈ s.clients) (hev : x.events = epollout) (hcb : x.callback = some .sendData)
    (hreg : s.registered x.fd = some (epollout, i)) (before : List UInt8)
    (hgot : s.received x.fd = before ++ x.bytes x.buflen.toNat) (hlog : R (s.sent x.fd) before)

/-- Entries, open descriptors, registrations and the rest of the batch agree. -/
structure Consistent (R : List UInt8 → List UInt8 → Prop) (s : Server) : Prop where
  entry : ∀ i ≤ eventSize, Entry R s i (s.eventsG i)
  nodup : s.clients.Nodup
  client : ∀ c ∈ s.clients, c ≠ 0 ∧ c ≠ s.lfd ∧ ∃ i ≤ eventSize, (s.eventsG i).fd = c
  registered : ∀ fd m, s.registered fd = some m → m.2 ≤ eventSize ∧ (fd = s.lfd ∨ fd ∈ s.clients)
  listener : s.registered s.lfd = some (epollin, eventSize)
  batch : ∀ e ∈ s.batch, e.2 ≤ eventSize
  running : s.crashed = false

section Entries

variable {R : List UInt8 → List UInt8 → Prop} {s s' : Server} {i k c : Nat} {x : XEvents}

/-- A client's entry is the one its registration points to. -/
theorem Entry.registered (h : Entry R s i x) (h0 : x.fd ≠ 0) (hl : x.fd ≠ s.lfd) :
    s.registered x.fd = some (x.events, i) := by
  cases h with
  | cleared hfd _ _ => exact absurd hfd h0
  | listening _ hfd _ _ => exact absurd hfd hl
  | reading _ hev _ hreg _ => rw [hev]; exact hreg
  | sending _ hev _ hreg _ _ _ => rw [hev]; exact hreg

/-- No two entries have the descriptor of one client. -/
theorem Consistent.unique (h : Consistent R s) (hc : c ∈ s.clients) (hi : i ≤ eventSize) (hk : k ≤ eventSize)
    (hic : (s.eventsG i).fd = c) (hkc : (s.eventsG k).fd = c) : i = k := by
  obtain ⟨h0, hl, -⟩ := h.client c hc
  have h1 := (h.entry i hi).registered (by rwa [hic]) (by rwa [hic])
  have h2 := (h.entry k hk).registered (by rwa [hkc]) (by rwa [hkc])
  rw [hic] at h1
  rw [hkc, h1] at h2
  exact (Prod.mk.inj (Option.some.inj h2)).2

/-- The two states agree on every descriptor but `c`. -/
structure Elsewhere (c : Nat) (s s' : Server) : Prop where
  lfd : s'.lfd = s.lfd
  registered : ∀ fd, fd ≠ c → s'.registered fd = s.registered fd
  sent : ∀ fd, fd ≠ c → s'.sent fd = s.sent fd
  received : ∀ fd, fd ≠ c → s'.received fd = s.received fd
  clients : ∀ fd, fd ≠ c → (fd ∈ s'.clients ↔ fd ∈ s.clients)

theorem Entry.elsewhere (h : Entry R s i x) (he : Elsewhere c s s') (hx : x.fd ∈ s.clients → x.fd ≠ c) :
    Entry R s' i x := by
  cases h with
  | cleared hfd hev hcb => exact .cleared hfd hev hcb
  | listening hi hfd hev hcb => exact .listening hi (by rw [he.lfd]; exact hfd) hev hcb
  | reading hc hev hcb hreg hlog =>
    have hne := hx hc
    refine .reading ((he.clients _ hne).2 hc) hev hcb ?_ ?_
    · rw [he.registered _ hne]; exact hreg
    · rw [he.sent _ hne, he.received _ hne]; exact hlog
  | sending hc hev hcb hreg before hgot hlog =>
    have hne := hx hc
    refine .sending ((he.clients _ hne).2 hc) hev hcb ?_ before ?_ ?_
    · rw [he.registered _ hne]; exact hreg
    · rw [he.received _ hne]; exact hgot
    · rw [he.sent _ hne]; exact hlog

/-- A callback that changes one entry, and nothing about the descriptors but `c`. -/
theorem Consistent.replace (h : Consistent R s) (hk : k ≤ eventSize) (he : Elsewhere c s s')
    (hev : s'.eventsG = Function.update s.eventsG k x) (hx : Entry R s' k x)
    (hold : (s.eventsG k).fd ∈ s.clients → (s.eventsG k).fd = c)
    (hother : ∀ i ≤ eventSize, i ≠ k → (s.eventsG i).fd ∈ s.clients → (s.eventsG i).fd ≠ c) (hcl : c ≠ s.lfd)
    (hnodup : s'.clients.Nodup) (hnew : c ∈ s'.clients → c ≠ 0 ∧ x.fd = c)
    (hreg : ∀ m, s'.registered c = some m → m.2 ≤ eventSize ∧ c ∈ s'.clients)
    (hbatch : ∀ e ∈ s'.batch, e.2 ≤ eventSize) (hrun : s'.crashed = false) : Consistent R s' := by
  constructor
  · intro i hi
    rw [hev]
    by_cases hik : i = k
    · rw [hik, Function.update_self]
      exact hx
    · rw [Function.update_of_ne hik]
      exact (h.entry i hi).elsewhere he (hother i hi hik)
  · exact hnodup
  · intro c' hc'
    rw [he.lfd, hev]
    by_cases hcc : c' = c
    · subst hcc
      obtain ⟨h0, hfd⟩ := hnew hc'
      exact ⟨h0, hcl, k, hk, by rw [Function.update_self]; exact hfd⟩
    · have hc := (he.clients c' hcc).1 hc'
      obtain ⟨h0, hl, i, hi, hfd⟩ := h.client c' hc
      refine ⟨h0, hl, i, hi, ?_⟩
      rw [Function.update_of_ne]
      · exact hfd
      · rintro rfl
        exact hcc (hfd ▸ hold (hfd ▸ hc))
  · intro fd m hm
    by_cases hfc : fd = c
    · subst hfc
      exact ⟨(hreg m hm).1, .inr (hreg m hm).2⟩
    · rw [he.registered fd hfc] at hm
      obtain ⟨h1, h2⟩ := h.registered fd m hm
      refine ⟨h1, h2.imp (fun e => e.trans he.lfd.symm) (he.clients fd hfc).2⟩
  · rw [he.lfd, he.registered _ hcl.symm]
    exact h.listener
  · exact hbatch
  · exact hrun

end Entries

/-! ## The callbacks -/

section Callbacks

variable {R : List UInt8 → List UInt8 → Prop} {s : Server} {ev : Nat}

/-- Entry `ev`, cleared with `buflen` as it is, and its descriptor closed. -/
def Server.drop (ev : Nat) (buflen : Int) (s : Server) : Server :=
  { s with
    eventsG :=
      Function.update s.eventsG ev { fd := 0, events := 0, callback := none, buf := fun _ => 0, buflen := buflen }
    registered := Function.update s.registered (s.eventsG ev).fd none
    clients := s.clients.erase (s.eventsG ev).fd }

/-- Entry `ev` after its descriptor has delivered `data`. -/
def Server.read (ev : Nat) (data : List UInt8) (buf : Nat → UInt8) (s : Server) : Server :=
  { s with
    eventsG := Function.update s.eventsG ev
      { s.eventsG ev with events := epollout, callback := some .sendData, buf := buf, buflen := data.length }
    registered := Function.update s.registered (s.eventsG ev).fd
      ((s.registered (s.eventsG ev).fd).map fun _ => (epollout, ev))
    received := Function.update s.received (s.eventsG ev).fd (s.received (s.eventsG ev).fd ++ data) }

/-- Entry `ev` after its descriptor has taken `n` bytes. -/
def Server.write (ev n : Nat) (s : Server) : Server :=
  { s with
    eventsG := Function.update s.eventsG ev { s.eventsG ev with events := epollin, callback := some .readData }
    registered := Function.update s.registered (s.eventsG ev).fd
      ((s.registered (s.eventsG ev).fd).map fun _ => (epollin, ev))
    sent := Function.update s.sent (s.eventsG ev).fd (s.sent (s.eventsG ev).fd ++ (s.eventsG ev).bytes n) }

/-- The new client `cfd` in entry `ev`. -/
def Server.takeIn (cfd events ev : Nat) (s : Server) : Server :=
  { s with
    eventsG :=
      Function.update s.eventsG ev { s.eventsG ev with fd := cfd, events := events, callback := some .readData }
    registered := Function.update s.registered cfd ((s.registered cfd).or (some (events, ev)))
    clients := cfd :: s.clients
    received := Function.update s.received cfd []
    sent := Function.update s.sent cfd [] }

theorem terminate_of_pos {x : XEvents} {n : Nat} (hx : x.buflen = n) : x.terminate.buflen = n ∧
    x.terminate.bytes n = x.bytes n ∧ x.terminate.fd = x.fd := by
  unfold XEvents.terminate
  split
  · rename_i h
    rw [h, bufLen] at hx
    rw [hx.symm, h, bufLen]
    exact ⟨by norm_num, rfl, rfl⟩
  · rw [if_pos (by omega)]
    refine ⟨hx, ?_, rfl⟩
    apply List.map_congr_left
    intro k hk
    rw [List.mem_range] at hk
    exact Function.update_of_ne (by omega) _ _

theorem bytes_getD {data : List UInt8} {buf : Nat → UInt8} (x : XEvents) (hb : x.buf = fun k => data.getD k (buf k)) :
    x.bytes data.length = data := by
  unfold XEvents.bytes
  rw [hb]
  apply List.ext_getElem?
  intro k
  rw [List.getElem?_map]
  by_cases hk : k < data.length
  · rw [List.getElem?_range hk, Option.map_some, List.getElem?_eq_getElem hk, List.getD_eq_getElem?_getD,
      List.getElem?_eq_getElem hk, Option.getD_some]
  · rw [List.getElem?_eq_none (by simpa using hk), List.getElem?_eq_none (by omega), Option.map_none]

theorem sendData_cases {o : Outcome} {s' : Server} (h : sendData (s.eventsG ev).fd ev s o = some s') :
    (∃ n, o = .send n ∧ 0 < n ∧ (n : Int) ≤ (s.eventsG ev).buflen ∧ s' = s.write ev n) ∨
      (o = .send 0 ∨ o = .sendError) ∧ ∃ buflen, s' = s.drop ev buflen := by
  unfold sendData at h
  split at h
  · rename_i n
    split at h
    · rename_i hle
      split at h
      · rename_i hn
        cases h
        refine .inr ⟨.inl (by rw [hn]), (s.eventsG ev).buflen, ?_⟩
        simp [Server.drop, Server.close, Server.eventdel]
      · rename_i hn
        cases h
        exact .inl ⟨n, rfl, by omega, hle, rfl⟩
    · cases h
  · cases h
    refine .inr ⟨.inr rfl, (s.eventsG ev).buflen, ?_⟩
    simp [Server.drop, Server.close, Server.eventdel]
  · cases h

/-- The entry after a `recv`, with the byte behind the data set. -/
theorem readInto_entry {data : List UInt8} : ∃ buf, (List.range data.length).map buf = data ∧
    ({ s.eventsG ev with buf := fun k => data.getD k ((s.eventsG ev).buf k), buflen := data.length } :
    XEvents).terminate =
      { s.eventsG ev with buf := buf, buflen := data.length } := by
  let x : XEvents := { s.eventsG ev with buf := fun k => data.getD k ((s.eventsG ev).buf k), buflen := data.length }
  obtain ⟨h1, h2, -⟩ := terminate_of_pos (show x.buflen = data.length from rfl)
  refine ⟨x.terminate.buf, ?_, ?_⟩
  · show x.terminate.bytes data.length = data
    rw [h2]
    exact bytes_getD x rfl
  · show x.terminate = _
    have hkeep : x.terminate = { x with buf := x.terminate.buf, buflen := x.terminate.buflen } := by
      unfold XEvents.terminate
      split
      · rfl
      · split <;> rfl
    rw [hkeep, h1]

theorem readData_cases {o : Outcome} {s' : Server} (h : readData (s.eventsG ev).fd ev s o = some s') :
    (∃ data buf, o = .recv data ∧ data ≠ [] ∧ (List.range data.length).map buf = data ∧ s' = s.read ev data buf) ∨
      (o = .recv [] ∨ o = .recvError) ∧ ∃ buflen, s' = s.drop ev buflen := by
  unfold readData at h
  split at h
  · rename_i data
    split at h
    · obtain ⟨buf, hbuf, hx⟩ := @readInto_entry s ev data
      simp only [Server.readInto, hx, Function.update_self, Option.some.injEq] at h
      split at h
      · rename_i hle
        have hnil : data = [] := List.eq_nil_of_length_eq_zero (by omega)
        refine .inr ⟨.inl (by rw [hnil]), 0, ?_⟩
        rw [← h, hnil]
        simp [Server.drop, Server.close, Server.eventdel]
      · rename_i hle
        refine .inl ⟨data, buf, rfl, ?_, hbuf, ?_⟩
        · rintro rfl
          exact hle (le_refl _)
        · rw [← h]
          simp [Server.read, Server.eventset]
    · cases h
  · cases h
    refine .inr ⟨.inr rfl, -1, ?_⟩
    simp [Server.drop, Server.close, Server.eventdel, Server.readInto, XEvents.terminate]
  · cases h

theorem initAccept_cases {events : Nat} {o : Outcome} {s' : Server} (h : initAccept events s o = some s') :
    ∃ cfd, o = .accept cfd ∧ cfd ≠ 0 ∧ cfd ≠ s.lfd ∧ cfd ∉ s.clients ∧ s' = s.takeIn cfd events s.freeIndex := by
  unfold initAccept at h
  split at h
  · rename_i cfd
    split at h
    · rename_i hc
      cases h
      exact ⟨cfd, rfl, hc.1, hc.2.1, hc.2.2, rfl⟩
    · cases h
  · cases h

theorem freeIndex_batch (s : Server) (rest : List (Nat × Nat)) : { s with batch := rest }.freeIndex = s.freeIndex := by
  unfold Server.freeIndex
  rfl

theorem freeIndex_cases (s : Server) : (s.freeIndex < eventSize ∧ (s.eventsG s.freeIndex).fd = 0) ∨
    s.freeIndex = eventSize ∧ ∀ i < eventSize, (s.eventsG i).fd ≠ 0 := by
  unfold Server.freeIndex
  cases hf : (List.range eventSize).find? fun i => (s.eventsG i).fd == 0 with
  | some i =>
    have h1 := List.mem_of_find?_eq_some hf
    have h2 := List.find?_some hf
    exact .inl ⟨List.mem_range.1 h1, by simpa using h2⟩
  | none =>
    refine .inr ⟨rfl, fun i hi => ?_⟩
    have := List.find?_eq_none.1 hf i (List.mem_range.2 hi)
    simpa using this

end Callbacks

/-- Everything a step can do. -/
inductive StepCase (s : Server) : Action → Server → Prop where
  | wait {ready} (hr : s.Reports ready) : StepCase s (.wait ready)
      { s with batch := ready.filterMap fun r => (s.registered r.1).map fun m => (r.2, m.2) }
  | skip {events ev rest} (hb : s.batch = (events, ev) :: rest) : StepCase s (.dispatch .none) { s with batch := rest }
  | crash {o events ev rest} (hb : s.batch = (events, ev) :: rest) (hcb : (s.eventsG ev).callback = none)
      (hev : (s.eventsG ev).events ≠ 0) : StepCase s (.dispatch o) { s with batch := rest, crashed := true }
  | accept {events ev rest cfd} (hb : s.batch = (events, ev) :: rest)
      (hcb : (s.eventsG ev).callback = some .initAccept) (h0 : cfd ≠ 0) (hl : cfd ≠ s.lfd) (hc : cfd ∉ s.clients) :
      StepCase s (.dispatch (.accept cfd)) ({ s with batch := rest }.takeIn cfd (s.eventsG ev).events s.freeIndex)
  | read {events ev rest data buf} (hb : s.batch = (events, ev) :: rest)
      (hcb : (s.eventsG ev).callback = some .readData) (hd : data ≠ [])
        (hbuf : (List.range data.length).map buf = data) :
      StepCase s (.dispatch (.recv data)) ({ s with batch := rest }.read ev data buf)
  | write {events ev rest} {n : Nat} (hb : s.batch = (events, ev) :: rest)
      (hcb : (s.eventsG ev).callback = some .sendData) (hn : 0 < n) (hle : (n : Int) ≤ (s.eventsG ev).buflen) :
      StepCase s (.dispatch (.send n)) ({ s with batch := rest }.write ev n)
  | drop {o events ev rest buflen} (hb : s.batch = (events, ev) :: rest)
      (hcb : (s.eventsG ev).callback = some .readData ∨ (s.eventsG ev).callback = some .sendData)
      (ho : (o = .recv [] ∨ o = .recvError) ∨ o = .send 0 ∨ o = .sendError) : StepCase s (.dispatch o)
        ({ s with batch := rest }.drop ev buflen)

theorem step_cases {s s' : Server} {a : Action} (h : step s a = some s') : StepCase s a s' := by
  unfold step at h
  split at h
  · cases h
  · cases a with
    | wait ready =>
      simp only at h
      split at h
      · rename_i hr
        cases h
        exact .wait hr.2
      · cases h
    | dispatch o =>
      simp only at h
      split at h
      · cases h
      · rename_i events ev rest hb
        split at h
        · rename_i hmask
          have hev : (s.eventsG ev).events ≠ 0 := by
            intro h0
            exact hmask (by rw [h0, Nat.zero_and])
          split at h
          · rename_i hcb
            cases h
            exact .crash hb hcb hev
          · rename_i hcb
            obtain ⟨cfd, rfl, h0, hl, hc, rfl⟩ := initAccept_cases h
            rw [freeIndex_batch]
            exact .accept hb hcb h0 hl hc
          · rename_i hcb
            rcases readData_cases (s := { s with batch := rest }) h with ⟨data, buf, rfl, hd, hbuf, rfl⟩ | ⟨ho, b, rfl⟩
            · exact .read hb hcb hd hbuf
            · exact .drop hb (.inl hcb) (.inl ho)
          · rename_i hcb
            rcases sendData_cases (s := { s with batch := rest }) h with ⟨n, rfl, hn, hle, rfl⟩ | ⟨ho, b, rfl⟩
            · exact .write hb hcb hn hle
            · exact .drop hb (.inr hcb) (.inr ho)
        · split at h
          · rename_i ho
            cases h
            rw [ho]
            exact .skip hb
          · cases h

/-! ## A step keeps the invariant -/

/-- `R` holds of nothing, and goes on to hold when `chunk` has been received and, with `allowed`, the
first `n` of its bytes have been sent. -/
structure Kept (R : List UInt8 → List UInt8 → Prop) (allowed : Nat → Int → Prop) : Prop where
  nil : R [] []
  send : ∀ out before chunk n, n ≤ chunk.length → allowed n chunk.length → R out before →
    R (out ++ chunk.take n) (before ++ chunk)

/-- A `send` of the step that takes bytes takes an allowed number of those offered. -/
def Sends (allowed : Nat → Int → Prop) (s : Server) (a : Action) : Prop :=
  ∀ n events ev rest, a = .dispatch (.send n) → s.batch = (events, ev) :: rest → 0 < n → allowed n (s.eventsG ev).buflen

section Step

variable {R : List UInt8 → List UInt8 → Prop} {allowed : Nat → Int → Prop} {s : Server}

theorem bytes_take (x : XEvents) {n m : Nat} (h : n ≤ m) : x.bytes n = (x.bytes m).take n := by
  unfold XEvents.bytes
  rw [← List.map_take, List.take_range, Nat.min_eq_left h]

theorem Consistent.pop (h : Consistent R s) {e : Nat × Nat} {rest : List (Nat × Nat)} (hb : s.batch = e :: rest) :
    Consistent R { s with batch := rest } ∧ e.2 ≤ eventSize := by
  obtain ⟨h1, h2, h3, h4, h5, h6, h7⟩ := h
  rw [hb] at h6
  refine ⟨⟨fun i hi => ?_, h2, h3, h4, h5, fun e' he' => h6 e' (List.mem_cons_of_mem _ he'), h7⟩,
    h6 e List.mem_cons_self⟩
  exact (h1 i hi).elsewhere (c := 0) ⟨rfl, fun _ _ => rfl, fun _ _ => rfl, fun _ _ => rfl, fun _ _ => Iff.rfl⟩
    fun hc => (h3 _ hc).1

/-- The entry whose callback is `initAccept` is that of the listening socket. -/
theorem Consistent.listening (h : Consistent R s) {ev : Nat} (hev : ev ≤ eventSize)
    (hcb : (s.eventsG ev).callback = some .initAccept) :
    ev = eventSize ∧ (s.eventsG ev).fd = s.lfd ∧ (s.eventsG ev).events = epollin := by
  cases h.entry ev hev with
  | listening hi hfd hevents _ => exact ⟨hi, hfd, hevents⟩
  | cleared _ _ hcb' => rw [hcb] at hcb'; cases hcb'
  | reading _ _ hcb' _ _ => rw [hcb] at hcb'; cases hcb'
  | sending _ _ hcb' _ _ _ _ => rw [hcb] at hcb'; cases hcb'

theorem Consistent.takeIn (hR : Kept R allowed) (h : Consistent R s) {cfd : Nat} (h0 : cfd ≠ 0) (hl : cfd ≠ s.lfd)
    (hc : cfd ∉ s.clients) {k : Nat} (hk : k ≤ eventSize) (hfd : (s.eventsG k).fd = 0 ∨ (s.eventsG k).fd = s.lfd) :
    Consistent R (s.takeIn cfd epollin k) := by
  have hunreg : s.registered cfd = none := by
    cases hm : s.registered cfd with
    | none => rfl
    | some m => exact ((h.registered cfd m hm).2.elim hl hc).elim
  refine h.replace (c := cfd) hk ?_ rfl ?_ (fun hmem => ?_) (fun i _ _ hmem => ?_) hl (List.nodup_cons.2 ⟨hc, h.nodup⟩)
    (fun _ => ⟨h0, rfl⟩) (fun m hm => ?_) h.batch h.running
  · constructor
    · rfl
    · exact fun fd hfd => Function.update_of_ne hfd _ _
    · exact fun fd hfd => Function.update_of_ne hfd _ _
    · exact fun fd hfd => Function.update_of_ne hfd _ _
    · exact fun fd hfd => ⟨fun hm => (List.mem_cons.1 hm).resolve_left hfd, List.mem_cons_of_mem _⟩
  · refine .reading List.mem_cons_self rfl rfl ?_ ?_
    · simp [Server.takeIn, hunreg]
    · simpa [Server.takeIn] using hR.nil
  · obtain ⟨hne0, hnel, -⟩ := h.client _ hmem
    exact (hfd.elim hne0 hnel).elim
  · rintro rfl
    exact hc hmem
  · simp only [Server.takeIn, Function.update_self, hunreg, Option.none_or, Option.some.injEq] at hm
    rw [← hm]
    exact ⟨hk, List.mem_cons_self⟩

/-- The entry through which `readData` or `sendData` is called is a client's. -/
theorem Consistent.called (h : Consistent R s) {ev : Nat} (hev : ev ≤ eventSize)
    (hcb : (s.eventsG ev).callback = some .readData ∨ (s.eventsG ev).callback = some .sendData) :
    (s.eventsG ev).fd ∈ s.clients ∧ s.registered (s.eventsG ev).fd = some ((s.eventsG ev).events, ev) := by
  cases h.entry ev hev with
  | cleared _ _ hcb' => rw [hcb'] at hcb; simp at hcb
  | listening _ _ _ hcb' => rw [hcb'] at hcb; simp at hcb
  | reading hc hev _ hreg _ => exact ⟨hc, by rw [hev]; exact hreg⟩
  | sending hc hev _ hreg _ _ _ => exact ⟨hc, by rw [hev]; exact hreg⟩

/-- A callback of a client changes its entry and nothing about other descriptors. -/
theorem Consistent.change (h : Consistent R s) {ev c : Nat} {s' : Server} {x : XEvents} (hev : ev ≤ eventSize)
    (hc : c ∈ s.clients) (hfd : (s.eventsG ev).fd = c) (he : Elsewhere c s s')
    (heg : s'.eventsG = Function.update s.eventsG ev x) (hx : Entry R s' ev x) (hnodup : s'.clients.Nodup)
    (hnew : c ∈ s'.clients → x.fd = c) (hreg : ∀ m, s'.registered c = some m → m.2 = ev ∧ c ∈ s'.clients)
    (hbatch : s'.batch = s.batch) (hrun : s'.crashed = s.crashed) : Consistent R s' := by
  obtain ⟨h0, hl, -⟩ := h.client c hc
  refine h.replace hev he heg hx (fun _ => hfd) (fun i hi hne _ hic => hne ?_) hl hnodup (fun hm => ⟨h0, hnew hm⟩)
    (fun m hm => ?_) (by rw [hbatch]; exact h.batch) (hrun.trans h.running)
  · exact h.unique hc hi hev hic hfd
  · obtain ⟨h1, h2⟩ := hreg m hm
    exact ⟨h1 ▸ hev, h2⟩

theorem Consistent.drop (h : Consistent R s) {ev : Nat} (hev : ev ≤ eventSize)
    (hcb : (s.eventsG ev).callback = some .readData ∨ (s.eventsG ev).callback = some .sendData) (buflen : Int) :
    Consistent R (s.drop ev buflen) := by
  obtain ⟨hc, -⟩ := h.called hev hcb
  have hgone : (s.eventsG ev).fd ∉ (s.drop ev buflen).clients := h.nodup.not_mem_erase
  refine h.change hev hc rfl ?_ rfl (.cleared rfl rfl rfl) (h.nodup.erase _) (fun hm => absurd hm hgone)
    (fun m hm => ?_) rfl rfl
  · constructor
    · rfl
    · exact fun fd hfd => Function.update_of_ne hfd _ _
    · exact fun _ _ => rfl
    · exact fun _ _ => rfl
    · exact fun fd hfd => List.mem_erase_of_ne hfd
  · simp [Server.drop] at hm

theorem Consistent.read (h : Consistent R s) {ev : Nat} (hev : ev ≤ eventSize)
    (hcb : (s.eventsG ev).callback = some .readData) {data : List UInt8} {buf : Nat → UInt8}
    (hbuf : (List.range data.length).map buf = data) : Consistent R (s.read ev data buf) := by
  obtain ⟨hc, hreg⟩ := h.called hev (.inl hcb)
  have hlog : R (s.sent (s.eventsG ev).fd) (s.received (s.eventsG ev).fd) := by
    cases h.entry ev hev with
    | reading _ _ _ _ hlog => exact hlog
    | cleared _ _ hcb' => rw [hcb] at hcb'; cases hcb'
    | listening _ _ _ hcb' => rw [hcb] at hcb'; cases hcb'
    | sending _ _ hcb' _ _ _ _ => rw [hcb] at hcb'; cases hcb'
  have hreg' : (s.read ev data buf).registered (s.eventsG ev).fd = some (epollout, ev) := by
    simp [Server.read, hreg]
  refine h.change hev hc rfl ?_ rfl ?_ h.nodup (fun _ => rfl) (fun m hm => ?_) rfl rfl
  · constructor
    · rfl
    · exact fun fd hfd => Function.update_of_ne hfd _ _
    · exact fun _ _ => rfl
    · exact fun fd hfd => Function.update_of_ne hfd _ _
    · exact fun _ _ => Iff.rfl
  · refine .sending hc rfl rfl hreg' (s.received (s.eventsG ev).fd) ?_ hlog
    simp only [Server.read, Function.update_self, XEvents.bytes, Int.toNat_natCast, hbuf]
  · rw [hreg'] at hm
    cases hm
    exact ⟨rfl, hc⟩

theorem Consistent.write (hR : Kept R allowed) (h : Consistent R s) {ev : Nat} (hev : ev ≤ eventSize)
    (hcb : (s.eventsG ev).callback = some .sendData) {n : Nat} (hle : (n : Int) ≤ (s.eventsG ev).buflen)
    (hn : allowed n (s.eventsG ev).buflen) : Consistent R (s.write ev n) := by
  obtain ⟨hc, hreg⟩ := h.called hev (.inr hcb)
  obtain ⟨before, hgot, hlog⟩ : ∃ before, s.received (s.eventsG ev).fd =
      before ++ (s.eventsG ev).bytes (s.eventsG ev).buflen.toNat ∧ R (s.sent (s.eventsG ev).fd) before := by
    cases h.entry ev hev with
    | sending _ _ _ _ before hgot hlog => exact ⟨before, hgot, hlog⟩
    | cleared _ _ hcb' => rw [hcb] at hcb'; cases hcb'
    | listening _ _ _ hcb' => rw [hcb] at hcb'; cases hcb'
    | reading _ _ hcb' _ _ => rw [hcb] at hcb'; cases hcb'
  have hreg' : (s.write ev n).registered (s.eventsG ev).fd = some (epollin, ev) := by
    simp [Server.write, hreg]
  have hlen : ((s.eventsG ev).bytes (s.eventsG ev).buflen.toNat).length = (s.eventsG ev).buflen.toNat := by
    simp [XEvents.bytes]
  have hcast : ((s.eventsG ev).buflen.toNat : Int) = (s.eventsG ev).buflen := by omega
  refine h.change hev hc rfl ?_ rfl ?_ h.nodup (fun _ => rfl) (fun m hm => ?_) rfl rfl
  · constructor
    · rfl
    · exact fun fd hfd => Function.update_of_ne hfd _ _
    · exact fun fd hfd => Function.update_of_ne hfd _ _
    · exact fun _ _ => rfl
    · exact fun _ _ => Iff.rfl
  · refine .reading hc rfl rfl hreg' ?_
    have hsend := hR.send _ _ _ n (by rw [hlen]; omega) (by rw [hlen, hcast]; exact hn) hlog
    rw [← bytes_take _ (by omega), ← hgot] at hsend
    simpa only [Server.write, Function.update_self] using hsend
  · rw [hreg'] at hm
    cases hm
    exact ⟨rfl, hc⟩

/-- Every step keeps the invariant. -/
theorem Consistent.step (hR : Kept R allowed) (h : Consistent R s) {s' : Server} {a : Action}
    (hs : Reactor.step s a = some s') (hok : Sends allowed s a) : Consistent R s' := by
  cases step_cases hs with
  | @wait ready hr =>
    obtain ⟨h1, h2, h3, h4, h5, -, h7⟩ := h
    refine ⟨fun i hi => ?_, h2, h3, h4, h5, fun e he => ?_, h7⟩
    · exact (h1 i hi).elsewhere (c := 0) ⟨rfl, fun _ _ => rfl, fun _ _ => rfl, fun _ _ => rfl, fun _ _ => Iff.rfl⟩
        fun hc => (h3 _ hc).1
    · obtain ⟨r, -, hr⟩ := List.mem_filterMap.1 he
      obtain ⟨m, hm, rfl⟩ := Option.map_eq_some_iff.1 hr
      exact (h4 _ m hm).1
  | skip hb => exact (h.pop hb).1
  | @crash o events ev rest hb hcb hev =>
    cases h.entry ev (h.pop hb).2 with
    | cleared _ hev' _ => exact absurd hev' hev
    | listening _ _ _ hcb' => rw [hcb] at hcb'; cases hcb'
    | reading _ _ hcb' _ _ => rw [hcb] at hcb'; cases hcb'
    | sending _ _ hcb' _ _ _ _ => rw [hcb] at hcb'; cases hcb'
  | @accept events ev rest cfd hb hcb h0 hl hc =>
    obtain ⟨hpop, hev⟩ := h.pop hb
    obtain ⟨rfl, hfd, hin⟩ := h.listening hev hcb
    rw [hin]
    rcases freeIndex_cases s with ⟨h1, h2⟩ | ⟨h1, -⟩
    · exact hpop.takeIn hR h0 hl hc (le_of_lt h1) (.inl h2)
    · exact hpop.takeIn hR h0 hl hc (le_of_eq h1) (.inr (by rw [h1]; exact hfd))
  | read hb hcb hd hbuf => exact (h.pop hb).1.read (h.pop hb).2 hcb hbuf
  | write hb hcb hn hle => exact (h.pop hb).1.write hR (h.pop hb).2 hcb hle (hok _ _ _ _ rfl hb hn)
  | drop hb hcb ho => exact (h.pop hb).1.drop (h.pop hb).2 hcb _

end Step

/-- The invariant along a run. -/
theorem consistent_valid {R : List UInt8 → List UInt8 → Prop} {allowed : Nat → Int → Prop}
    (hR : Kept R allowed) {lfd : Nat} {s : Server} (h : ReachWith step (Sends allowed) (main lfd) s) :
    Consistent R s := by
  refine ReachWith.invariant (J := fun _ => True) h (fun _ _ => trivial) ?_ fun u a u' _ hI hok hs => hI.step hR hs hok
  constructor
  · intro i _
    by_cases hi : i = eventSize
    · subst hi
      have he : (main lfd).eventsG eventSize = ⟨lfd, epollin, some .initAccept, fun _ => 0, 0⟩ := by
        simp [main, Server.eventadd]
      rw [he]
      exact .listening rfl rfl rfl rfl
    · have he : (main lfd).eventsG i = ⟨0, 0, none, fun _ => 0, 0⟩ := Function.update_of_ne hi _ _
      rw [he]
      exact .cleared rfl rfl rfl
  · exact List.nodup_nil
  · exact fun c hc => by cases hc
  · intro fd m hm
    by_cases hfd : fd = lfd
    · subst hfd
      have he : (main fd).registered fd = some (epollin, eventSize) := Function.update_self ..
      rw [he] at hm
      cases hm
      exact ⟨le_refl _, .inl rfl⟩
    · have he : (main lfd).registered fd = none := Function.update_of_ne hfd _ _
      rw [he] at hm
      cases hm
  · exact Function.update_self ..
  · exact fun e he => by cases he
  · rfl

end LinuxProgram.Reactor
