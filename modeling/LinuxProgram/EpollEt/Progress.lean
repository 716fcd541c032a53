/-
Whatever has arrived is read without another client. The server can always go on to `epoll_wait`, where
only posted edges are left, and they wake it.
-/
import LinuxProgram.EpollEt.Edges

namespace LinuxProgram.EpollEt

open LinuxProgram.Machine Server

/-- No client acts and no system call fails. -/
def Undisturbed (_ : Server) : Action → Prop
  | .connect | .arriveQueued _ _ | .arrive _ _ | .waitFails | .acceptFails | .read .error | .sigpipe => False
  | _ => True

/-! ## The loop is never stuck before `epoll_wait` -/

/-- The descriptors of the read loop and of the rest of the batch. -/
def Pc.fds (pc : Pc) : List Nat := pc.drained.toList ++ pc.batch.map (·.fd)

/-- The descriptors the loop will come to are different and open, and `Accept` will find a connection
and a free descriptor. -/
structure Served (s : Server) : Prop where
  opened : ∀ fd ∈ s.pc.fds, fd = s.fd ∨ (s.conns fd).isSome
  drained : s.pc.drained ≠ some s.fd
  distinct : s.pc.fds.Nodup
  queued : ∀ e ∈ s.pc.batch, e.fd = s.fd → e.Readable → s.backlog ≠ []
  free : ∃ n, ∀ fd, n ≤ fd → s.conns fd = none
  exited : s.pc = .exited → ∀ fd, s.conns fd = none

theorem free_update {conns : Nat → Option Conn} (h : ∃ n, ∀ fd, n ≤ fd → conns fd = none) (fd : Nat) (v : Option Conn) :
    ∃ n, ∀ fd', n ≤ fd' → Function.update conns fd v fd' = none := by
  obtain ⟨n, hn⟩ := h
  refine ⟨max n (fd + 1), fun fd' hle => ?_⟩
  rw [Function.update_of_ne (by omega)]
  exact hn fd' (by omega)

/-- The loop goes on from `pc₀` to fewer descriptors, which stay open. -/
theorem Served.shrink {s : Server} (h : Served s) {backlog : List Conn} {conns : Nat → Option Conn} {pc₀ pc : Pc}
    (hpc : s.pc = pc₀) (hsub : pc.fds.Sublist pc₀.fds) (hbatch : pc.batch ⊆ pc₀.batch)
    (hdrained : pc.drained ≠ some s.fd) (hopen : ∀ fd ∈ pc.fds, (s.conns fd).isSome → (conns fd).isSome)
    (hqueued : ∀ e ∈ pc.batch, e.fd = s.fd → s.backlog ≠ [] → backlog ≠ [])
    (hfree : ∃ n, ∀ fd, n ≤ fd → conns fd = none) (hrun : pc ≠ .exited) :
    Served { s with backlog := backlog, conns := conns, pc := pc } := by
  subst hpc
  exact ⟨fun fd hfd => (h.opened fd (hsub.subset hfd)).imp_right (hopen fd hfd), hdrained, h.distinct.sublist hsub,
    fun e he hl hr => hqueued e he hl (h.queued e (hbatch he) hl hr), hfree, fun hx => absurd hx hrun⟩

/-- The same, and nothing else changes. -/
theorem Served.move {s : Server} (h : Served s) {pc₀ pc : Pc} (hpc : s.pc = pc₀) (hsub : pc.fds.Sublist pc₀.fds)
    (hbatch : pc.batch ⊆ pc₀.batch) (hdrained : pc.drained ≠ some s.fd) (hrun : pc ≠ .exited) :
    Served { s with pc := pc } :=
  h.shrink hpc hsub hbatch hdrained (fun _ _ => id) (fun _ _ _ => id) h.free hrun

theorem isSome_update {conns : Nat → Option Conn} {fd : Nat} {v : Option Conn}
    (h : (conns fd).isSome → v.isSome) (fd' : Nat) (hfd' : (conns fd').isSome) :
    (Function.update conns fd v fd').isSome := by
  by_cases hne : fd' = fd
  · subst hne
    rw [Function.update_self]
    exact h hfd'
  · rwa [Function.update_of_ne hne]

theorem served_of_none {s : Server} (h : ∀ fd, s.conns fd = none) (hpc : s.pc.fds = []) (hd : s.pc.drained = none) :
    Served s where
  opened fd hfd := by rw [hpc] at hfd; cases hfd
  drained := by rw [hd]; exact (Option.some_ne_none _).symm
  distinct := by rw [hpc]; exact List.nodup_nil
  queued e he := by
    have : e.fd ∈ s.pc.fds := List.mem_append_right _ (List.mem_map_of_mem he)
    rw [hpc] at this
    cases this
  free := ⟨0, fun fd _ => h fd⟩
  exited _ := h

theorem Served.step {s s' : Server} (h : Served s) (hs : Steps s s') : Served s' := by
  have hnone : (none : Option Nat) ≠ some s.fd := (Option.some_ne_none _).symm
  cases hs with
  | backlog backlog hb =>
    exact ⟨h.opened, h.drained, h.distinct, fun e he hl hr => hb (h.queued e he hl hr), h.free, h.exited⟩
  | arrive fd c c' hc hreg hpost =>
    refine h.shrink rfl (List.Sublist.refl _) (List.Subset.refl _) h.drained ?_ (fun _ _ _ => id)
      (free_update h.free _ _) ?_
    · exact fun fd' _ => isSome_update (fun _ => rfl) fd'
    · intro hx
      rw [h.exited hx] at hc
      cases hc
  | wait evs hpc hnodup hev =>
    refine ⟨fun fd hfd => ?_, hnone, hnodup, fun e he hl hr => ?_, ?_, fun hx => by cases hx⟩
    · obtain ⟨e, he, rfl⟩ := List.mem_map.1 hfd
      have hrep := hev e he
      unfold Server.Reports at hrep
      split at hrep
      · left; assumption
      · right
        obtain ⟨c, hc, -⟩ := (Option.any_eq_true _ _).1 hrep
        show (Option.map _ (s.conns e.fd)).isSome
        rw [hc]
        rfl
    · have hrep := hev e he
      unfold Server.Reports at hrep
      rw [if_pos hl] at hrep
      exact hrep hr
    · obtain ⟨n, hn⟩ := h.free
      refine ⟨n, fun fd hle => ?_⟩
      show Option.map _ (s.conns fd) = none
      rw [hn fd hle]
      rfl
  | finish hpc => exact h.move hpc (List.nil_sublist _) (List.nil_subset _) hnone (by simp)
  | pick e evs hpc hfd hr =>
    -- the event becomes the connection in hand
    exact h.move hpc (List.Sublist.refl _) (List.subset_cons_self e evs) (fun he => hfd (Option.some.inj he)) (by simp)
  | skip e evs hpc hr =>
    exact h.move hpc (List.sublist_cons_self _ _) (List.subset_cons_self e evs) hnone (by simp)
  | accept e evs c backlog cfd hpc hfd hb hcfd hfree =>
    have hdis : (Pc.handle (e :: evs)).fds.Nodup := hpc ▸ h.distinct
    refine h.shrink hpc (List.sublist_cons_self _ _) (List.subset_cons_self e evs) hnone ?_ (fun e' he' hl _ => ?_)
      (free_update h.free _ _) (by simp)
    · exact fun fd _ => isSome_update (fun _ => rfl) fd
    · -- no other event of the batch is the listening socket's
      refine absurd ?_ (List.nodup_cons.1 hdis).1
      exact List.mem_map.2 ⟨e', he', hl.trans hfd.symm⟩
  | add cfd evs hpc =>
    refine h.shrink hpc (List.Sublist.refl _) (List.Subset.refl _) hnone ?_ (fun _ _ _ => id)
      (free_update h.free _ _) (by simp)
    exact fun fd _ => isSome_update (by rw [Option.isSome_map]; exact id) fd
  | bytes fd evs c n hpc hc =>
    refine h.shrink hpc (List.Sublist.refl _) (List.Subset.refl _) (hpc ▸ h.drained :) ?_ (fun _ _ _ => id)
      (free_update h.free _ _) (by simp)
    exact fun fd' _ => isSome_update (fun _ => rfl) fd'
  | again fd evs c hpc hc hidle =>
    exact h.move hpc (List.sublist_cons_self _ _) (List.Subset.refl _) hnone (by simp)
  | close fd evs hpc =>
    have hdis : (Pc.read fd evs).fds.Nodup := hpc ▸ h.distinct
    refine h.shrink hpc (List.sublist_cons_self _ _) (List.Subset.refl _) hnone (fun fd' hfd' ho => ?_)
      (fun _ _ _ => id)
      (free_update h.free _ _) (by simp)
    -- the batch has no second event of the connection
    rw [Function.update_of_ne]
    · exact ho
    · rintro rfl
      exact (List.nodup_cons.1 hdis).1 hfd'
  | write fd buf evs n hpc =>
    refine h.shrink hpc (List.Sublist.refl _) (List.Subset.refl _) (hpc ▸ h.drained :) ?_ (fun _ _ _ => id)
      (free_update h.free _ _) (by simp)
    exact fun fd' _ => isSome_update (by rw [Option.isSome_map]; exact id) fd'
  | exit => exact served_of_none (fun _ => rfl) rfl rfl

theorem served_valid {lfd : Nat} {s : Server} (h : Reach step (main lfd) s) : Served s :=
  h.invariant (served_of_none (fun _ => rfl) rfl rfl) fun _ _ _ hI hs => hI.step (step_cases hs)

/-! ## Whatever has arrived is read -/

section Progress

variable {lfd : Nat} {s : Server}

theorem ReachWith.undisturbed {s t u : Server} {a : Action} (hs : step s a = some t) (ha : Undisturbed s a)
    (h : ReachWith step Undisturbed t u) : ReachWith step Undisturbed s u :=
  (ReachWith.snoc (ReachWith.refl s) hs ha).trans h

/-- The read loop comes to its end, with nothing left to read on the connection or with the connection
closed. -/
theorem drained : ∀ (k : Nat) {s : Server} {fd : Nat} {evs : List Event} {c : Conn}, c.unread.length ≤ k →
    s.pc = .read fd evs → s.conns fd = some c → ∃ t, ReachWith step Undisturbed s t ∧ t.pc = .handle evs ∧
      ∀ d, t.conns fd = some d → ¬ d.Pending := by
  intro k
  induction k with
  | zero =>
    intro s fd evs c hlen hpc hc
    have hnil : c.unread = [] := List.length_eq_zero_iff.1 (Nat.le_zero.1 hlen)
    by_cases hfin : c.finished = true
    · refine ⟨s.close fd evs, ReachWith.undisturbed (a := .read (.bytes 0)) ?_ trivial (ReachWith.refl _), ?_, ?_⟩
      · simp only [step, Server.read, hpc, hc, Option.bind_some, if_pos (And.intro hnil hfin), if_true]
      · simp only [Server.close, hc]
      · intro d hd
        simp only [Server.close, hc, Function.update_self] at hd
        cases hd
    · have hidle : ¬ c.Pending := by
        rintro (hun | hp)
        · exact hun hnil
        · exact hfin hp
      refine ⟨{ s with pc := .handle evs },
        ReachWith.undisturbed (a := .read .again) ?_ trivial (ReachWith.refl _), rfl, ?_⟩
      · simp only [step, Server.read, hpc, hc, Option.bind_some, if_neg hidle]
      · intro d hd
        obtain rfl : c = d := Option.some.inj (hc.symm.trans hd)
        exact hidle
  | succ k ih =>
    intro s fd evs c hlen hpc hc
    by_cases hnil : c.unread = []
    · exact ih (by rw [hnil]; exact Nat.zero_le k) hpc hc
    · have hpos : 0 < c.unread.length := List.length_pos_iff.2 hnil
      let n := min bufLen c.unread.length
      have hn : n ≠ 0 := by simp only [n, bufLen]; omega
      have hread : step s (.read (.bytes n)) = some { s with
          conns := Function.update s.conns fd (some { c with unread := c.unread.drop n })
          pc := .write fd (c.unread.take n) evs } := by
        simp only [step, Server.read, hpc, hc, Option.bind_some, if_neg hn]
        rw [if_pos ⟨Nat.min_le_left .., Nat.min_le_right ..⟩]
      obtain ⟨t, ht, htpc, hidle⟩ := @ih
        { s with
          conns := Function.update s.conns fd (some
            { c with unread := c.unread.drop n, echoed := c.echoed ++ (c.unread.take n).take n })
          pc := .read fd evs } fd evs _ (by simp only [List.length_drop]; omega) rfl (Function.update_self ..)
      refine ⟨t, ReachWith.undisturbed hread trivial (ReachWith.undisturbed (a := .write n) ?_ trivial ht), htpc, hidle⟩
      simp only [step, Server.write, Function.update_self, Option.map_some, Function.update_idem]

/-- The loop over the batch comes to its end. -/
theorem reach_wait_of_handle : ∀ (evs : List Event) {s : Server}, Reach step (main lfd) s → s.pc = .handle evs →
    ∃ t, ReachWith step Undisturbed s t ∧ t.pc = .wait := by
  intro evs
  induction evs with
  | nil =>
    intro s _ hpc
    refine ⟨{ s with pc := .wait }, ReachWith.undisturbed (a := .next) ?_ trivial (ReachWith.refl _), rfl⟩
    simp only [step, Server.next, hpc]
  | cons e evs ih =>
    intro s h hpc
    have hserved := served_valid h
    by_cases hr : e.Readable
    · by_cases hfd : e.fd = s.fd
      · have he : e ∈ s.pc.batch := by rw [hpc]; exact List.mem_cons_self
        obtain ⟨c, backlog, hb⟩ := List.exists_cons_of_ne_nil (hserved.queued e he hfd hr)
        obtain ⟨n, hn⟩ := hserved.free
        have hacc : s.accepting = some evs := by
          simp only [Server.accepting, hpc, if_pos (And.intro hfd hr)]
        have haccept : step s (.accept (n + s.fd + 1)) = some { s with
            backlog := backlog
            conns := Function.update s.conns (n + s.fd + 1) (some c)
            pc := .accepted (n + s.fd + 1) evs } := by
          simp only [step, Server.accept, hacc, hb]
          rw [if_pos ⟨by omega, hn _ (by omega)⟩]
        have hadd := Reach.snoc (a := .add) (h.snoc haccept) rfl
        obtain ⟨t, ht, htpc⟩ := ih hadd rfl
        exact ⟨t, ReachWith.undisturbed haccept trivial (ReachWith.undisturbed (a := .add) rfl trivial ht), htpc⟩
      · have hnext : step s .next = some { s with pc := .read e.fd evs } := by
          simp only [step, Server.next, hpc]
          rw [if_neg (fun hb => hfd hb.1), if_pos hr]
        have hmem : e.fd ∈ s.pc.fds := by rw [hpc]; exact List.mem_cons_self
        obtain ⟨c, hc⟩ := Option.isSome_iff_exists.1 ((hserved.opened _ hmem).resolve_left hfd)
        obtain ⟨t, ht, htpc, -⟩ := @drained _ { s with pc := .read e.fd evs } _ _ _ (le_refl _) rfl hc
        obtain ⟨u, hu, hupc⟩ := ih ((h.snoc hnext).trans ht.reach) htpc
        exact ⟨u, ReachWith.undisturbed hnext trivial (ht.trans hu), hupc⟩
    · have hnext : step s .next = some { s with pc := .handle evs } := by
        simp only [step, Server.next, hpc]
        rw [if_neg (fun hb => hr hb.2), if_neg hr]
      obtain ⟨t, ht, htpc⟩ := ih (h.snoc hnext) rfl
      exact ⟨t, ReachWith.undisturbed hnext trivial ht, htpc⟩

theorem reach_wait_of_read (h : Reach step (main lfd) s) {fd : Nat} {evs : List Event} (hpc : s.pc = .read fd evs) :
    ∃ t, ReachWith step Undisturbed s t ∧ t.pc = .wait := by
  have hserved := served_valid h
  have hmem : fd ∈ s.pc.fds := by rw [hpc]; exact List.mem_cons_self
  have hl : fd ≠ s.fd := by
    rintro rfl
    exact hserved.drained (by rw [hpc]; rfl)
  obtain ⟨c, hc⟩ := Option.isSome_iff_exists.1 ((hserved.opened fd hmem).resolve_left hl)
  obtain ⟨t, ht, htpc, -⟩ := drained _ (le_refl _) hpc hc
  obtain ⟨u, hu, hupc⟩ := reach_wait_of_handle evs (h.trans ht.reach) htpc
  exact ⟨u, ht.trans hu, hupc⟩

/-- From every statement the server comes back to `epoll_wait`. -/
theorem reach_wait (h : Reach step (main lfd) s) (hrun : s.pc ≠ .exited) :
    ∃ t, ReachWith step Undisturbed s t ∧ t.pc = .wait := by
  cases hpc : s.pc with
  | wait => exact ⟨s, ReachWith.refl s, hpc⟩
  | handle evs => exact reach_wait_of_handle evs h hpc
  | accepted cfd evs =>
    have hadd : step s .add = some { s with
        conns := Function.update s.conns cfd ((s.conns cfd).map Conn.add), pc := .handle evs } := by
      simp only [step, Server.epollCtlAdd, hpc]
    obtain ⟨t, ht, htpc⟩ := reach_wait_of_handle evs (h.snoc hadd) rfl
    exact ⟨t, ReachWith.undisturbed hadd trivial ht, htpc⟩
  | read fd evs => exact reach_wait_of_read h hpc
  | write fd buf evs =>
    have hwrite : step s (.write buf.length) = some { s with
        conns := Function.update s.conns fd ((s.conns fd).map fun c =>
          { c with echoed := c.echoed ++ buf.take buf.length })
        pc := .read fd evs } := by
      simp only [step, Server.write, hpc]
    obtain ⟨t, ht, htpc⟩ := reach_wait_of_read (h.snoc hwrite) rfl
    exact ⟨t, ReachWith.undisturbed hwrite trivial ht, htpc⟩
  | exited => exact absurd hpc hrun

/-- A connection whose edge is posted while the server sleeps is reported and read. -/
theorem reach_read_of_posted (hw : Watched s) (hpc : s.pc = .wait) {fd : Nat} {c : Conn} (hc : s.conns fd = some c)
    (hpost : c.posted = true) : ∃ t, ReachWith step Undisturbed s t ∧ ∀ d, t.conns fd = some d → ¬ d.Pending := by
  have hl : fd ≠ s.fd := by
    rintro rfl
    rw [hw.listener] at hc
    cases hc
  have hr : Event.Readable ⟨fd, epollin⟩ := show epollin &&& epollin ≠ 0 by decide
  have hrep : s.Reports ⟨fd, epollin⟩ := by
    unfold Server.Reports
    rw [if_neg hl, hc, Option.any_some, hpost, Bool.true_and, decide_eq_true_eq]
    exact fun _ => hr
  have hwait : step s (.wait [⟨fd, epollin⟩]) = some { s with
      conns := fun fd' => (s.conns fd').map fun c => if fd' ∈ [fd] then { c with posted := false } else c
      pc := .handle [⟨fd, epollin⟩] } := by
    simp only [step, Server.epollWait]
    rw [if_pos]
    · rfl
    · refine ⟨hpc, List.cons_ne_nil _ _, show 1 ≤ evsLen by decide, List.nodup_singleton _, ?_⟩
      rintro e he
      rw [List.mem_singleton.1 he]
      exact hrep
  obtain ⟨t, ht, -, hidle⟩ := @drained _ { s with
      conns := fun fd' => (s.conns fd').map fun c => if fd' ∈ [fd] then { c with posted := false } else c
      pc := .read fd [] } fd [] _ (le_refl _) rfl (congrArg (Option.map _) hc)
  refine ⟨t, ReachWith.undisturbed hwait trivial (ReachWith.undisturbed (a := .next) ?_ trivial ht), hidle⟩
  simp only [step, Server.next]
  rw [if_neg (fun hb => hl hb.1), if_pos hr]

end Progress

/-- In every run, a connection with something to read has a posted edge or is held by the server, and the
server can go on to read it without any client. -/
theorem none_stranded (lfd : Nat) (s : Server) (h : Reach step (main lfd) s) :
    NoneStranded s ∧ ∀ fd c, s.conns fd = some c → c.Pending →
      ∃ t, ReachWith step Undisturbed s t ∧ ∀ d, t.conns fd = some d → ¬ d.Pending := by
  refine ⟨(watched_valid h).covered, fun fd c hc hp => ?_⟩
  have hrun : s.pc ≠ .exited := fun hx => by
    rw [(served_valid h).exited hx] at hc
    cases hc
  obtain ⟨t, ht, htpc⟩ := reach_wait h hrun
  have hw := watched_valid (h.trans ht.reach)
  by_cases hidle : ∀ d, t.conns fd = some d → ¬ d.Pending
  · exact ⟨t, ht, hidle⟩
  · simp only [not_forall, not_not] at hidle
    obtain ⟨d, hd, hpd⟩ := hidle
    have hpost := (hw.covered fd d hd hpd).resolve_right (by rw [htpc]; exact holds_wait)
    obtain ⟨u, hu, hidle⟩ := reach_read_of_posted hw htpc hd hpost
    exact ⟨u, ht.trans hu, hidle⟩

/-- Two clients connect and are accepted one after the other, the first having sent `hi` already. Then
both send, and one call of `epoll_wait` reports both. -/
def twoClients : List Action :=
  [.connect, .arriveQueued 0 (.bytes [104, 105]), .wait [⟨3, epollin⟩], .accept 5, .add, .next, .connect,
    .wait [⟨3, epollin⟩], .accept 6, .add, .next, .arrive 6 (.bytes [111, 107]),
    .wait [⟨5, epollin⟩, ⟨6, epollin⟩], .next]

theorem none_stranded_twoClients :
    let s := after step (main 3) twoClients
    s.pc = .read 5 [⟨6, epollin⟩] ∧ NoneStranded s ∧ ∀ fd c, s.conns fd = some c → c.Pending →
      ∃ t, ReachWith step Undisturbed s t ∧ ∀ d, t.conns fd = some d → ¬ d.Pending :=
  ⟨by decide +kernel, none_stranded 3 _ (reach_after (main 3) twoClients)⟩

/-- The server also holds connections that have neither an edge nor the read loop: the first client when
it is accepted and not yet added, the second while the first is drained. -/
theorem edge_gaps :
    (¬ ∀ lfd s, Reach step (main lfd) s → s.pc.batch = [] → EdgeOrDrained s) ∧
      ¬ ∀ lfd s, Reach step (main lfd) s → s.pc.entering = none → EdgeOrDrained s := by
  constructor
  · intro h
    have hgap := h 3 _ (reach_after (main 3) (twoClients.take 4)) (by decide +kernel) 5
      ⟨[104, 105], false, false, false, []⟩ (by decide +kernel) (by decide)
    have hneither : ¬ (false = true ∨ (after step (main 3) (twoClients.take 4)).pc.drained = some 5) := by
      decide +kernel
    exact hneither hgap
  · intro h
    have hgap := h 3 _ (reach_after (main 3) twoClients) (by decide +kernel) 6
      ⟨[111, 107], false, true, false, []⟩ (by decide +kernel) (by decide)
    have hneither : ¬ (false = true ∨ (after step (main 3) twoClients).pc.drained = some 6) := by decide +kernel
    exact hneither hgap

end LinuxProgram.EpollEt
