/-
One outstanding task for each connection. The tasks in the queue and with the workers have their
descriptors in hand until they have closed them or are over. As long as `addtask` stores tasks for
connections that are open, have something to read and have no task, these descriptors are pairwise
different, and each belongs to the connection it was reported for. So no two tasks are on one
connection, and only a connection's own task reads from it or closes it.
-/
import LinuxProgram.Simple.Jobs

namespace LinuxProgram.Simple

open LinuxProgram.Machine

/-! ## Connections -/

/-- Each connection is on at most one descriptor, and those in the backlog are on none. -/
structure Kernel.Sound (e : Kernel) : Prop where
  inj : ∀ fd fd' c, e.table fd = some c → e.table fd' = some c → fd = fd'
  old : ∀ fd c, e.table fd = some c → c < e.made ∧ c ∉ e.backlog
  waiting : ∀ c ∈ e.backlog, c < e.made
  nodup : e.backlog.Nodup

/-- Only the connections' data, or the epoll set, differ. -/
theorem Kernel.Sound.same {e e' : Kernel} (h : e.Sound) (h1 : e'.table = e.table) (h2 : e'.made = e.made)
    (h3 : e'.backlog = e.backlog) : e'.Sound := by
  obtain ⟨hi, ho, hw, hn⟩ := h
  exact ⟨by rw [h1]; exact hi, by rw [h1, h2, h3]; exact ho, by rw [h2, h3]; exact hw, by rw [h3]; exact hn⟩

theorem Kernel.Sound.connect {e : Kernel} (h : e.Sound) : e.connect.Sound := by
  unfold Kernel.connect
  refine ⟨h.inj, fun fd c hc => ?_, fun c hc => ?_, ?_⟩
  · obtain ⟨h1, h2⟩ := h.old fd c hc
    refine ⟨Nat.lt_succ_of_lt h1, fun hb => ?_⟩
    rcases List.mem_append.1 hb with hb | hb
    · exact h2 hb
    · rw [List.mem_singleton.1 hb] at h1; exact Nat.lt_irrefl _ h1
  · show c < e.made + 1
    rcases List.mem_append.1 hc with hb | hb
    · exact Nat.lt_succ_of_lt (h.waiting c hb)
    · rw [List.mem_singleton.1 hb]; exact Nat.lt_succ_self _
  · refine List.nodup_append.2 ⟨h.nodup, List.nodup_singleton _, fun a ha b hb => ?_⟩
    rw [List.mem_singleton.1 hb]
    exact Nat.ne_of_lt (h.waiting a ha)

theorem Kernel.Sound.accept {e : Kernel} (h : e.Sound) {c fd : Nat} {cs : List Nat} (hb : e.backlog = c :: cs) :
    (e.accept c fd).Sound := by
  have hc : c ∈ e.backlog := by rw [hb]; exact List.mem_cons_self
  have hnd := h.nodup
  rw [hb] at hnd
  have hcs : ∀ x ∈ cs, x ∈ e.backlog := fun x hx => by rw [hb]; exact List.mem_cons_of_mem _ hx
  unfold Kernel.accept
  simp only [hb, List.tail_cons]
  -- the connection on a descriptor after the call
  have htab : ∀ {k x}, Function.update e.table fd (some c) k = some x → k = fd ∧ x = c ∨ e.table k = some x := by
    intro k x hk
    by_cases hkf : k = fd
    · subst hkf; rw [Function.update_self] at hk; cases hk; exact .inl ⟨rfl, rfl⟩
    · rw [Function.update_of_ne hkf] at hk; exact .inr hk
  refine ⟨fun k k' x hk hk' => ?_, fun k x hk => ?_, fun x hx => h.waiting x (hcs x hx), (List.nodup_cons.1 hnd).2⟩
  · rcases htab hk with ⟨rfl, rfl⟩ | h1 <;> rcases htab hk' with ⟨rfl, h2⟩ | h2
    · rfl
    · exact absurd hc (h.old _ _ h2).2
    · subst h2; exact absurd hc (h.old _ _ h1).2
    · exact h.inj _ _ _ h1 h2
  · rcases htab hk with ⟨rfl, rfl⟩ | h1
    · exact ⟨h.waiting _ hc, (List.nodup_cons.1 hnd).1⟩
    · exact ⟨(h.old _ _ h1).1, fun hx => (h.old _ _ h1).2 (hcs _ hx)⟩

theorem Kernel.Sound.close {e : Kernel} (h : e.Sound) (fd : Nat) : (e.close fd).Sound := by
  have htab : ∀ {k x}, Function.update e.table fd none k = some x → e.table k = some x := by
    intro k x hk
    by_cases hkf : k = fd
    · subst hkf; rw [Function.update_self] at hk; cases hk
    · rwa [Function.update_of_ne hkf] at hk
  exact ⟨fun k k' x hk hk' => h.inj k k' x (htab hk) (htab hk'), fun k x hk => h.old k x (htab hk), h.waiting, h.nodup⟩

/-! ## What is in hand -/

/-- What the queue or a worker has in hand: a task whose read is to come, is done, or has left its
connection. -/
inductive Item where
  | unread (t : Task)
  | read (t : Task)
  | left (t : Task)

namespace Item

/-- The descriptors in hand. -/
def fds : Item → List Nat
  | .unread t | .read t => [t.fd]
  | .left _ => []

def task : Item → Task
  | .unread t | .read t | .left t => t

/-- The descriptor is open on the connection the task was added for; before the read there is
something to read. A connection that was left is on no descriptor and never again will be. -/
def Valid (e : Kernel) : Item → Prop
  | .unread t => ∃ c, t.note = some c ∧ e.table t.fd = some c ∧ e.readable c = true
  | .read t => ∃ c, t.note = some c ∧ e.table t.fd = some c
  | .left t => ∃ c, t.note = some c ∧ c < e.made ∧ c ∉ e.backlog ∧ ∀ fd, e.table fd ≠ some c

end Item

def Loc.items : ServerLoc → Multiset Item
  | .worker t .signal | .worker t .shutdownTest | .worker t .unlock | .worker t .call => {.unread t}
  | .callback t .read => {.unread t}
  | .callback t (.write _) | .callback t .close | .callback t (.ended false) => {.read t}
  | .callback t .ctlDel | .callback t (.ended true) => {.left t}
  | _ => 0

/-- The tasks of the queue and what the threads have in hand. -/
def inHand (cfg : Config) (p : Pool (Option Nat)) (n : Multiset Item) : Multiset Item :=
  ((p.queued cfg).map Item.unread : List Item) + n

/-- The descriptors in hand. -/
def fdsOf (m : Multiset Item) : Multiset Nat := m.bind fun it => (it.fds : List Nat)

/-- The invariant: all descriptors in hand are different and open on their own connections. -/
structure Exclusive (cfg : Config) (s : Sys Kernel (Option Nat)) (n : Multiset Item) : Prop where
  sound : s.env.Sound
  nodup : (fdsOf (inHand cfg s.pool n)).Nodup
  valid : ∀ it ∈ inHand cfg s.pool n, it.Valid s.env

/-! ## Changing what is in hand -/

section Change

variable {cfg : Config} {s : Sys Kernel (Option Nat)} {e' : Kernel} {n m m' : Multiset Item}

@[simp] theorem inHand_add (p : Pool (Option Nat)) : inHand cfg p (n + m) = inHand cfg p n + m := by
  simp [inHand, add_assoc]

@[simp] theorem fdsOf_add : fdsOf (n + m) = fdsOf n + fdsOf m := Multiset.add_bind _ _ _

@[simp] theorem fdsOf_singleton (it : Item) : fdsOf {it} = (it.fds : List Nat) := Multiset.singleton_bind _ _

theorem mem_fdsOf {fd : Nat} : fd ∈ fdsOf m ↔ ∃ it ∈ m, fd ∈ it.fds := by
  simp [fdsOf, Multiset.mem_bind]

/-- A thread trades what it has in hand for something with no more descriptors, and the kernel
changes in a way that matters to nobody else. -/
theorem Exclusive.trade (h : Exclusive cfg s (n + m)) (hs : e'.Sound) (hfds : fdsOf m' ≤ fdsOf m)
    (hm : ∀ it ∈ m', it.Valid e')
    (hother : ∀ it : Item, it.Valid s.env → (∀ fd ∈ it.fds, fd ∉ fdsOf m) → it.Valid e') :
    Exclusive cfg { s with env := e' } (n + m') := by
  obtain ⟨-, hnd, hv⟩ := h
  rw [inHand_add, fdsOf_add] at hnd
  refine ⟨hs, ?_, fun it hit => ?_⟩
  · rw [inHand_add, fdsOf_add]
    exact Multiset.nodup_of_le (by gcongr) hnd
  · rw [inHand_add] at hit
    rcases Multiset.mem_add.1 hit with hit | hit
    · refine hother it (hv it ?_) fun fd hfd hm => ?_
      · rw [inHand_add]; exact Multiset.mem_add.2 (.inl hit)
      · exact Multiset.disjoint_left.1 (Multiset.nodup_add.1 hnd).2.2 (mem_fdsOf.2 ⟨it, hit, hfd⟩) hm
    · exact hm it hit

/-- The kernel changes in a way that matters to no item. -/
theorem Exclusive.env (h : Exclusive cfg s n) (hs : e'.Sound) (hv : ∀ it : Item, it.Valid s.env → it.Valid e') :
    Exclusive cfg { s with env := e' } n :=
  ⟨hs, h.nodup, fun it hit => hv it (h.valid it hit)⟩

/-- One thread's item and its validity. -/
theorem Exclusive.here {it : Item} (h : Exclusive cfg s (n + {it})) : it.Valid s.env :=
  h.valid it (by rw [inHand_add]; exact Multiset.mem_add.2 (.inr (Multiset.mem_singleton_self it)))

end Change

/-! ## The kernel's changes and the items -/

/-- More to read, or the end of the stream, matters to no item. -/
theorem Item.Valid.same {e e' : Kernel} (h1 : e'.table = e.table) (h2 : e'.made = e.made) (h3 : e'.backlog = e.backlog)
    (hr : ∀ c, e.readable c = true → e'.readable c = true) {it : Item} (h : it.Valid e) : it.Valid e' := by
  cases it with
  | unread t =>
    obtain ⟨c, hn, hc, hrc⟩ := h
    exact ⟨c, hn, by rw [h1]; exact hc, hr c hrc⟩
  | read t =>
    obtain ⟨c, hn, hc⟩ := h
    exact ⟨c, hn, by rw [h1]; exact hc⟩
  | left t =>
    obtain ⟨c, hn, hc, hb, hno⟩ := h
    exact ⟨c, hn, by rw [h2]; exact hc, by rw [h3]; exact hb, by rw [h1]; exact hno⟩

theorem readable_setConn {e : Kernel} {c : Nat} {f : Conn → Conn} {c' : Nat}
    (h : c' = c → (!(f (e.conns c)).unread.isEmpty || (f (e.conns c)).eof) = true) (hr : e.readable c' = true) :
    (e.setConn c f).readable c' = true := by
  unfold Kernel.readable Kernel.setConn
  by_cases hc : c' = c
  · subst hc
    simp only [Function.update_self]
    exact h rfl
  · simp only [Function.update_of_ne hc]
    exact hr

/-- A change of connection `c` matters only to an item with its descriptor in hand. -/
theorem Item.Valid.setConn {e : Kernel} (hs : e.Sound) {fd c : Nat} (hfd : e.table fd = some c) (f : Conn → Conn)
    {it : Item} (h : it.Valid e) (hne : ∀ k ∈ it.fds, k ≠ fd) : it.Valid (e.setConn c f) := by
  have hread : ∀ {k c'}, k ≠ fd → e.table k = some c' → e.readable c' = true → (e.setConn c f).readable c' = true := by
    intro k c' hk hc'
    refine readable_setConn fun hcc => ?_
    subst hcc
    exact absurd (hs.inj _ _ _ hc' hfd) hk
  cases it with
  | unread t =>
    obtain ⟨c', hn, hc, hrc⟩ := h
    exact ⟨c', hn, hc, hread (hne t.fd List.mem_cons_self) hc hrc⟩
  | read t => exact h
  | left t => exact h

/-- Closing `fd` matters only to an item with `fd` in hand. -/
theorem Item.Valid.close {e : Kernel} {fd : Nat} {it : Item} (h : it.Valid e) (hne : ∀ k ∈ it.fds, k ≠ fd) :
    it.Valid (e.close fd) := by
  have htab : ∀ {k}, k ≠ fd → (e.close fd).table k = e.table k := fun hk => Function.update_of_ne hk _ _
  cases it with
  | unread t =>
    obtain ⟨c, hn, hc, hrc⟩ := h
    exact ⟨c, hn, by rw [htab (hne _ List.mem_cons_self)]; exact hc, hrc⟩
  | read t =>
    obtain ⟨c, hn, hc⟩ := h
    exact ⟨c, hn, by rw [htab (hne _ List.mem_cons_self)]; exact hc⟩
  | left t =>
    obtain ⟨c, hn, hc, hb, hno⟩ := h
    refine ⟨c, hn, hc, hb, fun k hk => ?_⟩
    by_cases hkf : k = fd
    · subst hkf
      rw [show (e.close k).table k = none from Function.update_self _ _ _] at hk; cases hk
    · rw [htab hkf] at hk; exact hno k hk

theorem Item.Valid.connect {e : Kernel} (hs : e.Sound) {it : Item} (h : it.Valid e) : it.Valid e.connect := by
  -- the new connection is none of those already there
  have hread : ∀ {fd c}, e.table fd = some c → e.readable c = true → e.connect.readable c = true := by
    intro fd c hc hr
    have hne : c ≠ e.made := Nat.ne_of_lt (hs.old fd c hc).1
    unfold Kernel.readable Kernel.connect
    simp only [Function.update_of_ne hne]
    exact hr
  cases it with
  | unread t =>
    obtain ⟨c, hn, hc, hrc⟩ := h
    exact ⟨c, hn, hc, hread hc hrc⟩
  | read t => exact h
  | left t =>
    obtain ⟨c, hn, hc, hb, hno⟩ := h
    refine ⟨c, hn, Nat.lt_succ_of_lt hc, fun hm => ?_, hno⟩
    rcases List.mem_append.1 hm with hm | hm
    · exact hb hm
    · rw [List.mem_singleton.1 hm] at hc; exact Nat.lt_irrefl _ hc

theorem Item.Valid.accept {e : Kernel} {c fd : Nat} {cs : List Nat} (hb : e.backlog = c :: cs)
    (hfree : e.table fd = none) {it : Item} (h : it.Valid e) : it.Valid (e.accept c fd) := by
  have htab : ∀ {k x}, e.table k = some x → (e.accept c fd).table k = some x := by
    intro k x hk
    refine (Function.update_of_ne ?_ _ _).trans hk
    rintro rfl
    rw [hfree] at hk; cases hk
  cases it with
  | unread t =>
    obtain ⟨c', hn, hc, hrc⟩ := h
    exact ⟨c', hn, htab hc, hrc⟩
  | read t =>
    obtain ⟨c', hn, hc⟩ := h
    exact ⟨c', hn, htab hc⟩
  | left t =>
    obtain ⟨c', hn, hc, hb', hno⟩ := h
    refine ⟨c', hn, hc, fun hm => hb' (List.mem_of_mem_tail hm), fun k hk => ?_⟩
    by_cases hkf : k = fd
    · subst hkf
      rw [show (e.accept c k).table k = some c from Function.update_self _ _ _] at hk
      cases hk
      exact hb' (by rw [hb]; exact List.mem_cons_self)
    · rw [show (e.accept c fd).table k = e.table k from Function.update_of_ne hkf _ _] at hk
      exact hno k hk

/-! ## The statements -/

section Statements

variable {cfg : Config} {s : Sys Kernel (Option Nat)} {n : Multiset Item}

/-- A worker takes the first task. -/
theorem Exclusive.take (h : Exclusive cfg s n) (hJ : s.pool.Jobs cfg) (hne : s.pool.jobNum ≠ 0) (i : Nat) :
    Exclusive cfg { s with pool := s.pool.take cfg i } (n + {.unread (s.pool.front cfg)}) := by
  obtain ⟨-, t, hfd, hnote, hq⟩ := hJ.take hne i
  have hall : inHand cfg s.pool n = inHand cfg (s.pool.take cfg i) n + {.unread t} := by
    unfold inHand
    rw [hq, List.map_cons, ← Multiset.cons_coe, Multiset.cons_add, ← Multiset.singleton_add, add_comm]
  have hnd := h.nodup
  rw [hall, fdsOf_add, fdsOf_singleton] at hnd
  refine ⟨h.sound, ?_, fun it hit => ?_⟩
  · rw [inHand_add, fdsOf_add, fdsOf_singleton]
    simpa [Item.fds, hfd] using hnd
  · rw [inHand_add] at hit
    rcases Multiset.mem_add.1 hit with hit | hit
    · exact h.valid it (by rw [hall]; exact Multiset.mem_add.2 (.inl hit))
    · rw [Multiset.mem_singleton.1 hit]
      obtain ⟨c, h1, h2, h3⟩ : (Item.unread t).Valid s.env :=
        h.valid _ (by rw [hall]; exact Multiset.mem_add.2 (.inr (Multiset.mem_singleton_self _)))
      exact ⟨c, hnote.trans h1, by rw [hfd]; exact h2, h3⟩

/-- An item that has the descriptor of a connection in hand is a task for it. -/
theorem Item.Valid.note_eq {e : Kernel} {fd c : Nat} {it : Item} (h : it.Valid e) (hfd : fd ∈ it.fds)
    (hc : e.table fd = some c) : it.task.note = some c := by
  cases it with
  | unread t =>
    obtain ⟨c', hn, hc', -⟩ := h
    rw [List.mem_singleton.1 hfd] at hc
    exact hn.trans (hc'.symm.trans hc)
  | read t =>
    obtain ⟨c', hn, hc'⟩ := h
    rw [List.mem_singleton.1 hfd] at hc
    exact hn.trans (hc'.symm.trans hc)
  | left t => cases hfd

/-- `addtask` adds a task for a connection that has something to read and no task. -/
theorem Exclusive.put {fd c : Nat} (h : Exclusive cfg s n) (hJ : s.pool.Jobs cfg) (hlt : s.pool.jobNum < cfg.maxJobNum)
    (hpush : s.pool.jobPush + 1 < 2 ^ 31) (hc : s.env.table fd = some c) (hr : s.env.readable c = true)
    (hidle : ∀ it ∈ inHand cfg s.pool n, it.task.note ≠ some c) (evs : Nat) :
    Exclusive cfg { s with pool := s.pool.put cfg fd evs (s.env.table fd) } n := by
  obtain ⟨-, t, hfd, hnote, hq⟩ := hJ.put hlt hpush fd evs (s.env.table fd)
  have hall : inHand cfg (s.pool.put cfg fd evs (s.env.table fd)) n = inHand cfg s.pool n + {.unread t} := by
    unfold inHand
    rw [hq, List.map_append, ← Multiset.coe_add, List.map_singleton, Multiset.coe_singleton, add_assoc, add_assoc,
      add_comm n]
  refine ⟨h.sound, ?_, fun it hit => ?_⟩
  · rw [hall, fdsOf_add, fdsOf_singleton]
    refine Multiset.nodup_add.2 ⟨h.nodup, Multiset.nodup_singleton _, Multiset.disjoint_left.2 fun {k} hk hk' => ?_⟩
    obtain ⟨it, hit, hk⟩ := mem_fdsOf.1 hk
    rw [List.mem_singleton.1 hk', hfd] at hk
    exact hidle it hit ((h.valid it hit).note_eq hk hc)
  · rw [hall] at hit
    rcases Multiset.mem_add.1 hit with hit | hit
    · exact h.valid it hit
    · rw [Multiset.mem_singleton.1 hit]
      exact ⟨c, hnote.trans hc, by rw [hfd]; exact hc, hr⟩

/-- One `taskRun` reads from its own connection. -/
theorem Exclusive.readTask {t : Task} (h : Exclusive cfg s (n + {.unread t})) {e' : Kernel} {r : TaskPc}
    (hr : readTask t.fd s.env = some (e', r)) :
    Exclusive cfg { s with env := e' } (n + Loc.items (.callback t r)) := by
  obtain ⟨c, hn, hc, -⟩ := h.here
  have hread : ∀ {e' : Kernel}, e'.table = s.env.table → (Item.read t).Valid e' :=
    fun htab => ⟨c, hn, by rw [htab]; exact hc⟩
  unfold Simple.readTask at hr
  rw [hc] at hr
  simp only at hr
  split at hr
  · split at hr
    · cases hr
      exact h.trade h.sound (le_refl _) (fun it hit => Multiset.mem_singleton.1 hit ▸ hread rfl) fun it hv _ => hv
    · cases hr
  · cases hr
    refine h.trade (h.sound.same rfl rfl rfl) (le_refl _) (fun it hit => Multiset.mem_singleton.1 hit ▸ hread rfl)
      fun it hv hne => hv.setConn h.sound hc _ fun k hk hkf => hne k hk ?_
    rw [hkf, fdsOf_singleton]
    exact List.mem_cons_self

/-- A task closes its own descriptor. -/
theorem Exclusive.close {t : Task} (h : Exclusive cfg s (n + {.read t})) :
    Exclusive cfg { s with env := s.env.close t.fd } (n + {.left t}) := by
  obtain ⟨c, hn, hc⟩ := h.here
  have hne : ∀ it : Item, (∀ fd ∈ it.fds, fd ∉ fdsOf {Item.read t}) → ∀ k ∈ it.fds, k ≠ t.fd := by
    intro it hno k hk hkf
    refine hno k hk ?_
    rw [hkf, fdsOf_singleton]
    exact List.mem_cons_self
  refine h.trade (h.sound.close t.fd) (by simp [Item.fds]) (fun it hit => ?_) fun it hv hno => hv.close (hne it hno)
  rw [Multiset.mem_singleton.1 hit]
  refine ⟨c, hn, (h.sound.old _ _ hc).1, (h.sound.old _ _ hc).2, fun k hk => ?_⟩
  by_cases hkf : k = t.fd
  · rw [hkf, show (s.env.close t.fd).table t.fd = none from Function.update_self _ _ _] at hk; cases hk
  · rw [show (s.env.close t.fd).table k = s.env.table k from Function.update_of_ne hkf _ _] at hk
    exact hkf (h.sound.inj _ _ _ hk hc)

/-- The clients keep the invariant. -/
theorem Exclusive.clients (h : Exclusive cfg s n) {x : Event} {e' : Kernel} (hc : clients s.env x = some e') :
    Exclusive cfg { s with env := e' } n := by
  unfold Simple.clients at hc
  split at hc
  · cases hc
    exact h.env h.sound.connect fun it hv => hv.connect h.sound
  · split at hc
    · cases hc
      refine h.env (h.sound.same rfl rfl rfl) fun it hv => ?_
      refine Item.Valid.same ?_ ?_ ?_ (fun c' hr => readable_setConn (fun hcc => ?_) hr) hv <;> try rfl
      subst hcc
      unfold Kernel.readable at hr
      simp only [Bool.or_eq_true, Bool.not_eq_true', List.isEmpty_eq_false_iff] at hr ⊢
      exact hr.imp (fun hu hempty => hu (List.append_eq_nil_iff.1 hempty).1) id
    · cases hc
  · split at hc
    · cases hc
      refine h.env (h.sound.same rfl rfl rfl) fun it hv => ?_
      refine Item.Valid.same ?_ ?_ ?_ (fun c' hr => readable_setConn (fun hcc => ?_) hr) hv <;> try rfl
      simp
    · cases hc
  · cases hc

end Statements

/-! ## The program -/

/-- What the statements need: a worker past its wait loop has found a task; the flag is not set; a task
that is stored is for a connection that has something to read and no task. -/
def Needs (cfg : Config) : ServerLoc → Sys Kernel (Option Nat) → Multiset Item → Event → Prop
  | .worker _ .jobTest, s, _, _ => s.pool.jobNum ≠ 0 ∧ s.pool.Jobs cfg
  | .worker _ .shutdownTest, s, _, _ => s.pool.shutdown = false
  | .add fd _ _ .test, s, m, _ => s.pool.jobNum < cfg.maxJobNum → s.pool.Jobs cfg ∧ s.pool.jobPush + 1 < 2 ^ 31 ∧
      ∃ c, s.env.table fd = some c ∧ s.env.readable c = true ∧ ∀ it ∈ inHand cfg s.pool m, it.task.note ≠ some c
  | _, _, _, _ => True

/-- What is in hand depends on the ring only. -/
theorem Exclusive.samePool {cfg : Config} {s : Sys Kernel (Option Nat)} {n : Multiset Item} (h : Exclusive cfg s n)
    (b : Bool) (rs : List Resource) (ts : List (Nat × Task)) :
    Exclusive cfg { s with pool := { s.pool with shutdown := b, released := rs, called := ts } } n :=
  ⟨h.sound, h.nodup, h.valid⟩

/-- What `main` and the clients do to the kernel: the clients' own steps, nothing, an `accept`, an
`epoll_ctl`. They start no threads. -/
theorem server_cases {k k' : ServerPc}
    {run : List Resource → Kernel → Event → Option (Kernel × ServerPc × List ServerPc)}
    (hk : serverWorld.caller k = .act run) {rs : List Resource} {e e' : Kernel} {x : Event} {ks : List ServerPc}
    (h : run rs e x = some (e', k', ks)) :
    ks = [] ∧ (clients e x = some e' ∨ e' = e ∨
      (∃ c cs fd, e.backlog = c :: cs ∧ e.table fd = none ∧ e' = e.accept c fd) ∨ ∃ fd, e' = e.ctlAdd fd) := by
  cases k with
  | clients =>
    cases hk
    obtain ⟨e₁, hc, he⟩ := Option.map_eq_some_iff.1 h
    cases he
    exact ⟨rfl, .inl hc⟩
  | epollWait =>
    cases hk
    dsimp only at h
    split at h
    · split at h
      · cases h
        exact ⟨rfl, .inr (.inl rfl)⟩
      · cases h
    · cases h
  | dispatch evs i =>
    simp only [serverWorld, server] at hk
    split at hk
    · cases hk
      cases h
      exact ⟨rfl, .inr (.inl rfl)⟩
    · split at hk
      · cases hk
        cases h
        exact ⟨rfl, .inr (.inl rfl)⟩
      · cases hk
  | accept evs i =>
    cases hk
    dsimp only at h
    split at h
    · rename_i n c cs hb
      split at h
      · rename_i hlow
        cases h
        exact ⟨rfl, .inr (.inr (.inl ⟨c, cs, n, hb, hlow.2.1, rfl⟩))⟩
      · cases h
    · cases h
  | ctlAdd cfd evs i =>
    cases hk
    cases h
    exact ⟨rfl, .inr (.inr (.inr ⟨cfd, rfl⟩))⟩

/-- A worker takes the task it has found and hands it over. -/
theorem worker_tallied (cfg : Config) (t : PoolTask (Option Nat)) (pc : WorkerPc) :
    (code cfg serverWorld (.worker t pc)).Tallied Loc.items (Needs cfg) (Exclusive cfg) (.worker t pc) := by
  cases pc with
  | jobTest =>
    intro i s x s' l' new n hf hK h
    obtain ⟨hne, hJ⟩ : s.pool.jobNum ≠ 0 ∧ s.pool.Jobs cfg := hK
    cases hf
    simp only [ne_eq, hne, not_false_eq_true, if_true, tally_nil, add_zero]
    exact Exclusive.take (by simpa [Loc.items] using h) hJ hne i
  | shutdownTest =>
    intro i s x s' l' new n hf hK h
    have hs : s.pool.shutdown = false := hK
    cases hf
    simp only [hs, Bool.false_eq_true, if_false, tally_nil, add_zero]
    exact h
  | test => exact tallied_branch _ rfl rfl
  | exit => exact tallied_skip rfl
  | exited => trivial
  | call => exact tallied_same _ _ (fun _ => rfl) fun i s n h => h.samePool _ _ _
  | _ => exact rfl

/-- A task keeps its connection until it has closed it or is over. -/
theorem callback_tallied (cfg : Config) (t : PoolTask (Option Nat)) (r : TaskPc) :
    (code cfg serverWorld (.callback t r)).Tallied Loc.items (Needs cfg) (Exclusive cfg) (.callback t r) := by
  cases r with
  | read =>
    intro i s x s' l' new n hf _ h
    obtain ⟨⟨e', r'⟩, he, he'⟩ := Option.map_eq_some_iff.1 hf
    cases he'
    rw [tally_nil, add_zero]
    exact h.readTask he
  | write buf =>
    intro i s x s' l' new n hf _ h
    obtain ⟨⟨e', r'⟩, he, he'⟩ := Option.map_eq_some_iff.1 hf
    cases he'
    rw [tally_nil, add_zero]
    obtain ⟨c, hn, hc⟩ := h.here
    simp only [hc, Option.some.injEq, Prod.mk.injEq] at he
    obtain ⟨rfl, rfl⟩ := he
    refine h.env (h.sound.same rfl rfl rfl) fun it hv => ?_
    show it.Valid (s.env.setConn c fun k => { k with echoed := k.echoed ++ buf })
    refine Item.Valid.same ?_ ?_ ?_ (fun c' hr => readable_setConn (fun hcc => ?_) hr) hv <;> try rfl
    subst hcc
    exact hr
  | close =>
    intro i s x s' l' new n hf _ h
    cases hf
    rw [tally_nil, add_zero]
    exact h.close
  | ctlDel =>
    intro i s x s' l' new n hf _ h
    cases hf
    rw [tally_nil, add_zero]
    split
    · exact h.env (h.sound.same rfl rfl rfl) fun it hv => hv.same rfl rfl rfl fun _ hr => hr
    · exact h
  | ended b =>
    refine tallied_update _ _ fun i s n h => ?_
    cases b <;>
      exact h.trade h.sound (Multiset.zero_le _) (fun it hit => absurd hit (Multiset.notMem_zero _)) fun it hv _ => hv

/-- A call of `addtask` stores a task for an idle connection. -/
theorem add_tallied (cfg : Config) (fd evs : Nat) (next : ServerPc) (pc : AddPc) :
    (code cfg serverWorld (.add fd evs next pc)).Tallied Loc.items (Needs cfg) (Exclusive cfg)
      (.add fd evs next pc) := by
  cases pc with
  | test =>
    intro i s x s' l' new n hf hK h
    cases hf
    by_cases hfull : s.pool.jobNum ≥ cfg.maxJobNum
    · simp only [hfull, if_true, tally_nil, add_zero]
      exact h
    · simp only [hfull, if_false, tally_nil, add_zero]
      have hlt : s.pool.jobNum < cfg.maxJobNum := by omega
      obtain ⟨hJ, hpush, c, hc, hr, hidle⟩ := hK hlt
      exact h.put hJ hlt hpush hc hr hidle evs
  | _ => exact rfl

/-- The loop of the server. -/
theorem caller_tallied (cfg : Config) (k : ServerPc) :
    (code cfg serverWorld (.caller k)).Tallied Loc.items (Needs cfg) (Exclusive cfg) (.caller k) := by
  simp only [code]
  cases hk : serverWorld.caller k with
  | addtask fd evs next => exact tallied_skip rfl
  | halt => trivial
  | act run =>
    intro i s x s' l' new n hf _ h
    obtain ⟨⟨e, k', ks⟩, he, he'⟩ := Option.map_eq_some_iff.1 hf
    cases he'
    obtain ⟨rfl, hcase⟩ := server_cases hk he
    rw [List.map_nil, tally_nil, add_zero]
    rcases hcase with hc | rfl | ⟨c, cs, fd, hb, hfree, rfl⟩ | ⟨fd, rfl⟩
    · exact h.clients hc
    · exact h
    · exact h.env (h.sound.accept hb) fun it hv => hv.accept hb hfree
    · exact h.env (h.sound.same rfl rfl rfl) fun it hv => hv.same rfl rfl rfl fun _ hr => hr

theorem destroy_tallied (cfg : Config) (pc : DestroyPc) :
    (code cfg serverWorld (.destroy pc)).Tallied Loc.items (Needs cfg) (Exclusive cfg) (.destroy pc) := by
  cases pc with
  | broadcast => exact rfl
  | returned => trivial
  | _ => exact tallied_same _ _ (fun _ => rfl) fun i s n h => h.samePool _ _ _

/-- The statements of the server keep the invariant. -/
theorem dispatching (cfg : Config) : Tallying (code cfg serverWorld) Loc.items (Needs cfg) (Exclusive cfg) := by
  rintro (⟨t, pc⟩ | ⟨t, r⟩ | ⟨fd, evs, next, pc⟩ | k | pc)
  · exact worker_tallied cfg t pc
  · exact callback_tallied cfg t r
  · exact add_tallied cfg fd evs next pc
  · exact caller_tallied cfg k
  · exact destroy_tallied cfg pc

/-! ## The runs -/

/-- The items are the tasks that a thread has taken and not finished. -/
theorem map_items (l : ServerLoc) : l.items.map Item.task = (l.inHand : Multiset Task) := by
  rcases l with ⟨t, pc⟩ | ⟨t, r⟩ | ⟨fd, evs, next, pc⟩ | k | pc
  · cases pc <;> rfl
  · cases r with
    | ended b => cases b <;> rfl
    | _ => rfl
  · rfl
  · rfl
  · rfl

theorem map_tally (ls : List ServerLoc) : (tally Loc.items ls).map Item.task = (ls.flatMap Loc.inHand : List Task) := by
  induction ls with
  | nil => rfl
  | cons l ls ih => rw [tally_cons, Multiset.map_add, ih, map_items, List.flatMap_cons, Multiset.coe_add]

theorem map_inHand (cfg : Config) (s : ServerState) :
    (inHand cfg s.shared.pool (tally Loc.items s.locs)).map Item.task = (outstanding cfg s : Multiset Task) := by
  unfold inHand outstanding
  rw [Multiset.map_add, map_tally, Multiset.map_coe, List.map_map, ← Multiset.coe_add]
  congr 2
  exact List.map_id' _

/-- Every task counted by `p` holds the descriptor `fd`, so there are no more of them than items that
do. -/
theorem countP_task_le (p : Task → Bool) (fd : Nat) (m : Multiset Item) (h : ∀ it ∈ m, p it.task = true → fd ∈ it.fds) :
    (m.map Item.task).countP (p · = true) ≤ (fdsOf m).count fd := by
  induction m using Multiset.induction with
  | empty => exact Nat.le_refl 0
  | cons it m ih =>
    have ih := ih fun it' hit' => h it' (Multiset.mem_cons_of_mem hit')
    rw [← Multiset.singleton_add, Multiset.map_add, Multiset.countP_add, fdsOf_add, Multiset.count_add, fdsOf_singleton,
      Multiset.map_singleton]
    refine Nat.add_le_add ?_ ih
    by_cases hp : p it.task = true
    · have h1 : 1 ≤ (it.fds : Multiset Nat).count fd :=
        Multiset.one_le_count_iff_mem.2 (h it (Multiset.mem_cons_self _ _) hp)
      have h2 : ({it.task} : Multiset Task).countP (p · = true) ≤ 1 := Multiset.countP_le_card _ _
      exact Nat.le_trans h2 h1
    · rw [show ({it.task} : Multiset Task).countP (p · = true) = 0 from
        Multiset.countP_eq_zero.2 fun a ha => by rw [Multiset.mem_singleton.1 ha]; exact hp]
      exact Nat.zero_le _

/-- The invariant gives the property. -/
theorem Exclusive.oneTaskEach {cfg : Config} {s : ServerState} (h : Exclusive cfg s.shared (tally Loc.items s.locs)) :
    OneTaskEach cfg s := by
  constructor
  · intro fd c hc
    have hle := countP_task_le (fun t => t.note == some c) fd (inHand cfg s.shared.pool (tally Loc.items s.locs)) ?_
    · rw [map_inHand, Multiset.coe_countP, List.countP_eq_length_filter] at hle
      simp only [Bool.decide_eq_true] at hle
      exact Nat.le_trans hle (Multiset.nodup_iff_count_le_one.1 h.nodup fd)
    · intro it hit hp
      have hv := h.valid it hit
      have hn : it.task.note = some c := by simpa using hp
      -- an item on connection `c` has the descriptor of `c` in hand
      cases it with
      | unread t =>
        obtain ⟨c', hn', hc', -⟩ := hv
        cases hn'.symm.trans hn
        rw [h.sound.inj _ _ _ hc hc']; exact List.mem_cons_self
      | read t =>
        obtain ⟨c', hn', hc'⟩ := hv
        cases hn'.symm.trans hn
        rw [h.sound.inj _ _ _ hc hc']; exact List.mem_cons_self
      | left t =>
        obtain ⟨c', hn', -, -, hno⟩ := hv
        cases hn'.symm.trans hn
        exact absurd hc (hno fd)
  · intro t ht
    obtain ⟨j, hj⟩ := List.mem_iff_getElem?.1 ht
    obtain ⟨n, hn, -⟩ :=
      tally_split Loc.items (show s.locs[j]? = some (.callback t .read) by simp [State.locs, hj, Thread.loc])
    rw [hn] at h
    exact h.here

theorem exclusive_start {cfg : Config} {s₀ : ServerState} (h0 : Started cfg s₀) :
    Exclusive cfg s₀.shared (tally Loc.items s₀.locs) := by
  have hnone : tally Loc.items s₀.locs = 0 := by
    refine List.sum_eq_zero fun m hm => ?_
    obtain ⟨l, hl, rfl⟩ := List.mem_map.1 hm
    obtain ⟨t, ht, rfl⟩ := List.mem_map.1 hl
    rcases h0.threads ht with ⟨k, rfl⟩ | ⟨task, rfl⟩ <;> rfl
  rw [hnone]
  obtain ⟨tasks, copies, conns, -, rfl⟩ := h0.start
  refine ⟨⟨?_, ?_, ?_, List.nodup_nil⟩, Multiset.nodup_zero, fun it hit => absurd hit (Multiset.notMem_zero _)⟩
  · intro fd fd' c h; cases h
  · intro fd c h; cases h
  · intro c h; cases h

section Runs

variable {cfg : Config} {s₀ s s' : ServerState} {a : Action Event}

/-- The step condition is what the statements need, while the counters have not wrapped. -/
theorem needs_of_addsIdle (h0 : Started cfg s₀) (h : Reach (step (code cfg serverWorld)) s₀ s) (hok : AddsIdle cfg s a)
    (hs : step (code cfg serverWorld) s a = some s') (hlt : s'.shared.pool.added.length < 2 ^ 31) :
    ExecMeets Loc.items (Needs cfg) s a := by
  have hopen := openInv h0 h
  have hring := serverRing h0 h
  obtain ⟨hJ, hpush⟩ := hring.shared.jobs (Nat.lt_of_le_of_lt (added_le hs) hlt)
  cases a with
  | spurious i => trivial
  | exec i x ws =>
    intro l hl
    unfold Needs
    split
    · refine ⟨(hring.run i _ hl).resolve_right ?_, hJ⟩
      rw [hopen.shared]
      exact Bool.false_ne_true
    · exact hopen.shared
    · rename_i fd evs next
      intro hroom
      -- the task that is stored is one of the first
      have hstored : s'.shared.pool.added.length = s.shared.pool.added.length + 1 := by
        rw [step_update hl rfl] at hs
        cases hs
        have : ¬ s.shared.pool.jobNum ≥ cfg.maxJobNum := by omega
        simp only [this, if_false]
        exact List.length_append
      simp only [AddsIdle, hl] at hok
      obtain ⟨c, hc, hr, hidle⟩ := hok hroom (by omega)
      refine ⟨hJ, by omega, c, hc, hr, fun it hit => hidle it.task ?_⟩
      rw [← Multiset.mem_coe, ← map_inHand]
      exact Multiset.mem_map_of_mem _ hit
    · trivial

/-- In a run in which `addtask` stores tasks for idle connections, each open connection has at most
one task, and every task reads from its own connection. -/
theorem oneTaskEach_of_addsIdle (h0 : Started cfg s₀)
    (h : ReachWith (step (code cfg serverWorld)) (AddsIdle cfg) s₀ s) : OneTaskEachBelow cfg s := by
  intro hbelow
  refine Exclusive.oneTaskEach ?_
  refine h.invariant
    (I := fun u => u.shared.pool.added.length < 2 ^ 31 → Exclusive cfg u.shared (tally Loc.items u.locs))
    (J := fun u => Reach (step (code cfg serverWorld)) s₀ u) (fun u hu => hu) (fun _ => exclusive_start h0)
    (fun u a u' hu hI hok hs hlt => ?_) hbelow
  exact (dispatching cfg).step_valid (needs_of_addsIdle h0 hu hok hs hlt) (hI (Nat.lt_of_le_of_lt (added_le hs) hlt)) hs

end Runs

end LinuxProgram.Simple
