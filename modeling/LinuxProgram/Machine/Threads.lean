/-
Multithreaded programs over mutexes and condition variables. A program is a table that gives,
for each control location, the statement there; the state holds the shared data, the holder of
each mutex and the threads. `pthread_cond_wait` releases its mutex and blocks in one step; a
blocked thread is woken by a signal, by a broadcast or spuriously, and then needs the mutex
again before it goes on.

The step inversion (`step_cases`) and its reading on control locations (`step_locs`) are what
the proofs about programs use; the two general invariants are mutual exclusion
(`Locking.mutex`) and proof outlines (`ProofOutline.valid`).
-/
import LinuxProgram.Machine.Reach
import Mathlib.Data.List.Basic
import Mathlib.Logic.Function.Basic
import Mathlib.Tactic

namespace LinuxProgram.Machine

/-- The statement at a control location. `M` names the mutexes, `C` the condition variables, `S`
is the shared data, `X` the outcomes the environment chooses, `L` the control locations. -/
inductive Instr (M C S X L : Type) where
  | lock (m : M) (next : L)
  | unlock (m : M) (next : L)
  | wait (c : C) (m : M) (next : L)
  | signal (c : C) (next : L)
  | broadcast (c : C) (next : L)
  /-- Any other statement: from the thread's own number, the shared data and the outcome chosen,
  the new shared data, the next location and the locations at which created threads start. It is
  disabled where it gives `none`. -/
  | act (run : Nat → S → X → Option (S × L × List L))
  | halt

/-- An assignment to the shared data that may record the thread's number; the next location depends
on the data before it. -/
def Instr.update {M C S X L : Type} (f : Nat → S → S) (next : S → L) : Instr M C S X L :=
  .act fun i sh _ => some (f i sh, next sh, [])

/-- An assignment to the shared data. -/
def Instr.assign {M C S X L : Type} (f : S → S) (l : L) : Instr M C S X L := .update (fun _ => f) fun _ => l

/-- A test of the shared data: on to `l` if it succeeds, else to `l'`. -/
def Instr.branch {M C S X L : Type} (b : S → Bool) (l l' : L) : Instr M C S X L :=
  .update (fun _ => id) fun sh => if b sh then l else l'

/-- A statement without effect on the shared data. -/
def Instr.skip {M C S X L : Type} (l : L) : Instr M C S X L := .update (fun _ => id) fun _ => l

/-- The location after a statement that touches only mutexes and condition variables. -/
def Instr.next {M C S X L : Type} : Instr M C S X L → Option L
  | .lock _ l | .unlock _ l | .wait _ _ l | .signal _ l | .broadcast _ l => some l
  | .act _ | .halt => none

/-- A thread: running, blocked un-woken on a condition variable, or woken and about to take the
mutex again; the location is the one it is at or goes on at. -/
inductive Thread (M C L : Type) where
  | run (l : L)
  | blocked (c : C) (m : M) (l : L)
  | woken (m : M) (l : L)

namespace Thread

variable {M C L : Type}

def loc : Thread M C L → L
  | .run l | .blocked _ _ l | .woken _ l => l

def isBlocked : Thread M C L → Bool
  | .blocked .. => true
  | _ => false

def blockedOn [DecidableEq C] (c : C) : Thread M C L → Bool
  | .blocked c' _ _ => decide (c' = c)
  | _ => false

def wake : Thread M C L → Thread M C L
  | .blocked _ m l => .woken m l
  | t => t

@[simp] theorem wake_loc (t : Thread M C L) : t.wake.loc = t.loc := by cases t <;> rfl

@[simp] theorem wake_isBlocked (t : Thread M C L) : t.wake.isBlocked = false := by cases t <;> rfl

end Thread

/-- The threads after a signal that wakes those numbered in `ws`. -/
def wakeAt {M C L : Type} (ws : List Nat) (ts : List (Thread M C L)) : List (Thread M C L) :=
  ts.mapIdx fun j t => if j ∈ ws then t.wake else t

/-- The threads after a broadcast on `c`. -/
def wakeAll {M C L : Type} [DecidableEq C] (c : C) (ts : List (Thread M C L)) : List (Thread M C L) :=
  ts.map fun t => if t.blockedOn c then t.wake else t

/-- A signal on `c` may wake the threads numbered in `ws`: they are blocked on `c`, and there is
at least one of them unless nobody is blocked on `c`. -/
def SignalOk {M C L : Type} [DecidableEq C] (c : C) (ws : List Nat) (ts : List (Thread M C L)) : Prop :=
  (∀ j ∈ ws, ts[j]?.any (·.blockedOn c) = true) ∧ (ts.any (·.blockedOn c) = true → ws ≠ [])

instance {M C L : Type} [DecidableEq C] (c : C) (ws : List Nat) (ts : List (Thread M C L)) :
    Decidable (SignalOk c ws ts) := by
  unfold SignalOk; infer_instance

structure State (M C S L : Type) where
  shared : S
  owner : M → Option Nat
  threads : List (Thread M C L)

/-- What the scheduler and the environment choose: thread `i` executes its next statement, with
outcome `x` and waking `ws`; or thread `i` wakes spuriously. -/
inductive Action (X : Type) where
  | exec (i : Nat) (x : X) (ws : List Nat)
  | spurious (i : Nat)

/-! ## Waking -/

section Waking

variable {M C L : Type}

theorem wakeAt_getElem? (ws : List Nat) (ts : List (Thread M C L)) (j : Nat) :
    (wakeAt ws ts)[j]? = ts[j]?.map fun t => if j ∈ ws then t.wake else t := by
  simp [wakeAt, List.getElem?_mapIdx]

@[simp] theorem wakeAt_length (ws : List Nat) (ts : List (Thread M C L)) :
    (wakeAt ws ts).length = ts.length := by
  simp [wakeAt]

@[simp] theorem wakeAt_locs (ws : List Nat) (ts : List (Thread M C L)) :
    (wakeAt ws ts).map Thread.loc = ts.map Thread.loc := by
  apply List.ext_getElem?
  intro j
  rw [List.getElem?_map, wakeAt_getElem?, List.getElem?_map, Option.map_map]
  congr 1
  funext t
  by_cases h : j ∈ ws <;> simp [h]

variable [DecidableEq C]

theorem wakeAll_getElem? (c : C) (ts : List (Thread M C L)) (j : Nat) :
    (wakeAll c ts)[j]? = ts[j]?.map fun t => if t.blockedOn c then t.wake else t := by
  simp [wakeAll]

@[simp] theorem wakeAll_length (c : C) (ts : List (Thread M C L)) :
    (wakeAll c ts).length = ts.length := by
  simp [wakeAll]

@[simp] theorem wakeAll_locs (c : C) (ts : List (Thread M C L)) :
    (wakeAll c ts).map Thread.loc = ts.map Thread.loc := by
  unfold wakeAll
  rw [List.map_map]
  congr 1
  funext t
  by_cases h : t.blockedOn c = true <;> simp [h]

end Waking

namespace State

variable {M C S X L : Type}

/-- The control location of each thread. -/
def locs (s : State M C S L) : List L := s.threads.map Thread.loc

variable [DecidableEq M]

/-- Thread `i` takes the mutex `m`, if it is free, and goes on at `l`. -/
def acquire (s : State M C S L) (m : M) (i : Nat) (l : L) : Option (State M C S L) :=
  if s.owner m = none then
    some { s with owner := Function.update s.owner m (some i), threads := s.threads.set i (.run l) }
  else none

theorem acquire_eq_some {s s' : State M C S L} {m : M} {i : Nat} {l : L} (h : s.acquire m i l = some s') :
    s.owner m = none ∧
      s' = { s with owner := Function.update s.owner m (some i), threads := s.threads.set i (.run l) } := by
  unfold acquire at h
  split at h
  · rename_i hm; cases h; exact ⟨hm, rfl⟩
  · cases h

variable [DecidableEq C]

/-- Thread `i` executes a statement. -/
def exec (s : State M C S L) (i : Nat) (x : X) (ws : List Nat) : Instr M C S X L → Option (State M C S L)
  | .lock m l => s.acquire m i l
  | .unlock m l =>
    some { s with owner := Function.update s.owner m none, threads := s.threads.set i (.run l) }
  | .wait c m l =>
    some { s with owner := Function.update s.owner m none, threads := s.threads.set i (.blocked c m l) }
  | .signal c l =>
    if SignalOk c ws s.threads then some { s with threads := (wakeAt ws s.threads).set i (.run l) }
    else none
  | .broadcast c l => some { s with threads := (wakeAll c s.threads).set i (.run l) }
  | .act f => (f i s.shared x).map fun r =>
    { s with shared := r.1, threads := s.threads.set i (.run r.2.1) ++ r.2.2.map .run }
  | .halt => none

end State

section Semantics

variable {M C S X L : Type} [DecidableEq M] [DecidableEq C]

/-- One step of the program `code`. -/
def step (code : L → Instr M C S X L) (s : State M C S L) : Action X → Option (State M C S L)
  | .exec i x ws =>
    match s.threads[i]? with
    | some (.run l) => s.exec i x ws (code l)
    | some (.woken m l) => s.acquire m i l
    | _ => none
  | .spurious i =>
    match s.threads[i]? with
    | some (.blocked _ m l) => some { s with threads := s.threads.set i (.woken m l) }
    | _ => none

/-- Everything a step can do. -/
inductive StepCase (code : L → Instr M C S X L) (s : State M C S L) : Action X → State M C S L → Prop where
  | spurious {i c m l} (ht : s.threads[i]? = some (.blocked c m l)) :
      StepCase code s (.spurious i) { s with threads := s.threads.set i (.woken m l) }
  | relock {i x ws m l} (ht : s.threads[i]? = some (.woken m l)) (hm : s.owner m = none) :
      StepCase code s (.exec i x ws)
        { s with owner := Function.update s.owner m (some i), threads := s.threads.set i (.run l) }
  | lock {i x ws m l l'} (ht : s.threads[i]? = some (.run l)) (hc : code l = .lock m l')
      (hm : s.owner m = none) :
      StepCase code s (.exec i x ws)
        { s with owner := Function.update s.owner m (some i), threads := s.threads.set i (.run l') }
  | unlock {i x ws m l l'} (ht : s.threads[i]? = some (.run l)) (hc : code l = .unlock m l') :
      StepCase code s (.exec i x ws)
        { s with owner := Function.update s.owner m none, threads := s.threads.set i (.run l') }
  | wait {i x ws c m l l'} (ht : s.threads[i]? = some (.run l)) (hc : code l = .wait c m l') :
      StepCase code s (.exec i x ws)
        { s with owner := Function.update s.owner m none, threads := s.threads.set i (.blocked c m l') }
  | signal {i x ws c l l'} (ht : s.threads[i]? = some (.run l)) (hc : code l = .signal c l')
      (hw : SignalOk c ws s.threads) :
      StepCase code s (.exec i x ws) { s with threads := (wakeAt ws s.threads).set i (.run l') }
  | broadcast {i x ws c l l'} (ht : s.threads[i]? = some (.run l)) (hc : code l = .broadcast c l') :
      StepCase code s (.exec i x ws) { s with threads := (wakeAll c s.threads).set i (.run l') }
  | act {i x ws l f sh l' new} (ht : s.threads[i]? = some (.run l)) (hc : code l = .act f)
      (hf : f i s.shared x = some (sh, l', new)) :
      StepCase code s (.exec i x ws)
        { s with shared := sh, threads := s.threads.set i (.run l') ++ new.map .run }

theorem step_cases {code : L → Instr M C S X L} {s s' : State M C S L} {a : Action X}
    (h : step code s a = some s') : StepCase code s a s' := by
  cases a with
  | spurious i =>
    simp only [step] at h
    split at h
    · rename_i c m l ht; cases h; exact .spurious ht
    · cases h
  | exec i x ws =>
    simp only [step] at h
    split at h
    · rename_i l ht
      cases hc : code l with
      | lock m l' =>
        rw [hc] at h
        obtain ⟨hm, rfl⟩ := State.acquire_eq_some h
        exact .lock ht hc hm
      | unlock m l' => rw [hc] at h; cases h; exact .unlock ht hc
      | wait c m l' => rw [hc] at h; cases h; exact .wait ht hc
      | signal c l' =>
        rw [hc] at h
        simp only [State.exec] at h
        split at h
        · rename_i hw; cases h; exact .signal ht hc hw
        · cases h
      | broadcast c l' => rw [hc] at h; cases h; exact .broadcast ht hc
      | act f =>
        rw [hc] at h
        obtain ⟨⟨sh, l', new⟩, hf, rfl⟩ := Option.map_eq_some_iff.1 h
        exact .act ht hc hf
      | halt => rw [hc] at h; cases h
    · rename_i m l ht
      obtain ⟨hm, rfl⟩ := State.acquire_eq_some h
      exact .relock ht hm
    · cases h

/-! ## The steps a program can take -/

theorem step_spurious {code : L → Instr M C S X L} {s : State M C S L} {i : Nat} {c : C} {m : M} {l : L}
    (ht : s.threads[i]? = some (.blocked c m l)) :
    step code s (.spurious i) = some { s with threads := s.threads.set i (.woken m l) } := by
  simp only [step, ht]

theorem step_run {code : L → Instr M C S X L} {s : State M C S L} {i : Nat} {l : L}
    (ht : s.threads[i]? = some (.run l)) (x : X) (ws : List Nat) :
    step code s (.exec i x ws) = s.exec i x ws (code l) := by
  simp only [step, ht]

/-- An assignment is always enabled. -/
theorem step_update {code : L → Instr M C S X L} {s : State M C S L} {i : Nat} {l : L} {f : Nat → S → S} {next : S → L}
    (ht : s.threads[i]? = some (.run l)) (hc : code l = .update f next) (x : X) (ws : List Nat) :
    step code s (.exec i x ws) =
      some { s with shared := f i s.shared, threads := s.threads.set i (.run (next s.shared)) } := by
  rw [step_run ht, hc]
  simp [Instr.update, State.exec]

omit [DecidableEq M] in
/-- A signal can always be sent. -/
theorem exists_signalOk (c : C) (ts : List (Thread M C L)) : ∃ ws, SignalOk c ws ts := by
  refine ⟨(List.range ts.length).filter fun j => ts[j]?.any (·.blockedOn c), fun j hj => (List.mem_filter.1 hj).2,
    fun hany hnil => ?_⟩
  obtain ⟨t, ht, hb⟩ := List.any_eq_true.1 hany
  obtain ⟨j, hj⟩ := List.mem_iff_getElem?.1 ht
  have hlen : j < ts.length := (List.getElem?_eq_some_iff.1 hj).1
  have hmem : j ∈ (List.range ts.length).filter fun j => ts[j]?.any (·.blockedOn c) :=
    List.mem_filter.2 ⟨List.mem_range.2 hlen, by rw [hj]; exact hb⟩
  rw [hnil] at hmem
  cases hmem

/-- A thread at a signal can always go on, with the shared data as they are. -/
theorem step_signal {code : L → Instr M C S X L} {s : State M C S L} {i : Nat} {l l' : L} {c : C}
    (ht : s.threads[i]? = some (.run l)) (hc : code l = .signal c l') (x : X) :
    ∃ ws u, step code s (.exec i x ws) = some u ∧ u.shared = s.shared ∧ u.threads[i]? = some (.run l') := by
  obtain ⟨ws, hws⟩ := exists_signalOk c s.threads
  refine ⟨ws, { s with threads := (wakeAt ws s.threads).set i (.run l') }, ?_, rfl, ?_⟩
  · rw [step_run ht, hc]
    exact if_pos hws
  · refine List.getElem?_set_self ?_
    rw [wakeAt_length]
    exact (List.getElem?_eq_some_iff.1 ht).1

/-- What a step does to the shared data and the control locations: nothing (a wakeup), a
statement on mutexes and condition variables, or any other statement. -/
theorem step_locs {code : L → Instr M C S X L} {s s' : State M C S L} {a : Action X}
    (h : step code s a = some s') :
    (s'.shared = s.shared ∧ s'.locs = s.locs) ∨
    (∃ i l l', s.threads[i]? = some (.run l) ∧ (code l).next = some l' ∧ s'.shared = s.shared ∧
      s'.locs = s.locs.set i l') ∨
    (∃ i x l f l' new, (∃ ws, a = .exec i x ws) ∧ s.threads[i]? = some (.run l) ∧ code l = .act f ∧
      f i s.shared x = some (s'.shared, l', new) ∧ s'.locs = s.locs.set i l' ++ new) := by
  have hsame : ∀ {ts : List (Thread M C L)} {i : Nat} {t t' : Thread M C L}, ts[i]? = some t → t'.loc = t.loc →
      (ts.set i t').map Thread.loc = ts.map Thread.loc := by
    intro ts i t t' ht hl
    rw [List.map_set, hl]
    apply List.ext_getElem?
    intro j
    rw [List.getElem?_set]
    split
    · rename_i hij
      subst hij
      split
      · simp [ht]
      · rename_i hlen; simp at hlen; simp [hlen]
    · rfl
  cases step_cases h with
  | spurious ht => exact .inl ⟨rfl, hsame ht rfl⟩
  | relock ht hm => exact .inl ⟨rfl, hsame ht rfl⟩
  | lock ht hc hm => exact .inr (.inl ⟨_, _, _, ht, by rw [hc]; rfl, rfl, List.map_set ..⟩)
  | unlock ht hc => exact .inr (.inl ⟨_, _, _, ht, by rw [hc]; rfl, rfl, List.map_set ..⟩)
  | wait ht hc => exact .inr (.inl ⟨_, _, _, ht, by rw [hc]; rfl, rfl, List.map_set ..⟩)
  | signal ht hc hw =>
    refine .inr (.inl ⟨_, _, _, ht, by rw [hc]; rfl, rfl, ?_⟩)
    simp only [State.locs, List.map_set, wakeAt_locs]; rfl
  | broadcast ht hc =>
    refine .inr (.inl ⟨_, _, _, ht, by rw [hc]; rfl, rfl, ?_⟩)
    simp only [State.locs, List.map_set, wakeAll_locs]; rfl
  | act ht hc hf =>
    refine .inr (.inr ⟨_, _, _, _, _, _, ⟨_, rfl⟩, ht, hc, hf, ?_⟩)
    simp only [State.locs, List.map_append, List.map_set, List.map_map]
    congr 1
    exact List.map_id' _

/-- A step leaves the shared data alone unless it executes a statement on it. -/
theorem step_shared {code : L → Instr M C S X L} {s s' : State M C S L} {a : Action X} (h : step code s a = some s') :
    s'.shared = s.shared ∨ ∃ i x ws l f l' new, a = .exec i x ws ∧ s.threads[i]? = some (.run l) ∧ code l = .act f ∧
      f i s.shared x = some (s'.shared, l', new) ∧ s'.threads[i]? = some (.run l') := by
  cases step_cases h with
  | @act i x ws l f sh l' new ht hc hf =>
    refine .inr ⟨i, x, ws, l, f, l', new, rfl, ht, hc, hf, ?_⟩
    have hlen : i < s.threads.length := (List.getElem?_eq_some_iff.1 ht).1
    rw [List.getElem?_append_left (by simpa using hlen), List.getElem?_set_self hlen]
  | _ => exact .inl rfl

/-- What a step does to thread `j`, from `t` to `t'`: the thread goes on at its location, perhaps
woken or with its mutex back; or it executes its statement. -/
inductive ThreadStep (code : L → Instr M C S X L) (s s' : State M C S L) (a : Action X) (j : Nat) :
    Thread M C L → Thread M C L → Prop where
  | passive {t t'} (hl : t'.loc = t.loc) (hb : t'.isBlocked = true → t' = t) (hr : ∀ l, t = .run l → t' = t) :
      ThreadStep code s s' a j t t'
  | wait {l x ws c m l'} (ha : a = .exec j x ws) (hc : code l = .wait c m l') (hs : s'.shared = s.shared) :
      ThreadStep code s s' a j (.run l) (.blocked c m l')
  | next {l x ws l'} (ha : a = .exec j x ws) (hc : (code l).next = some l') (hs : s'.shared = s.shared) :
      ThreadStep code s s' a j (.run l) (.run l')
  | act {l x ws f l' new} (ha : a = .exec j x ws) (hc : code l = .act f)
      (hf : f j s.shared x = some (s'.shared, l', new)) : ThreadStep code s s' a j (.run l) (.run l')

theorem set_getElem?_self {α : Type} {ts : List α} {i : Nat} {t : α} (h : ts[i]? = some t) (t' : α) :
    (ts.set i t')[i]? = some t' :=
  List.getElem?_set_self (List.getElem?_eq_some_iff.1 h).1

/-- Every step, seen from a thread that is there before it. -/
theorem step_thread {code : L → Instr M C S X L} {s s' : State M C S L} {a : Action X} {j : Nat} {t : Thread M C L}
    (h : step code s a = some s') (hj : s.threads[j]? = some t) :
    ∃ t', s'.threads[j]? = some t' ∧ ThreadStep code s s' a j t t' := by
  have hkeep : ∀ {u : Thread M C L}, s'.threads[j]? = some u → u = t ∨ u = t.wake →
      ∃ t', s'.threads[j]? = some t' ∧ ThreadStep code s s' a j t t' := by
    rintro u h' (rfl | rfl)
    · exact ⟨_, h', .passive rfl (fun _ => rfl) fun _ _ => rfl⟩
    · exact ⟨_, h', .passive (by simp) (fun hb => by simp at hb) fun l e => by rw [e]; rfl⟩
  have hset : ∀ {i : Nat} {t₁ : Thread M C L} {ts : List (Thread M C L)}, i ≠ j → (ts.set i t₁)[j]? = ts[j]? :=
    fun hij => List.getElem?_set_ne hij
  cases step_cases h with
  | @spurious i c m l ht =>
    by_cases hij : i = j
    · subst hij; rw [ht] at hj; cases hj
      exact ⟨_, set_getElem?_self ht _, .passive rfl (fun hb => by cases hb) fun _ e => by cases e⟩
    · exact hkeep ((hset hij).trans hj) (.inl rfl)
  | @relock i x ws m l ht hm =>
    by_cases hij : i = j
    · subst hij; rw [ht] at hj; cases hj
      exact ⟨_, set_getElem?_self ht _, .passive rfl (fun hb => by cases hb) fun _ e => by cases e⟩
    · exact hkeep ((hset hij).trans hj) (.inl rfl)
  | @lock i x ws m l l' ht hc hm =>
    by_cases hij : i = j
    · subst hij; rw [ht] at hj; cases hj
      exact ⟨_, set_getElem?_self ht _, .next rfl (by rw [hc]; rfl) rfl⟩
    · exact hkeep ((hset hij).trans hj) (.inl rfl)
  | @unlock i x ws m l l' ht hc =>
    by_cases hij : i = j
    · subst hij; rw [ht] at hj; cases hj
      exact ⟨_, set_getElem?_self ht _, .next rfl (by rw [hc]; rfl) rfl⟩
    · exact hkeep ((hset hij).trans hj) (.inl rfl)
  | @wait i x ws c m l l' ht hc =>
    by_cases hij : i = j
    · subst hij; rw [ht] at hj; cases hj
      exact ⟨_, set_getElem?_self ht _, .wait rfl hc rfl⟩
    · exact hkeep ((hset hij).trans hj) (.inl rfl)
  | @signal i x ws c l l' ht hc hw =>
    by_cases hij : i = j
    · subst hij; rw [ht] at hj; cases hj
      refine ⟨_, List.getElem?_set_self ?_, .next rfl (by rw [hc]; rfl) rfl⟩
      rw [wakeAt_length]; exact (List.getElem?_eq_some_iff.1 ht).1
    · refine hkeep (u := if j ∈ ws then t.wake else t) ?_ ?_
      · rw [hset hij, wakeAt_getElem?, hj]; rfl
      · split
        · exact .inr rfl
        · exact .inl rfl
  | @broadcast i x ws c l l' ht hc =>
    by_cases hij : i = j
    · subst hij; rw [ht] at hj; cases hj
      refine ⟨_, List.getElem?_set_self ?_, .next rfl (by rw [hc]; rfl) rfl⟩
      rw [wakeAll_length]; exact (List.getElem?_eq_some_iff.1 ht).1
    · refine hkeep (u := if t.blockedOn c then t.wake else t) ?_ ?_
      · rw [hset hij, wakeAll_getElem?, hj]; rfl
      · split
        · exact .inr rfl
        · exact .inl rfl
  | @act i x ws l f sh l' new ht hc hf =>
    have hlen : j < s.threads.length := (List.getElem?_eq_some_iff.1 hj).1
    have happ : (s.threads.set i (.run l') ++ new.map (.run : L → Thread M C L))[j]? =
        (s.threads.set i (.run l'))[j]? := List.getElem?_append_left (by simpa using hlen)
    by_cases hij : i = j
    · subst hij; rw [ht] at hj; cases hj
      exact ⟨_, happ.trans (set_getElem?_self ht _), .act rfl hc hf⟩
    · exact hkeep (happ.trans ((hset hij).trans hj)) (.inl rfl)

/-- Every step, seen from a thread that is there after it: the thread was there before, or a
statement on the shared data created it. -/
theorem step_thread_back {code : L → Instr M C S X L} {s s' : State M C S L} {a : Action X} {j : Nat}
    {t' : Thread M C L} (h : step code s a = some s') (hj : s'.threads[j]? = some t') :
    (∃ t, s.threads[j]? = some t ∧ ThreadStep code s s' a j t t') ∨
    ∃ i x l f l' new n, s.threads[i]? = some (.run l) ∧ code l = .act f ∧
      f i s.shared x = some (s'.shared, l', new) ∧ n ∈ new ∧ t' = .run n := by
  cases ht : s.threads[j]? with
  | some t =>
    obtain ⟨t₁, h₁, hstep⟩ := step_thread h ht
    rw [hj] at h₁; cases h₁
    exact .inl ⟨t, rfl, hstep⟩
  | none =>
    have hnone : ∀ {ts : List (Thread M C L)}, ts.length = s.threads.length → ts[j]? ≠ some t' := by
      intro ts hlen e
      have h1 := (List.getElem?_eq_some_iff.1 e).1
      have h2 := List.getElem?_eq_none_iff.1 ht
      omega
    cases step_cases h with
    | @act i x ws l f sh l' new hi hc hf =>
      refine .inr ⟨i, x, l, f, l', new, ?_⟩
      rw [List.getElem?_append] at hj
      split at hj
      · exact absurd hj (hnone (by simp))
      · obtain ⟨n, hn, rfl⟩ := List.mem_map.1 (List.mem_of_getElem? hj)
        exact ⟨n, hi, hc, hf, hn, rfl⟩
    | _ => exact absurd hj (hnone (by simp))

end Semantics

section Acts

variable {M C S X L : Type}

/-- What the statement can do to the shared data and the locations, if it is one on the shared
data. -/
def Instr.Acts (R : Nat → S → S → L → List L → Prop) : Instr M C S X L → Prop
  | .act f => ∀ i sh x sh' l' new, f i sh x = some (sh', l', new) → R i sh sh' l' new
  | _ => True

theorem acts_update {R : Nat → S → S → L → List L → Prop} (f : Nat → S → S) (next : S → L)
    (h : ∀ i sh, R i sh (f i sh) (next sh) []) : (Instr.update f next : Instr M C S X L).Acts R := by
  rintro i sh x sh' l' new hf
  cases hf; exact h i sh

theorem Instr.Acts.of {R : Nat → S → S → L → List L → Prop} {c : Instr M C S X L} (h : c.Acts R)
    {f : Nat → S → X → Option (S × L × List L)} (hc : c = .act f) {i : Nat} {sh sh' : S} {x : X} {l' : L} {new : List L}
    (hf : f i sh x = some (sh', l', new)) : R i sh sh' l' new := by
  subst hc
  exact h i sh x sh' l' new hf

end Acts

end LinuxProgram.Machine
