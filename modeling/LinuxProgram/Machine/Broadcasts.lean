/-
Why no sleeper is left behind when each change is announced by a broadcast. The threads blocked on
a condition variable have a reason to sleep, a property of the shared data; a statement that takes
the reason away moves its thread to a location from where the thread will broadcast. So while
somebody is blocked, the reason holds or some thread is about to broadcast, along every run of a
program whose statements keep it one by one. Unlike signals, broadcasts need no counting: after
one, nobody is blocked.
-/
import LinuxProgram.Machine.Wakeups

namespace LinuxProgram.Machine

variable {M C S X L : Type}

/-- A thread runs at a location of `pending`. -/
def SomeAt (pending : L → Prop) (ts : List (Thread M C L)) : Prop := ∃ l, pending l ∧ Thread.run l ∈ ts

/-- While a thread is blocked on `c`, the shared data gives it a reason to sleep, or some thread is about
to broadcast. -/
def Posted [DecidableEq C] (c : C) (idle : S → Prop) (pending : L → Prop) (s : State M C S L) : Prop :=
  s.threads.any (·.blockedOn c) = true → idle s.shared ∨ SomeAt pending s.threads

/-- The statement at `l` takes the reason to sleep on `c` away only with a broadcast to follow: `A i l` is
what thread `i` knows there, `pending` are the locations before the broadcast. -/
def Instr.Posts (c : C) (idle : S → Prop) (pending : L → Prop) (A : Nat → L → S → Prop) (l : L) :
    Instr M C S X L → Prop
  | .lock _ l' | .unlock _ l' | .signal _ l' => pending l → pending l'
  -- a thread goes to sleep on `c` only with a reason, and nowhere with a broadcast to make
  | .wait c' _ _ => (c' = c → ∀ i sh, A i l sh → idle sh) ∧ (c' ≠ c → ¬ pending l)
  | .broadcast c' l' => c' ≠ c → pending l → pending l'
  | .act f => ∀ i sh x sh' l' new, f i sh x = some (sh', l', new) → A i l sh →
    (idle sh → idle sh' ∨ pending l') ∧ (pending l → idle sh' ∨ pending l')
  | .halt => True

def Posting (code : L → Instr M C S X L) (c : C) (idle : S → Prop) (pending : L → Prop)
    (A : Nat → L → S → Prop) : Prop :=
  ∀ l, (code l).Posts c idle pending A l

/-! ## Threads at pending locations -/

section SomeAt

variable {pending : L → Prop} {ts ts' : List (Thread M C L)}

/-- Replacing one thread by one that stays at a pending location. -/
theorem SomeAt.set (h : SomeAt pending ts) {i : Nat} {t t' : Thread M C L} (ht : ts[i]? = some t)
    (hp : ∀ l, t = .run l → pending l → ∃ l', t' = .run l' ∧ pending l') : SomeAt pending (ts.set i t') := by
  obtain ⟨l, hl, hmem⟩ := h
  obtain ⟨j, hj⟩ := List.mem_iff_getElem?.1 hmem
  by_cases hij : i = j
  · subst hij
    rw [ht] at hj
    obtain ⟨l', rfl, hl'⟩ := hp l (Option.some.inj hj) hl
    exact ⟨l', hl', List.mem_of_getElem? (set_getElem?_self ht _)⟩
  · exact ⟨l, hl, List.mem_of_getElem? ((List.getElem?_set_ne hij).trans hj)⟩

theorem SomeAt.append (h : SomeAt pending ts) (new : List (Thread M C L)) : SomeAt pending (ts ++ new) := by
  obtain ⟨l, hl, hmem⟩ := h
  exact ⟨l, hl, List.mem_append_left _ hmem⟩

theorem SomeAt.of_run {i : Nat} {t : Thread M C L} {l : L} (ht : ts[i]? = some t) (hl : pending l) :
    SomeAt pending (ts.set i (.run l)) := ⟨l, hl, List.mem_of_getElem? (set_getElem?_self ht _)⟩

/-- A wakeup moves no running thread. -/
theorem SomeAt.wake (h : SomeAt pending ts) (hts : ∀ j : Nat, ts'[j]? = ts[j]? ∨
    ∃ (c : C) (m : M) (l : L), ts[j]? = some (.blocked c m l) ∧ ts'[j]? = some (.woken m l)) : SomeAt pending ts' := by
  obtain ⟨l, hl, hmem⟩ := h
  obtain ⟨j, hj⟩ := List.mem_iff_getElem?.1 hmem
  rcases hts j with e | ⟨c, m, l', h1, -⟩
  · exact ⟨l, hl, List.mem_of_getElem? (e.trans hj)⟩
  · rw [hj] at h1
    cases h1

end SomeAt

/-! ## One step -/

section Posted

variable [DecidableEq C] {code : L → Instr M C S X L} {c : C} {idle : S → Prop} {pending : L → Prop}
  {A : Nat → L → S → Prop} {l : L}

omit [DecidableEq C] in
theorem Posting.at (h : Posting code c idle pending A) {i : Instr M C S X L} (hc : code l = i) :
    i.Posts c idle pending A l := hc ▸ h l

variable {s : State M C S L}

/-- A step that puts `t'` in the place of `t`. -/
theorem Posted.set (h : Posted c idle pending s) {i : Nat} {t t' : Thread M C L} (own : M → Option Nat)
    (ht : s.threads[i]? = some t) (hb : t'.blockedOn c = true → t.blockedOn c = true)
    (hp : ∀ l, t = .run l → pending l → ∃ l', t' = .run l' ∧ pending l') :
    Posted c idle pending { s with owner := own, threads := s.threads.set i t' } := by
  intro hany
  rcases h (any_blocked_set ht hb hany) with hs | hs
  · exact .inl hs
  · exact .inr (hs.set ht hp)

/-- A step that wakes threads and moves the waking one on. -/
theorem Posted.wake (h : Posted c idle pending s) {i : Nat} {l l' : L} {ts : List (Thread M C L)}
    (hts : ∀ j : Nat, ts[j]? = s.threads[j]? ∨
      ∃ (c : C) (m : M) (l : L), s.threads[j]? = some (.blocked c m l) ∧ ts[j]? = some (.woken m l))
    (hi : ts[i]? = some (.run l)) (hp : pending l → pending l') :
    Posted c idle pending { s with threads := ts.set i (.run l') } := by
  intro hany
  obtain ⟨u, hu, -, hub⟩ := blocked_of_wake hts hi hany
  rcases h (List.any_eq_true.2 ⟨u, hu, hub⟩) with hs | hs
  · exact .inl hs
  · refine .inr ((hs.wake hts).set hi fun l₁ e hl₁ => ?_)
    cases e
    exact ⟨l', rfl, hp hl₁⟩

/-- A statement on the shared data starts nobody blocked. -/
theorem Posting.act_valid (hP : Posting code c idle pending A) (h : Posted c idle pending s) {i : Nat} {x : X}
    {f : Nat → S → X → Option (S × L × List L)} {sh : S} {l l' : L} {new : List L} (hA : A i l s.shared)
    (ht : s.threads[i]? = some (.run l)) (hc : code l = .act f) (hf : f i s.shared x = some (sh, l', new)) :
    Posted c idle pending { s with shared := sh, threads := s.threads.set i (.run l') ++ new.map .run } := by
  obtain ⟨hkeep, hpend⟩ := hP.at hc i s.shared x sh l' new hf hA
  -- thread `i` at a pending location posts the broadcast
  have hpost : idle sh ∨ pending l' → idle sh ∨ SomeAt pending (s.threads.set i (.run l') ++ new.map .run) :=
    Or.imp_right fun hl' => (SomeAt.of_run ht hl').append _
  intro hany
  rcases h (any_blocked_act ht hany) with hs | hs
  · exact hpost (hkeep hs)
  · by_cases hl : pending l
    · exact hpost (hpend hl)
    · refine .inr ((hs.set ht fun l₁ e hl₁ => ?_).append _)
      cases e
      exact absurd hl₁ hl

variable [DecidableEq M]

/-- One step keeps every sleeper a reason or a broadcast to come. -/
theorem Posting.step_valid (hP : Posting code c idle pending A) {s' : State M C S L} {a : Action X}
    (hA : ∀ (i : Nat) l, s.threads[i]? = some (.run l) → A i l s.shared) (h : Posted c idle pending s)
    (hs : step code s a = some s') : Posted c idle pending s' := by
  cases step_cases hs with
  | @spurious i c' m l ht => exact h.set s.owner ht (fun hb => by cases hb) fun _ e => by cases e
  | @relock i x ws m l ht hfree => exact h.set _ ht (fun hb => by cases hb) fun _ e => by cases e
  | @lock i x ws m l l' ht hc hfree =>
    refine h.set _ ht (fun hb => by cases hb) fun l₁ e hl₁ => ?_
    cases e
    exact ⟨l', rfl, hP.at hc hl₁⟩
  | @unlock i x ws m l l' ht hc =>
    refine h.set _ ht (fun hb => by cases hb) fun l₁ e hl₁ => ?_
    cases e
    exact ⟨l', rfl, hP.at hc hl₁⟩
  | @wait i x ws c' m l l' ht hc =>
    obtain ⟨hsleep, hother⟩ := hP.at hc
    by_cases hcc : c' = c
    · exact fun _ => .inl (hsleep hcc i s.shared (hA i l ht))
    · refine h.set _ ht (fun hb => absurd (by simpa [Thread.blockedOn] using hb) hcc) fun l₁ e hl₁ => ?_
      cases e
      exact absurd hl₁ (hother hcc)
  | @signal i x ws c' l l' ht hc hok =>
    have hi : (wakeAt ws s.threads)[i]? = some (.run l) := by
      rw [wakeAt_getElem?, ht]
      simp [Thread.wake]
    exact h.wake (wakeAt_cases ws s.threads) hi (hP.at hc)
  | @broadcast i x ws c' l l' ht hc =>
    have hi : (wakeAll c' s.threads)[i]? = some (.run l) := by
      rw [wakeAll_getElem?, ht]
      simp [Thread.blockedOn]
    by_cases hcc : c' = c
    · subst hcc
      intro hany
      rw [not_blocked_of_wakeAll hi] at hany
      cases hany
    · exact h.wake (wakeAll_cases c' s.threads) hi (hP.at hc hcc)
  | @act i x ws l f sh l' new ht hc hf => exact hP.act_valid h (hA i l ht) ht hc hf

/-- Every sleeper has a reason or a broadcast to come, in every state of a run. -/
theorem Posting.valid (hP : Posting code c idle pending A) {s t : State M C S L}
    (hA : ∀ u, Reach (step code) s u → ∀ (i : Nat) l, u.threads[i]? = some (.run l) → A i l u.shared)
    (h0 : s.threads.any (·.blockedOn c) = false) (h : Reach (step code) s t) : Posted c idle pending t :=
  ReachWith.invariant (J := Reach (step code) s) h (fun _ hu => hu) (fun hb => by rw [h0] at hb; cases hb)
    fun u _ _ hu hI _ hs => hP.step_valid (hA u hu) hI hs

end Posted

end LinuxProgram.Machine
