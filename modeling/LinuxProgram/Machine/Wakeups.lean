/-
Why no wakeup is lost when each change is announced by one signal. Each thread has a credit that
depends on where it is: a thread that still has to signal, or that was woken and has not tested its
condition again, has one. While somebody is blocked on the condition variable, the shared data
never needs more wakeups than there are credits: this holds along every run when each statement of
the program keeps it for its own change of the need and of its thread's credit.
-/
import LinuxProgram.Machine.Tally

namespace LinuxProgram.Machine

variable {M C S X L : Type}

/-! ## Totals of lists of threads -/

section Totals

variable {T : Type} {w : T → Int}

theorem tally_nonneg (hw : ∀ t, 0 ≤ w t) (ts : List T) : 0 ≤ tally w ts := by
  refine List.sum_nonneg fun n hn => ?_
  obtain ⟨t, -, rfl⟩ := List.mem_map.1 hn
  exact hw t

/-- The total grows when every weight does. -/
theorem tally_le : ∀ {ts ts' : List T}, ts'.length = ts.length →
    (∀ (j : Nat) t t', ts[j]? = some t → ts'[j]? = some t' → w t ≤ w t') → tally w ts ≤ tally w ts'
  | [], [], _, _ => le_refl _
  | t :: ts, t' :: ts', hlen, h => by
    have h0 := h 0 t t' rfl rfl
    have ih : tally w ts ≤ tally w ts' := tally_le (by simpa using hlen) fun j u u' hu hu' => h (j + 1) u u' hu hu'
    rw [tally_cons, tally_cons]
    omega

/-- The total grows by one when every weight grows and one weight grows by one. -/
theorem tally_lt {ts ts' : List T} {k : Nat} {u u' : T} (hlen : ts'.length = ts.length)
    (h : ∀ (j : Nat) t t', ts[j]? = some t → ts'[j]? = some t' → w t ≤ w t') (hu : ts[k]? = some u)
    (hu' : ts'[k]? = some u') (hlt : w u + 1 ≤ w u') : tally w ts + 1 ≤ tally w ts' := by
  obtain ⟨n, h1, h2⟩ := tally_split w hu
  have hle : tally w (ts.set k u') ≤ tally w ts' := by
    refine tally_le (by rw [hlen, List.length_set]) fun j t t' ht ht' => ?_
    rw [getElem?_set_eq hu] at ht
    split at ht
    · rename_i hkj
      subst hkj
      rw [hu'] at ht'
      cases ht; cases ht'
      exact le_refl _
    · exact h j t t' ht ht'
  have := h2 u'
  omega

/-- The total when a weight comes only from what is counted. -/
theorem tally_le_countP {p q : T → Bool} : ∀ {ts : List T},
    (∀ t ∈ ts, w t ≤ (if p t then 1 else 0) + if q t then 1 else 0) → tally w ts ≤ ts.countP p + ts.countP q
  | [], _ => le_refl _
  | t :: ts, h => by
    have h0 := h t List.mem_cons_self
    have ih : tally w ts ≤ ts.countP p + ts.countP q := tally_le_countP fun u hu => h u (List.mem_cons_of_mem _ hu)
    rw [tally_cons, List.countP_cons, List.countP_cons]
    split at h0 <;> split at h0 <;> simp_all <;> omega

end Totals

/-! ## Credits -/

/-- The credit of a thread: `cr` where it runs, `wk` where it goes on after a wakeup. -/
def Thread.credit (cr wk : L → Int) : Thread M C L → Int
  | .run l => cr l
  | .woken _ l => wk l
  | .blocked .. => 0

/-- While a thread is blocked on `c`, the credits cover the need. -/
def Announced [DecidableEq C] (c : C) (need : S → Int) (cr wk : L → Int) (s : State M C S L) : Prop :=
  s.threads.any (·.blockedOn c) = true → need s.shared ≤ tally (Thread.credit cr wk) s.threads

/-- The statement at `l` announces its change: `A i l` is what thread `i` knows there, `n` are the
credits of the others. -/
def Instr.Announces [DecidableEq C] (c : C) (need : S → Int) (cr wk : L → Int) (A : Nat → L → S → Prop) (l : L) :
    Instr M C S X L → Prop
  | .lock _ l' | .unlock _ l' => cr l ≤ cr l'
  -- a thread goes to sleep on `c` only when nothing is needed, and gets a credit when it is woken
  | .wait c' _ l' => (if c' = c then (∀ i sh, A i l sh → need sh ≤ 0) ∧ 1 ≤ wk l' else cr l ≤ 0) ∧ wk l' ≤ cr l'
  | .signal c' l' => cr l ≤ cr l' + if c' = c then 1 else 0
  | .broadcast c' l' => c' ≠ c → cr l ≤ cr l'
  | .act f => ∀ i sh x sh' l' new n, f i sh x = some (sh', l', new) → A i l sh → 0 ≤ n → need sh ≤ n + cr l →
    need sh' ≤ n + cr l'
  | .halt => True

def Announcing [DecidableEq C] (code : L → Instr M C S X L) (c : C) (need : S → Int) (cr wk : L → Int)
    (A : Nat → L → S → Prop) : Prop := ∀ l, (code l).Announces c need cr wk A l

section Announced

variable [DecidableEq C] {code : L → Instr M C S X L} {c : C} {need : S → Int} {cr wk : L → Int}
  {A : Nat → L → S → Prop} {l : L}

theorem Announcing.at (h : Announcing code c need cr wk A) {i : Instr M C S X L} (hc : code l = i) :
    i.Announces c need cr wk A l := hc ▸ h l

theorem announces_update (f : Nat → S → S) (next : S → L)
    (h : ∀ i sh n, A i l sh → 0 ≤ n → need sh ≤ n + cr l → need (f i sh) ≤ n + cr (next sh)) :
    (Instr.update f next : Instr M C S X L).Announces c need cr wk A l := by
  rintro i sh x sh' l' new n hf hA hn hle
  cases hf
  exact h i sh n hA hn hle

/-- A statement that changes neither the need nor its thread's credit. -/
theorem announces_same (f : Nat → S → S) (next : S → L) (hf : ∀ i sh, need (f i sh) = need sh)
    (hn : ∀ sh, cr l ≤ cr (next sh)) : (Instr.update f next : Instr M C S X L).Announces c need cr wk A l := by
  refine announces_update _ _ fun i sh n _ _ hle => ?_
  have := hn sh
  rw [hf]
  omega

omit [DecidableEq C] in
theorem credit_nonneg (hcr : ∀ l, 0 ≤ cr l) (hwk : ∀ l, 0 ≤ wk l) (t : Thread M C L) : 0 ≤ t.credit cr wk := by
  cases t with
  | run l => exact hcr l
  | woken m l => exact hwk l
  | blocked c m l => exact le_refl _

section Woken

variable {ts ts' : List (Thread M C L)} (hts : ∀ j : Nat, ts'[j]? = ts[j]? ∨
  ∃ (c : C) (m : M) (l : L), ts[j]? = some (.blocked c m l) ∧ ts'[j]? = some (.woken m l))

include hts

omit [DecidableEq C] in
/-- A wakeup leaves nobody with less credit. -/
theorem credit_le_of_wake (cr : L → Int) (hwk : ∀ l, 0 ≤ wk l) (j : Nat) (t t' : Thread M C L) (ht : ts[j]? = some t)
    (ht' : ts'[j]? = some t') : t.credit cr wk ≤ t'.credit cr wk := by
  rcases hts j with e | ⟨c, m, l, h1, h2⟩
  · rw [e, ht] at ht'
    cases ht'
    exact le_refl _
  · rw [ht] at h1
    rw [ht'] at h2
    cases h1
    cases h2
    exact hwk l

/-- Who is blocked when some are woken and the waking thread has gone on was blocked before, and was not
woken. -/
theorem blocked_of_wake {i : Nat} {l l' : L} (hi : ts'[i]? = some (.run l))
    (hany : (ts'.set i (.run l')).any (·.blockedOn c) = true) : ∃ t ∈ ts, t ∈ ts' ∧ t.blockedOn c = true := by
  obtain ⟨u, hu, hub⟩ := List.any_eq_true.1 hany
  obtain ⟨k, hk⟩ := List.mem_iff_getElem?.1 hu
  rw [getElem?_set_eq hi] at hk
  split at hk
  · cases hk
    cases hub
  · rcases hts k with e | ⟨_, _, _, -, h2⟩
    · exact ⟨u, List.mem_of_getElem? (e ▸ hk), List.mem_of_getElem? hk, hub⟩
    · rw [h2] at hk
      cases hk
      cases hub

end Woken

/-- A broadcast on `c` leaves nobody blocked there. -/
theorem not_blocked_of_wakeAll {ts : List (Thread M C L)} {i : Nat} {l l' : L}
    (hi : (wakeAll c ts)[i]? = some (.run l)) : ((wakeAll c ts).set i (.run l')).any (·.blockedOn c) = false := by
  by_contra hany
  obtain ⟨u, -, hu, hub⟩ := blocked_of_wake (wakeAll_cases c ts) hi (by simpa only [Bool.not_eq_false] using hany)
  obtain ⟨t, -, rfl⟩ := List.mem_map.1 hu
  split at hub
  · cases t <;> cases hub
  · rename_i hne
    exact hne hub

/-- Somebody was blocked before one thread was replaced. -/
theorem any_blocked_set {ts : List (Thread M C L)} {i : Nat} {t t' : Thread M C L} (ht : ts[i]? = some t)
    (hb : t'.blockedOn c = true → t.blockedOn c = true) (hany : (ts.set i t').any (·.blockedOn c) = true) :
    ts.any (·.blockedOn c) = true := by
  obtain ⟨u, hu, hub⟩ := List.any_eq_true.1 hany
  rcases List.mem_or_eq_of_mem_set hu with hu | rfl
  · exact List.any_eq_true.2 ⟨u, hu, hub⟩
  · exact List.any_eq_true.2 ⟨t, List.mem_of_getElem? ht, hb hub⟩

/-- Somebody was blocked before a statement on the shared data. -/
theorem any_blocked_act {ts : List (Thread M C L)} {i : Nat} {t : Thread M C L} {l' : L} {new : List L}
    (ht : ts[i]? = some t)
    (hany : (ts.set i (.run l') ++ new.map (.run : L → Thread M C L)).any (·.blockedOn c) = true) :
    ts.any (·.blockedOn c) = true := by
  rw [List.any_append, Bool.or_eq_true] at hany
  rcases hany with hany | hany
  · exact any_blocked_set ht (fun hb => by cases hb) hany
  · obtain ⟨u, hu, hub⟩ := List.any_eq_true.1 hany
    obtain ⟨l₁, -, rfl⟩ := List.mem_map.1 hu
    cases hub

variable {s : State M C S L}

/-- A step that puts `t'` in the place of `t`. -/
theorem Announced.set (h : Announced c need cr wk s) {i : Nat} {t t' : Thread M C L} (own : M → Option Nat)
    (ht : s.threads[i]? = some t) (hb : t'.blockedOn c = true → t.blockedOn c = true)
    (hle : t.credit cr wk ≤ t'.credit cr wk) :
    Announced c need cr wk { s with owner := own, threads := s.threads.set i t' } := by
  intro hany
  obtain ⟨n, h1, h2⟩ := tally_split (Thread.credit cr wk) ht
  have h3 := h (any_blocked_set ht hb hany)
  have h4 := h2 t'
  show need s.shared ≤ tally _ (s.threads.set i t')
  omega

/-- A signal gives one thread the credit that the signalling one loses. -/
theorem Announcing.signal_valid {holds : M → L → Bool} (hP : Announcing code c need cr wk A) (hwk : ∀ l, 0 ≤ wk l)
    (hm : MutexInv code holds s) (h : Announced c need cr wk s) {i : Nat} {ws : List Nat} {c' : C} {l l' : L}
    (ht : s.threads[i]? = some (.run l)) (hc : code l = .signal c' l') (hok : SignalOk c' ws s.threads) :
    Announced c need cr wk { s with threads := (wakeAt ws s.threads).set i (.run l') } := by
  have hsig := hP.at hc
  have hwoke := wakeAt_cases ws s.threads
  have hi : (wakeAt ws s.threads)[i]? = some (.run l) := by
    rw [wakeAt_getElem?, ht]
    simp [Thread.wake]
  intro hany
  obtain ⟨u, hu, -, hub⟩ := blocked_of_wake hwoke hi hany
  have hblocked : s.threads.any (·.blockedOn c) = true := List.any_eq_true.2 ⟨u, hu, hub⟩
  have hneed := h hblocked
  obtain ⟨n, h1, h2⟩ := tally_split (Thread.credit cr wk) hi
  have h2' := h2 (.run l')
  have hcl : Thread.credit (M := M) (C := C) cr wk (.run l) = cr l := rfl
  have hcl' : Thread.credit (M := M) (C := C) cr wk (.run l') = cr l' := rfl
  show need s.shared ≤ tally _ ((wakeAt ws s.threads).set i (.run l'))
  by_cases hcc : c' = c
  · subst hcc
    obtain ⟨j, hj⟩ := List.exists_mem_of_ne_nil ws (hok.2 hblocked)
    obtain ⟨t, htj, htb⟩ : ∃ t, s.threads[j]? = some t ∧ t.blockedOn c' = true := by
      simpa [Option.any_eq_true] using hok.1 j hj
    cases t with
    | blocked c₁ m₁ l₁ =>
      have hc₁ : c₁ = c' := by simpa [Thread.blockedOn] using htb
      subst hc₁
      obtain ⟨l₀, h₀⟩ := hm.blocked j c₁ m₁ l₁ htj
      have hone := (hP.at h₀).1
      rw [if_pos rfl] at hone
      have hwoken : (wakeAt ws s.threads)[j]? = some (.woken m₁ l₁) := by
        rw [wakeAt_getElem?, htj]
        simp [hj, Thread.wake]
      have hlt := tally_lt (by simp) (credit_le_of_wake hwoke cr hwk) htj hwoken (by simpa [Thread.credit] using hone.2)
      simp only [Instr.Announces, if_true] at hsig
      omega
    | run l₁ | woken m₁ l₁ => cases htb
  · have hle := tally_le (by simp) (credit_le_of_wake hwoke cr hwk)
    simp only [Instr.Announces, if_neg hcc] at hsig
    omega

/-- A broadcast on `c` leaves nobody blocked there. -/
theorem Announcing.broadcast_valid (hP : Announcing code c need cr wk A) (hwk : ∀ l, 0 ≤ wk l)
    (h : Announced c need cr wk s) {i : Nat} {c' : C} {l l' : L} (ht : s.threads[i]? = some (.run l))
    (hc : code l = .broadcast c' l') :
    Announced c need cr wk { s with threads := (wakeAll c' s.threads).set i (.run l') } := by
  have hwoke := wakeAll_cases c' s.threads
  have hi : (wakeAll c' s.threads)[i]? = some (.run l) := by
    rw [wakeAll_getElem?, ht]
    simp [Thread.blockedOn]
  intro hany
  obtain ⟨u, hu, -, hub⟩ := blocked_of_wake hwoke hi hany
  have hcc : c' ≠ c := by
    rintro rfl
    rw [not_blocked_of_wakeAll hi] at hany
    cases hany
  have hneed := h (List.any_eq_true.2 ⟨u, hu, hub⟩)
  obtain ⟨n, h1, h2⟩ := tally_split (Thread.credit cr wk) hi
  have h2' := h2 (.run l')
  have hle := tally_le (by simp) (credit_le_of_wake hwoke cr hwk)
  have hcl : Thread.credit (M := M) (C := C) cr wk (.run l) = cr l := rfl
  have hcl' : Thread.credit (M := M) (C := C) cr wk (.run l') = cr l' := rfl
  have hbc : cr l ≤ cr l' := hP.at hc hcc
  show need s.shared ≤ tally _ ((wakeAll c' s.threads).set i (.run l'))
  omega

/-- Any other statement changes the need and its thread's credit; the threads it starts have credits of
their own. -/
theorem Announcing.act_valid (hP : Announcing code c need cr wk A) (hcr : ∀ l, 0 ≤ cr l) (hwk : ∀ l, 0 ≤ wk l)
    (h : Announced c need cr wk s) {i : Nat} {x : X} {f : Nat → S → X → Option (S × L × List L)} {sh : S} {l l' : L}
    {new : List L} (hA : A i l s.shared) (ht : s.threads[i]? = some (.run l)) (hc : code l = .act f)
    (hf : f i s.shared x = some (sh, l', new)) :
    Announced c need cr wk { s with shared := sh, threads := s.threads.set i (.run l') ++ new.map .run } := by
  intro hany
  obtain ⟨n, h1, h2⟩ := tally_split (Thread.credit cr wk) ht
  have h2' := h2 (.run l')
  have hle := le_tally (credit_nonneg hcr hwk) (List.mem_of_getElem? ht)
  have hneed := h (any_blocked_act ht hany)
  have hcl : Thread.credit (M := M) (C := C) cr wk (.run l) = cr l := rfl
  have hcl' : Thread.credit (M := M) (C := C) cr wk (.run l') = cr l' := rfl
  have hnew := tally_nonneg (credit_nonneg hcr hwk) (new.map (.run : L → Thread M C L))
  have hstep := hP.at hc i s.shared x sh l' new n hf hA (by omega) (by omega)
  show need sh ≤ tally _ (s.threads.set i (.run l') ++ new.map .run)
  rw [tally_append]
  omega

variable [DecidableEq M]

/-- One step keeps the need covered. -/
theorem Announcing.step_valid {holds : M → L → Bool} (hP : Announcing code c need cr wk A) (hcr : ∀ l, 0 ≤ cr l)
    (hwk : ∀ l, 0 ≤ wk l) {s' : State M C S L} {a : Action X} (hm : MutexInv code holds s)
    (hA : ∀ (i : Nat) l, s.threads[i]? = some (.run l) → A i l s.shared) (h : Announced c need cr wk s)
    (hs : step code s a = some s') : Announced c need cr wk s' := by
  cases step_cases hs with
  | @spurious i c' m l ht => exact h.set s.owner ht (fun hb => by cases hb) (hwk l)
  | @relock i x ws m l ht hfree =>
    obtain ⟨l₀, c', h₀⟩ := hm.woken i m l ht
    exact h.set _ ht (fun hb => by cases hb) (hP.at h₀).2
  | @lock i x ws m l l' ht hc hfree => exact h.set _ ht (fun hb => by cases hb) (hP.at hc)
  | @unlock i x ws m l l' ht hc => exact h.set _ ht (fun hb => by cases hb) (hP.at hc)
  | @wait i x ws c' m l l' ht hc =>
    have hw := (hP.at hc).1
    by_cases hcc : c' = c
    · rw [if_pos hcc] at hw
      exact fun _ => le_trans (hw.1 i s.shared (hA i l ht)) (tally_nonneg (credit_nonneg hcr hwk) _)
    · rw [if_neg hcc] at hw
      refine h.set _ ht (fun hb => ?_) hw
      exact absurd (by simpa [Thread.blockedOn] using hb) hcc
  | @signal i x ws c' l l' ht hc hok => exact hP.signal_valid hwk hm h ht hc hok
  | @broadcast i x ws c' l l' ht hc => exact hP.broadcast_valid hwk h ht hc
  | @act i x ws l f sh l' new ht hc hf => exact hP.act_valid hcr hwk h (hA i l ht) ht hc hf

/-- The credits cover the need in every state of a run. -/
theorem Announcing.valid {holds : M → L → Bool} (hP : Announcing code c need cr wk A) (hcr : ∀ l, 0 ≤ cr l)
    (hwk : ∀ l, 0 ≤ wk l) {s t : State M C S L} (hm : ∀ u, Reach (step code) s u → MutexInv code holds u)
    (hA : ∀ u, Reach (step code) s u → ∀ (i : Nat) l, u.threads[i]? = some (.run l) → A i l u.shared)
    (h0 : s.threads.any (·.blockedOn c) = false) (h : Reach (step code) s t) : Announced c need cr wk t :=
  ReachWith.invariant (J := Reach (step code) s) h (fun _ hu => hu) (fun hb => by rw [h0] at hb; cases hb)
    fun u _ _ hu hI _ hs => hP.step_valid hcr hwk (hm u hu) (hA u hu) hI hs

end Announced

end LinuxProgram.Machine
