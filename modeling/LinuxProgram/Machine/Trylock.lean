/-
Agents that need two locks each. An agent waits for its first lock and only tries the second, so that it gives
back the first one when the second is taken: nobody waits with a lock in the hand. An agent with two locks that
are nobody else's first lock gets them again and again, or somebody else gets two.
-/
import LinuxProgram.Machine.Reach
import Mathlib.Tactic

namespace LinuxProgram.Machine.Trylock

variable {A R : Type} [DecidableEq A] [DecidableEq R]

/-- What the agent does next. -/
inductive Stage where
  | wants
  | tries
  /-- It has both locks, and gives back the second. -/
  | uses
  /-- It gives back the first lock. -/
  | leaves
  | rests
  deriving DecidableEq, Repr

structure Table (A R : Type) where
  stage : A → Stage
  owner : R → Option A

namespace Table

def init : Table A R := ⟨fun _ => .wants, fun _ => none⟩

/-- The turn of an agent: a call of `lock`, `trylock` or `unlock`, or the rest between them. An agent that waits
for its first lock stays where it is. -/
def step (first second : A → R) (s : Table A R) (a : A) : Table A R :=
  match s.stage a with
  | .wants =>
    if s.owner (first a) = none then ⟨Function.update s.stage a .tries, Function.update s.owner (first a) (some a)⟩
    else s
  | .tries =>
    if s.owner (second a) = none then ⟨Function.update s.stage a .uses, Function.update s.owner (second a) (some a)⟩
    else ⟨Function.update s.stage a .leaves, s.owner⟩
  | .uses => ⟨Function.update s.stage a .leaves, Function.update s.owner (second a) none⟩
  | .leaves => ⟨Function.update s.stage a .rests, Function.update s.owner (first a) none⟩
  | .rests => ⟨Function.update s.stage a .wants, s.owner⟩

/-- The turns of a list of agents. -/
def run (first second : A → R) (as : List A) : Table A R := as.foldl (step first second) init

/-- The agent has the lock. -/
def Has (first second : A → R) (s : Table A R) (a : A) (r : R) : Prop :=
  r = first a ∧ (s.stage a = .tries ∨ s.stage a = .uses ∨ s.stage a = .leaves) ∨ r = second a ∧ s.stage a = .uses

/-- Every lock is owned by the agent that has it. -/
def Owned (first second : A → R) (s : Table A R) : Prop := ∀ r a, s.owner r = some a ↔ s.Has first second a r

end Table

variable {first second : A → R} {s : Table A R} {a b : A}

/-! ## Ownership -/

theorem step_stage_of_ne (h : b ≠ a) : (s.step first second a).stage b = s.stage b := by
  unfold Table.step
  split
  · split
    · exact Function.update_of_ne h _ _
    · rfl
  · split <;> exact Function.update_of_ne h _ _
  · exact Function.update_of_ne h _ _
  · exact Function.update_of_ne h _ _
  · exact Function.update_of_ne h _ _

omit [DecidableEq A] [DecidableEq R] in
theorem owned_init : (Table.init : Table A R).Owned first second := by
  intro r a
  simp [Table.Has, Table.init]

/-- One case for each stage of the agent whose turn it is. -/
theorem owned_step (hne : ∀ a, first a ≠ second a) (h : s.Owned first second) (a : A) :
    (s.step first second a).Owned first second := by
  intro r b
  have hb := h r b
  have hfirst := h (first a)
  have hsecond := h (second a)
  have h1 := hne a
  unfold Table.Has at hb hfirst hsecond ⊢
  unfold Table.step
  cases hs : s.stage a with
  | wants =>
    dsimp only
    split
    · grind [Function.update]
    · exact hb
  | tries =>
    dsimp only
    split
    · grind [Function.update]
    · grind [Function.update]
  | uses => grind [Function.update]
  | leaves => grind [Function.update]
  | rests => grind [Function.update]

theorem owned_run (hne : ∀ a, first a ≠ second a) (as : List A) : (Table.run first second as).Owned first second := by
  induction as using List.reverseRecOn with
  | nil => exact owned_init
  | append_singleton as a ih =>
    rw [Table.run, List.foldl_concat]
    exact owned_step hne ih a

omit [DecidableEq A] [DecidableEq R] in
/-- Two agents do not have the same lock. -/
theorem Table.Owned.exclusive (h : s.Owned first second) {r : R} (ha : s.Has first second a r)
    (hb : s.Has first second b r) : a = b := by
  have hr := (h r a).2 ha
  rw [(h r b).2 hb] at hr
  exact (Option.some.inj hr).symm

omit [DecidableEq A] [DecidableEq R] in
theorem Table.Owned.free_of_no_use (h : s.Owned first second) (huse : ∀ a, s.stage a ≠ .uses) {r : R}
    (hr : ∀ a, r = first a → s.stage a = .wants ∨ s.stage a = .rests) : s.owner r = none := by
  cases hown : s.owner r with
  | none => rfl
  | some a =>
    rcases (h r a).1 hown with ⟨hra, hs⟩ | ⟨-, hs⟩
    · rcases hr a hra with hs' | hs' <;> simp [hs'] at hs
    · exact absurd hs (huse a)

/-! ## Waiting -/

/-- The turns of one agent. -/
def turns (first second : A → R) (s : Table A R) (a : A) (k : Nat) : Table A R :=
  (List.replicate k a).foldl (Table.step first second) s

theorem step_uses (h : s.stage b = .uses) :
    (s.step first second b).stage b = .leaves ∧ (s.step first second b).owner (second b) = none := by
  simp [Table.step, h]

/-- The state before the `t`-th turn of a schedule. -/
def before (first second : A → R) (sched : Nat → A) (t : Nat) : Table A R :=
  Table.run first second ((List.range t).map sched)

variable {sched : Nat → A}

theorem before_succ (t : Nat) :
    before first second sched (t + 1) = (before first second sched t).step first second (sched t) := by
  simp [before, Table.run, List.range_succ]

theorem owned_before (hne : ∀ a, first a ≠ second a) (t : Nat) : (before first second sched t).Owned first second :=
  owned_run hne _

/-- Until its next turn an agent stays where it is. -/
theorem next_turn (hfair : ∀ t, ∃ t', t ≤ t' ∧ sched t' = a) (t : Nat) :
    ∃ t', t ≤ t' ∧ sched t' = a ∧ (before first second sched t').stage a = (before first second sched t).stage a := by
  obtain ⟨t', ht', ha⟩ := hfair t
  induction hd : t' - t using Nat.strong_induction_on generalizing t with
  | _ d ih =>
    by_cases hnow : sched t = a
    · exact ⟨t, le_rfl, hnow, rfl⟩
    · have hlt : t < t' := by
        rcases Nat.lt_or_eq_of_le ht' with hlt | rfl
        · exact hlt
        · exact absurd ha hnow
      obtain ⟨u, hu, hau, hs⟩ := ih (t' - (t + 1)) (by omega) (t + 1) hlt rfl
      refine ⟨u, by omega, hau, ?_⟩
      rw [hs, before_succ, step_stage_of_ne (Ne.symm hnow)]

/-- The turns that an agent is away from having both locks. -/
def Stage.away : Stage → Nat
  | .uses => 0
  | .tries => 1
  | .wants => 2
  | .rests => 3
  | .leaves => 4

/-- An agent whose locks are nobody else's first lock has both of them, or somebody else has two locks. -/
theorem uses_again (hne : ∀ a, first a ≠ second a) {c : A} (hfirst : ∀ b, b ≠ c → first b ≠ first c)
    (hsecond : ∀ b, first b ≠ second c) (hfair : ∀ t, ∃ t', t ≤ t' ∧ sched t' = c) (t : Nat) :
    ∃ t', t ≤ t' ∧ ∃ a, (before first second sched t').stage a = .uses := by
  by_contra hno
  push Not at hno
  -- while nobody has two locks, every turn of `c` brings it nearer to having them
  have hnear : ∀ n u, t ≤ u → ((before first second sched u).stage c).away ≠ n := by
    intro n
    induction n with
    | zero =>
      intro u hu h0
      apply hno u hu c
      cases hs : (before first second sched u).stage c <;> simp [hs, Stage.away] at h0 ⊢
    | succ n ih =>
      intro u hu hn
      obtain ⟨v, hv, hturn, hsame⟩ := (next_turn hfair u :
        ∃ v, u ≤ v ∧ sched v = c ∧ (before first second sched v).stage c = (before first second sched u).stage c)
      have hown : (before first second sched v).Owned first second := owned_before hne v
      have huse := hno v (hu.trans hv)
      apply ih (v + 1) (by omega)
      rw [before_succ, hturn, Table.step]
      rw [← hsame] at hn
      cases hs : (before first second sched v).stage c with
      | wants =>
        have hfree : (before first second sched v).owner (first c) = none := by
          apply hown.free_of_no_use huse
          intro a ha
          by_cases hac : a = c
          · rw [hac]
            exact .inl hs
          · exact absurd ha.symm (hfirst a hac)
        simp [hs, hfree, Stage.away] at hn ⊢
        omega
      | tries =>
        have hfree : (before first second sched v).owner (second c) = none :=
          hown.free_of_no_use huse fun a ha => absurd ha.symm (hsecond a)
        simp [hs, hfree, Stage.away] at hn ⊢
        omega
      | uses => exact absurd hs (huse c)
      | leaves =>
        simp [hs, Stage.away] at hn ⊢
        omega
      | rests =>
        simp [hs, Stage.away] at hn ⊢
        omega
  exact hnear _ t le_rfl rfl

/-- Only an agent that tries its second lock comes to have both. -/
theorem uses_of_tries {u : Nat} (h : (before first second sched (u + 1)).stage a = .uses) :
    (before first second sched u).stage a = .uses ∨ (before first second sched u).stage a = .tries := by
  rw [before_succ] at h
  by_cases ha : a = sched u
  · subst ha
    cases hs : (before first second sched u).stage (sched u) with
    | wants =>
      by_cases hfree : (before first second sched u).owner (first (sched u)) = none
      · simp [Table.step, hs, hfree] at h
      · simp [Table.step, hs, hfree] at h
    | tries => exact .inr rfl
    | uses => exact .inl rfl
    | leaves => simp [Table.step, hs] at h
    | rests => simp [Table.step, hs] at h
  · rw [step_stage_of_ne ha] at h
    exact .inl h

/-- In a schedule that leaves nobody out, somebody comes to have two locks again and again. -/
theorem begins_again [Fintype A] (hne : ∀ a, first a ≠ second a) {c : A} (hfirst : ∀ b, b ≠ c → first b ≠ first c)
    (hsecond : ∀ b, first b ≠ second c) (hfair : ∀ a t, ∃ t', t ≤ t' ∧ sched t' = a) (t : Nat) :
    ∃ t', t ≤ t' ∧ ∃ a, (before first second sched t').stage a = .tries ∧
    (before first second sched (t' + 1)).stage a = .uses := by
  by_contra hno
  push Not at hno
  have hkeep : ∀ a u, t ≤ u → (before first second sched u).stage a ≠ .uses →
      (before first second sched (u + 1)).stage a ≠ .uses := by
    intro a u hu hs hs'
    rcases uses_of_tries hs' with h | h
    · exact hs h
    · exact hno u hu a h hs'
  -- from its next turn on an agent has not both locks any more
  have hstop : ∀ a, ∃ T, t ≤ T ∧ ∀ u, T ≤ u → (before first second sched u).stage a ≠ .uses := by
    intro a
    obtain ⟨T, hT, ha⟩ := hfair a t
    refine ⟨T + 1, by omega, fun u hu => ?_⟩
    induction u, hu using Nat.le_induction with
    | base =>
      by_cases hs : (before first second sched T).stage a = .uses
      · rw [before_succ, ha, (step_uses hs).1]
        exact fun h => by cases h
      · exact hkeep a T hT hs
    | succ u hu ih => exact hkeep a u (by omega) ih
  choose T hT hnot using hstop
  obtain ⟨u, hu, a, ha⟩ := uses_again hne hfirst hsecond (hfair c) (Finset.univ.sup T)
  exact hnot a u ((Finset.le_sup (Finset.mem_univ a)).trans hu) ha

end LinuxProgram.Machine.Trylock
