/-
Singly linked lists in a heap. A heap gives for each allocated cell its `next` field; a chain is the
list of cells from a pointer on, up to a null pointer. Two chains of one heap with the same cells
start at the same cell, so a write to the head of a list pushes or pops one cell exactly if the list
still starts where the writer has read it.
-/
import Mathlib.Logic.Function.Basic
import Mathlib.Tactic

namespace LinuxProgram.Data

variable {α : Type}

/-- The cells from a pointer on. -/
inductive Chain (heap : α → Option (Option α)) : Option α → List α → Prop where
  | nil : Chain heap none []
  | cons {a : α} {next : Option α} {l : List α} (h : heap a = some next) (hl : Chain heap next l) :
    Chain heap (some a) (a :: l)

namespace Chain

variable {heap : α → Option (Option α)} {p q : Option α} {l m : List α} {a : α}

theorem unique (h : Chain heap p l) (h' : Chain heap p m) : l = m := by
  induction h generalizing m with
  | nil =>
    cases h'
    rfl
  | cons ha _ ih =>
    cases h' with
    | cons ha' hm =>
      obtain rfl := Option.some.inj (ha.symm.trans ha')
      rw [ih hm]

theorem congr {heap' : α → Option (Option α)} (h : Chain heap p l) (hsame : ∀ a ∈ l, heap' a = heap a) :
    Chain heap' p l := by
  induction h with
  | nil => exact .nil
  | cons ha _ ih =>
    refine .cons ((hsame _ List.mem_cons_self).trans ha) (ih fun b hb => ?_)
    exact hsame b (List.mem_cons_of_mem _ hb)

/-- A write to another cell. -/
theorem update [DecidableEq α] (h : Chain heap p l) (ha : a ∉ l) (v : Option (Option α)) :
    Chain (Function.update heap a v) p l := by
  refine h.congr fun b hb => Function.update_of_ne ?_ _ _
  rintro rfl
  exact ha hb

/-- From a cell of the chain on it is the rest of the chain. -/
theorem drop (h : Chain heap p l) (ha : a ∈ l) : ∃ l₁ l₂, l = l₁ ++ a :: l₂ ∧ Chain heap (some a) (a :: l₂) := by
  induction h with
  | nil => cases ha
  | @cons b next l hb hl ih =>
    by_cases hab : a = b
    · subst hab
      exact ⟨[], l, rfl, .cons hb hl⟩
    · obtain ⟨l₁, l₂, rfl, hdrop⟩ := ih ((List.mem_cons.1 ha).resolve_left hab)
      exact ⟨b :: l₁, l₂, rfl, hdrop⟩

/-- A cell that is not allocated is in no chain. -/
theorem notMem_of_free (h : Chain heap p l) (ha : heap a = none) : a ∉ l := by
  intro hmem
  obtain ⟨l₁, l₂, -, hdrop⟩ := h.drop hmem
  cases hdrop with
  | cons hb _ =>
    rw [ha] at hb
    cases hb

theorem head_eq (h : Chain heap p l) : p = l.head? := by
  cases h <;> rfl

/-- A chain that meets another is no longer than it, and as long only if it starts where the other
does. -/
theorem length_le (h : Chain heap (some a) l) (h' : Chain heap q m) (ha : a ∈ m) : l.length ≤ m.length := by
  obtain ⟨m₁, m₂, rfl, hdrop⟩ := h'.drop ha
  rw [h.unique hdrop, List.length_append]
  exact Nat.le_add_left ..

theorem eq_of_perm (h : Chain heap p l) (h' : Chain heap q m) (hperm : l.Perm m) : p = q := by
  cases h with
  | nil =>
    rw [List.nil_perm.1 hperm] at h'
    cases h'
    rfl
  | @cons a next l ha hl =>
    obtain ⟨m₁, m₂, rfl, hdrop⟩ := h'.drop (hperm.subset List.mem_cons_self)
    have hlen := hperm.length_eq
    rw [(Chain.cons ha hl).unique hdrop, List.length_append] at hlen
    rw [h'.head_eq, List.length_eq_zero_iff.1 (show m₁.length = 0 by omega)]
    rfl

/-- A new head makes a list of one cell more exactly if its `next` field is the old head. -/
theorem push_iff (h : Chain heap p l) (a : α) :
    (∃ m, Chain heap (some a) m ∧ m.Perm (a :: l)) ↔ heap a = some p := by
  constructor
  · rintro ⟨m, hm, hperm⟩
    cases hm with
    | @cons _ next m ha hm => rw [ha, hm.eq_of_perm h ((List.perm_cons a).1 hperm)]
  · intro ha
    exact ⟨a :: l, .cons ha h, List.Perm.refl _⟩

/-- Without the cell `a` the rest is a list from `q` on exactly if `a` is the head and `q` its `next`
field. -/
theorem pop_iff (h : Chain heap p l) (a : α) (q : Option α) :
    (∃ m, Chain heap q m ∧ l.Perm (a :: m)) ↔ p = some a ∧ heap a = some q := by
  constructor
  · rintro ⟨m, hm, hperm⟩
    cases h with
    | nil => cases List.nil_perm.1 hperm
    | @cons b next l hb hl =>
      by_cases hab : b = a
      · subst hab
        refine ⟨rfl, ?_⟩
        rw [hb, hl.eq_of_perm hm ((List.perm_cons b).1 hperm)]
      · -- else the whole list would hang on a shorter one
        have hmem : b ∈ m := (List.mem_cons.1 (hperm.subset List.mem_cons_self)).resolve_left hab
        have hle := (Chain.cons hb hl).length_le hm hmem
        have hlen := hperm.length_eq
        rw [List.length_cons] at hle hlen
        rw [List.length_cons] at hlen
        omega
  · rintro ⟨rfl, ha⟩
    cases h with
    | cons hb hl =>
      obtain rfl := Option.some.inj (hb.symm.trans ha)
      exact ⟨_, hl, List.Perm.refl _⟩

end Chain

end LinuxProgram.Data
