/-
Address books that have been read. Whatever bytes they were read from, they can be written, their strings are
verified, and a copy of them is the same book; so written back they are read as the same book again, with the
fields that this version of the messages does not know.
-/
import LinuxProgram.Protobuf.AddressBook
import Mathlib.Tactic

namespace LinuxProgram.Protobuf

open LinuxProgram.Data LinuxProgram.Machine

variable {rt : Runtime}

/-! ## Defaults -/

/-- A field that is written only when it is not empty. -/
theorem keep_nonempty (b : Bytes) : (if 0 < b.length then b else []) = b := by
  split
  · rfl
  · rename_i hlen
    exact (List.length_eq_zero_iff.1 (by omega)).symm

/-- A field that is written only when it is not zero. -/
theorem keep_nonzero (v : Int32) : (if v ≠ 0 then v else 0) = v := by
  split
  · rfl
  · rename_i h0
    exact (not_not.1 h0).symm

theorem mem_concat {α : Type} {p : α → Prop} {l : List α} {a : α} (hl : ∀ x ∈ l, p x) (ha : p a) :
    ∀ x ∈ l ++ [a], p x := by
  intro x hx
  rcases List.mem_append.1 hx with hx | hx
  · exact hl x hx
  · rw [List.mem_singleton.1 hx]
    exact ha

/-! ## Telephone numbers -/

namespace PhoneNumber

theorem copy_iff (m : PhoneNumber rt.Unknown) : mergeFrom new m = m ↔ m.cachedSize = 0 := by
  obtain ⟨number, type, us, size⟩ := m
  simp only [mergeFrom, new, keep_nonempty, keep_nonzero, List.nil_append, PhoneNumber.mk.injEq, true_and]
  exact eq_comm

theorem settles (h : rt.Lawful) : (ops rt).Settles (WellFormed rt) (Valid rt) where
  new := by
    refine ⟨?_, ?_, (copy_iff new).2 rfl⟩
    · exact fun u hu => absurd hu List.not_mem_nil
    · exact fun hpos => absurd hpos (Nat.lt_irrefl 0)
  read a s m t ha hread := by
    refine read_invariant h (onward h) (I := (ops rt).Settled (WellFormed rt) (Valid rt)) ?_ ?_ ha hread
    · rintro f hf m s m' s' ⟨hwf, hvalid, hcopy⟩ hfield
      have hsize := (copy_iff m).1 hcopy
      simp only [fields, List.mem_cons, List.not_mem_nil, or_false] at hf
      rcases hf with rfl | rfl
      · obtain ⟨v, hv, rfl⟩ := Field.string_read hfield
        exact ⟨hwf, fun _ => hv, (copy_iff _).2 hsize⟩
      · obtain ⟨v, rfl⟩ := Field.scalar_read hfield
        exact ⟨hwf, hvalid, (copy_iff _).2 hsize⟩
    · rintro m u ⟨hwf, hvalid, hcopy⟩ hu
      exact ⟨mem_concat hwf hu, hvalid, (copy_iff _).2 ((copy_iff m).1 hcopy)⟩

end PhoneNumber

/-! ## Persons -/

namespace Person

theorem copy_iff (m : Person rt.Unknown rt.Timestamp) :
    mergeFrom rt new m = m ↔ m.cachedSize = 0 ∧ (∀ p ∈ m.phones, PhoneNumber.new.mergeFrom p = p) ∧
      ∀ t ∈ m.lastUpdated, rt.timestamp.mergeFrom rt.timestamp.new t = t := by
  obtain ⟨name, id, email, phones, lastUpdated, us, size⟩ := m
  have hphones : phones.map PhoneNumber.new.mergeFrom = phones ↔ ∀ p ∈ phones, PhoneNumber.new.mergeFrom p = p := by
    rw [← List.map_inj_left, List.map_id']
  have htime : (lastUpdated.elim none fun t => some (rt.timestamp.mergeFrom rt.timestamp.new t)) = lastUpdated ↔
      ∀ t ∈ lastUpdated, rt.timestamp.mergeFrom rt.timestamp.new t = t := by
    cases lastUpdated <;> simp
  simp only [mergeFrom, new, keep_nonempty, keep_nonzero, List.nil_append, Option.getD_none, Person.mk.injEq, true_and,
    hphones, htime]
  constructor
  · rintro ⟨hp, ht, hs⟩
    exact ⟨hs.symm, hp, ht⟩
  · rintro ⟨hs, hp, ht⟩
    exact ⟨hp, ht, hs.symm⟩

theorem settles (h : rt.Lawful) : (ops rt).Settles (WellFormed rt) (Valid rt) where
  new := by
    refine ⟨⟨?_, ?_, ?_⟩, ⟨?_, ?_, ?_⟩, (copy_iff new).2 ⟨rfl, ?_, ?_⟩⟩
    · exact fun u hu => absurd hu List.not_mem_nil
    · exact fun p hp => absurd hp List.not_mem_nil
    · exact fun t ht => absurd ht (Option.not_mem_none t)
    · exact fun hpos => absurd hpos (Nat.lt_irrefl 0)
    · exact fun hpos => absurd hpos (Nat.lt_irrefl 0)
    · exact fun p hp => absurd hp List.not_mem_nil
    · exact fun p hp => absurd hp List.not_mem_nil
    · exact fun t ht => absurd ht (Option.not_mem_none t)
  read a s m t ha hread := by
    refine read_invariant h (onward h) (I := (ops rt).Settled (WellFormed rt) (Valid rt)) ?_ ?_ ha hread
    · rintro f hf m s m' s' ⟨hwf, ⟨hname, hemail, hphones⟩, hcopy⟩ hfield
      obtain ⟨hsize, hcopies, htime⟩ := (copy_iff m).1 hcopy
      simp only [fields, List.mem_cons, List.not_mem_nil, or_false] at hf
      rcases hf with rfl | rfl | rfl | rfl | rfl
      · obtain ⟨v, hv, rfl⟩ := Field.string_read hfield
        exact ⟨⟨hwf.unknown, hwf.phones, hwf.lastUpdated⟩, ⟨fun _ => hv, hemail, hphones⟩,
          (copy_iff _).2 ⟨hsize, hcopies, htime⟩⟩
      · obtain ⟨v, rfl⟩ := Field.scalar_read hfield
        exact ⟨⟨hwf.unknown, hwf.phones, hwf.lastUpdated⟩, ⟨hname, hemail, hphones⟩,
          (copy_iff _).2 ⟨hsize, hcopies, htime⟩⟩
      · obtain ⟨v, hv, rfl⟩ := Field.string_read hfield
        exact ⟨⟨hwf.unknown, hwf.phones, hwf.lastUpdated⟩, ⟨hname, fun _ => hv, hphones⟩,
          (copy_iff _).2 ⟨hsize, hcopies, htime⟩⟩
      · obtain ⟨w, p, hp, rfl⟩ := Field.message_read h hfield
        obtain ⟨hpwf, hpvalid, hpcopy⟩ := (PhoneNumber.settles h).read _ _ _ _ (PhoneNumber.settles h).new hp
        exact ⟨⟨hwf.unknown, mem_concat hwf.phones hpwf, hwf.lastUpdated⟩, ⟨hname, hemail, mem_concat hphones hpvalid⟩,
          (copy_iff _).2 ⟨hsize, mem_concat hcopies hpcopy, htime⟩⟩
      · obtain ⟨w, t, ht, rfl⟩ := Field.message_read h hfield
        have hold : rt.timestamp.Settled rt.TimestampOk (fun _ => True) (m.lastUpdated.getD rt.timestamp.new) := by
          cases hm : m.lastUpdated with
          | none => exact h.timestamp_settles.new
          | some t => exact ⟨hwf.lastUpdated t hm, trivial, htime t hm⟩
        obtain ⟨htwf, -, htcopy⟩ := h.timestamp_settles.read _ _ _ _ hold ht
        refine ⟨⟨hwf.unknown, hwf.phones, ?_⟩, ⟨hname, hemail, hphones⟩, (copy_iff _).2 ⟨hsize, hcopies, ?_⟩⟩
        · rintro u hu
          cases hu
          exact htwf
        · rintro u hu
          cases hu
          exact htcopy
    · rintro m u ⟨hwf, hvalid, hcopy⟩ hu
      exact ⟨⟨mem_concat hwf.unknown hu, hwf.phones, hwf.lastUpdated⟩, hvalid, (copy_iff _).2 ((copy_iff m).1 hcopy)⟩

end Person

/-! ## Address books -/

namespace AddressBook

theorem copy_iff (m : AddressBook rt.Unknown rt.Timestamp) :
    mergeFrom rt new m = m ↔ m.cachedSize = 0 ∧ ∀ p ∈ m.people, Person.mergeFrom rt Person.new p = p := by
  obtain ⟨people, us, size⟩ := m
  have hpeople : people.map (Person.mergeFrom rt Person.new) = people ↔
      ∀ p ∈ people, Person.mergeFrom rt Person.new p = p := by
    rw [← List.map_inj_left, List.map_id']
  simp only [mergeFrom, new, List.nil_append, AddressBook.mk.injEq, hpeople, true_and]
  constructor
  · rintro ⟨hp, hs⟩
    exact ⟨hs.symm, hp⟩
  · rintro ⟨hs, hp⟩
    exact ⟨hp, hs.symm⟩

theorem settles (h : rt.Lawful) : (ops rt).Settles (WellFormed rt) (Valid rt) where
  new := by
    refine ⟨⟨?_, ?_⟩, ?_, (copy_iff new).2 ⟨rfl, ?_⟩⟩
    · exact fun u hu => absurd hu List.not_mem_nil
    · exact fun p hp => absurd hp List.not_mem_nil
    · exact fun p hp => absurd hp List.not_mem_nil
    · exact fun p hp => absurd hp List.not_mem_nil
  read a s m t ha hread := by
    refine read_invariant h (onward h) (I := (ops rt).Settled (WellFormed rt) (Valid rt)) ?_ ?_ ha hread
    · rintro f hf m s m' s' ⟨hwf, hvalid, hcopy⟩ hfield
      obtain ⟨hsize, hcopies⟩ := (copy_iff m).1 hcopy
      simp only [fields, List.mem_cons, List.not_mem_nil, or_false] at hf
      subst hf
      obtain ⟨w, p, hp, rfl⟩ := Field.message_read h hfield
      obtain ⟨hpwf, hpvalid, hpcopy⟩ := (Person.settles h).read _ _ _ _ (Person.settles h).new hp
      exact ⟨⟨hwf.unknown, mem_concat hwf.people hpwf⟩, mem_concat hvalid hpvalid,
        (copy_iff _).2 ⟨hsize, mem_concat hcopies hpcopy⟩⟩
    · rintro m u ⟨hwf, hvalid, hcopy⟩ hu
      exact ⟨⟨mem_concat hwf.unknown hu, hwf.people⟩, hvalid, (copy_iff _).2 ((copy_iff m).1 hcopy)⟩

/-- Whatever bytes a book was read from, it is read as the same book from the bytes that are written for it. -/
theorem reread_book (h : rt.Lawful) {bytes rest : Bytes} {m : AddressBook rt.Unknown rt.Timestamp}
    (hread : mergePartialFromCodedStream rt new bytes = some (m, rest)) (hsize : (byteSizeLong rt m).1 < 2 ^ 31) :
    mergePartialFromCodedStream rt new ((ops rt).serializeToString m) = some (m, []) :=
  (lawful h).reread (settles h) hread hsize

/-- The fields come in another order than they are written in, the number twice, and a field that is not known. -/
def unordered : Bytes := [40, 7, 10, 9, 16, 1, 10, 1, 65, 16, 2, 42, 0]

def unorderedBook : AddressBook Wire.wire.Unknown Wire.wire.Timestamp :=
  ⟨[⟨[65], 2, [], [], some ⟨0, 0, [], 0⟩, [], 0⟩], [Wire.varintField], 0⟩

theorem reread_book_unordered :
    mergePartialFromCodedStream Wire.wire new ((ops Wire.wire).serializeToString unorderedBook) =
      some (unorderedBook, []) :=
  have hread : mergePartialFromCodedStream Wire.wire new unordered = some (unorderedBook, []) := rfl
  reread_book Wire.wire_lawful hread (by decide +kernel)

end AddressBook

end LinuxProgram.Protobuf
