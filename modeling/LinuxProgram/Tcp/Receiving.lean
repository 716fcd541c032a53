/-
The body that `recvMessage` returns. All of it is read, and then the block is turned into a string, which ends
at the first NUL.
-/
import LinuxProgram.Tcp.Framing

namespace LinuxProgram.Tcp

open LinuxProgram.Data LinuxProgram.Io

/-- A header with the length of a body. -/
theorem ntohl_length {body : List UInt8} (hlen : body.length < 2 ^ 31) : ntohl (htonl body.length) = body.length :=
  ntohl_htonl (by omega) (by omega)

/-- The body of a frame goes up to its first NUL, and the stream goes on behind all of it. -/
theorem recvMessage_body {malloc : Nat → Bool} {w : Wait} (body rest : List UInt8) (closed : Bool)
    {events : List RecvEvent} (hw : (readTimeout w).1 = 0) (hlen : body.length < 2 ^ 31 - 1)
    (hm : malloc (body.length + 1) = true)
    (hes : .error ∉ events) : ∃ es, recvMessage malloc w ⟨htonl body.length ++ (body ++ rest), closed, events⟩ =
      some (.string (cstr body), ⟨rest, closed, es⟩) := by
  obtain ⟨es, hes', hrecv⟩ := recvMessage_header malloc (body ++ rest) closed hw (htonl_length body.length) hes
  have hsize : (wrap32 ((body.length : Int) + 1) % 2 ^ 64).toNat = body.length + 1 := by
    rw [wrap32_eq (by omega) (by omega)]
    omega
  obtain ⟨es', -, hread⟩ := readn_full (r := ⟨body ++ rest, closed, es⟩) (n := body.length) hes'
    (by rw [List.length_append]; omega)
  refine ⟨es', ?_⟩
  rw [hrecv, ntohl_length (by omega), hsize, if_pos hm, hread, List.take_left, List.drop_left,
    Option.map_some, recvBody, if_neg (by omega), if_neg (Int.lt_irrefl _)]

/-- The string that is returned is the body exactly when the body has no NUL. -/
theorem body_exact {malloc : Nat → Bool} {w : Wait} (body rest : List UInt8) (closed : Bool) {events : List RecvEvent}
    (hw : (readTimeout w).1 = 0) (hlen : body.length < 2 ^ 31 - 1) (hm : malloc (body.length + 1) = true)
    (hes : .error ∉ events) :
    (∃ r', recvMessage malloc w ⟨htonl body.length ++ (body ++ rest), closed, events⟩ = some (.string body, r') ∧
      r'.data = rest) ↔ 0 ∉ body := by
  obtain ⟨es, hrecv⟩ := recvMessage_body body rest closed hw hlen hm hes
  rw [← cstr_eq_self_iff]
  constructor
  · rintro ⟨r', h, -⟩
    have heq := Option.some.inj (hrecv.symm.trans h)
    exact Message.string.inj (Prod.mk.inj heq).1
  · intro h
    rw [h] at hrecv
    exact ⟨_, hrecv, rfl⟩

theorem body_exact_threeBytes : (∃ r', recvMessage (fun _ => true) hi.recvWait
      ⟨htonl (3 : Nat) ++ ([97, 98, 99] ++ [0, 0]), false, [.chunk 4, .eintr, .chunk 0]⟩ =
        some (.string [97, 98, 99], r') ∧
      r'.data = [0, 0]) ↔ 0 ∉ [(97 : UInt8), 98, 99] :=
  body_exact [97, 98, 99] [0, 0] false hi.can_recv (by decide) rfl (by decide)

/-- Of three bytes the one before the NUL is returned. -/
theorem body_cut :
    ¬ ∀ (malloc : Nat → Bool) (w : Wait) (body rest : List UInt8) (closed : Bool) (events : List RecvEvent),
    (readTimeout w).1 = 0 → body.length < 2 ^ 31 - 1 → malloc (body.length + 1) = true → .error ∉ events →
    ∃ r', recvMessage malloc w ⟨htonl body.length ++ (body ++ rest), closed, events⟩ = some (.string body, r') ∧
      r'.data = rest := by
  intro h
  obtain ⟨r', hr, -⟩ := h (fun _ => true) hi.recvWait [97, 0, 98] [] true [] hi.can_recv (by decide) rfl (by decide)
  have hcut : recvMessage (fun _ => true) hi.recvWait ⟨htonl (3 : Nat) ++ ([97, 0, 98] ++ []), true, []⟩ =
      some (.string [97], ⟨[], true, []⟩) := by decide +kernel
  cases hcut.symm.trans hr

end LinuxProgram.Tcp
