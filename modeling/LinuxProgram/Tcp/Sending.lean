/-
What `writen` reports. It returns the count of its last `send`, which is the whole count only when one call
takes all the bytes, and `sendMessage` passes such a count on where it should return 0.
-/
import LinuxProgram.Tcp.Framing

namespace LinuxProgram.Tcp

open LinuxProgram.Data LinuxProgram.Io

/-! ## What is reported -/

/-- `writen` returns -1 for an error and otherwise the count, with all bytes accepted. -/
def Reports (nwritten : Int) (s : Sender) (buf : List UInt8) (count : Nat) : Prop :=
  ∃ ret s', writen nwritten s buf count = some (ret, s') ∧ (ret = -1 ↔ FailsBefore s.events count) ∧
    (¬ FailsBefore s.events count → ret = count ∧ s'.sent = s.sent ++ buf.take count)

theorem writen_cases (nwritten : Int) (s : Sender) {buf : List UInt8} {count : Nat} (hle : count ≤ buf.length)
    (hcount : count < 2 ^ 31) : (FailsBefore s.events count ∧ ∃ s', writen nwritten s buf count = some (-1, s')) ∨
    ¬ FailsBefore s.events count ∧ ∃ ret es, writen nwritten s buf count = some (ret, ⟨s.sent ++ buf.take count, es⟩) ∧
      LastCount s.events count nwritten ret := by
  have hsize : ((count : Int) % 2 ^ 64).toNat = count := by omega
  rw [writen, hsize]
  refine (writenLoop_cases _ s buf count nwritten hle (Nat.lt_succ_self _)).imp_right ?_
  rintro ⟨hok, ret, es, -, hloop, hlast⟩
  exact ⟨hok, ret, es, hloop, hlast⟩

theorem reports_iff (nwritten : Int) (s : Sender) {buf : List UInt8} {count : Nat} (hle : count ≤ buf.length)
    (hcount : count < 2 ^ 31) : Reports nwritten s buf count ↔
      FailsBefore s.events count ∨ if count = 0 then nwritten = 0 else AtOnce s.events count := by
  unfold Reports
  rcases writen_cases nwritten s hle hcount with ⟨hfail, s', hret⟩ | ⟨hok, ret, es, hret, hlast⟩
  · refine iff_of_true ⟨-1, s', hret, ?_, fun h => absurd hfail h⟩ (.inl hfail)
    exact iff_of_true rfl hfail
  · rw [or_iff_right hok, ← hlast.eq_iff]
    constructor
    · rintro ⟨ret', s', hret', -, hall⟩
      obtain ⟨hcnt, -⟩ := hall hok
      cases hret.symm.trans hret'
      exact hcnt
    · intro hcnt
      exact ⟨ret, _, hret, iff_of_false (by omega) hok, fun _ => ⟨hcnt, rfl⟩⟩

variable {malloc : Nat → Bool}

/-- What `sendMessage` returns when the frame was transmitted. -/
theorem sendMessage_zero_iff (nwritten : Int) {w : Wait} {msg : List UInt8} {s : Sender} (hm : malloc 4 = true)
    (hw : (writeTimeout w).1 = 0) (hlen : msg.length + 4 < 2 ^ 31) (hok : ¬ FailsBefore s.events (msg.length + 4)) :
    ∃ ret s', sendMessage malloc nwritten w msg s = some (ret, s') ∧ s'.sent = s.sent ++ frame (msg.length + 4) msg ∧
      (ret = 0 ↔ AtOnce s.events (msg.length + 4)) := by
  have hwrap : wrap32 (msg.length + 4) = msg.length + 4 := wrap32_eq (by omega) (by omega)
  have hcast : ((msg.length + 4 : Nat) : Int) = msg.length + 4 := by omega
  rcases @writen_cases nwritten s (frame (msg.length + 4) msg) (msg.length + 4) (by rw [frame_length]) hlen with
    ⟨hfail, -⟩ | ⟨-, ret, es, hret, hlast⟩
  · exact absurd hfail hok
  · rw [List.take_of_length_le (by rw [frame_length])] at hret
    unfold LastCount at hlast
    rw [if_neg (by omega)] at hlast
    obtain ⟨hpos, hle, hiff⟩ := hlast
    rw [hcast] at hret
    refine ⟨if ret < msg.length + 4 then ret else 0, ⟨s.sent ++ frame (msg.length + 4) msg, es⟩, ?_, rfl, ?_⟩
    · simp only [sendMessage, hw, if_true, hwrap, hm, hret, Option.map_some]
    · rw [← hiff]
      split <;> omega

/-- `writen` reports what it did exactly when it fails or one call takes all the bytes, and only then `sendMessage`
returns 0 for a frame that was transmitted. -/
theorem writen_exact (nwritten : Int) (s : Sender) :
    (∀ (buf : List UInt8) (count : Nat), count ≤ buf.length → count < 2 ^ 31 →
      (Reports nwritten s buf count ↔
        FailsBefore s.events count ∨ if count = 0 then nwritten = 0 else AtOnce s.events count)) ∧
    ∀ (malloc : Nat → Bool) (w : Wait) (msg : List UInt8), malloc 4 = true → (writeTimeout w).1 = 0 →
      msg.length + 4 < 2 ^ 31 → ¬ FailsBefore s.events (msg.length + 4) →
      ∃ ret s', sendMessage malloc nwritten w msg s = some (ret, s') ∧ s'.sent = s.sent ++ frame (msg.length + 4) msg ∧
        (ret = 0 ↔ AtOnce s.events (msg.length + 4)) :=
  ⟨fun _ _ hle hcount => reports_iff nwritten s hle hcount,
    fun _ _ _ hm hw hlen hok => sendMessage_zero_iff nwritten hm hw hlen hok⟩

/-- Six bytes that are taken four and two at a time, behind an interruption. -/
def inTwo : Sender := ⟨[], [.eintr, .accept 4]⟩

theorem writen_exact_inTwo : (Reports 0 inTwo [1, 2, 3, 4, 5, 6] 6 ↔
      FailsBefore inTwo.events 6 ∨ if 6 = 0 then (0 : Int) = 0 else AtOnce inTwo.events 6) ∧
    ∃ ret s', sendMessage (fun _ => true) 0 hi.sendWait hi.message inTwo = some (ret, s') ∧
      s'.sent = inTwo.sent ++ frame (hi.message.length + 4) hi.message ∧
      (ret = 0 ↔ AtOnce inTwo.events (hi.message.length + 4)) :=
  ⟨(writen_exact 0 inTwo).1 [1, 2, 3, 4, 5, 6] 6 (by decide) (by decide),
    (writen_exact 0 inTwo).2 (fun _ => true) hi.sendWait hi.message rfl hi.can_send hi.fits id⟩

/-- The count of the second call is returned. -/
theorem last_count_returned : (¬ ∀ (nwritten : Int) (s : Sender) (buf : List UInt8) (count : Nat), count ≤ buf.length →
      count < 2 ^ 31 → Reports nwritten s buf count) ∧
    sendMessage (fun _ => true) 0 hi.sendWait hi.message inTwo = some (2, ⟨frame 6 hi.message, []⟩) := by
  constructor
  · intro h
    obtain ⟨ret, s', hret, -, hall⟩ := h 0 inTwo [1, 2, 3, 4, 5, 6] 6 (by decide) (by decide)
    have htwo : writen 0 inTwo [1, 2, 3, 4, 5, 6] (6 : Nat) = some (2, ⟨[1, 2, 3, 4, 5, 6], []⟩) := by decide +kernel
    rw [htwo] at hret
    cases hret
    cases (hall id).1
  · decide +kernel

end LinuxProgram.Tcp
