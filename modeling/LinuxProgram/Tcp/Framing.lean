/-
The length in the header of a message. `sendMessage` writes the length of the whole frame, header
included, and `recvMessage` takes it for the length of the body, so it reads four bytes too many.
-/
import LinuxProgram.Tcp.Writen

namespace LinuxProgram.Tcp

open LinuxProgram.Data LinuxProgram.Io

variable {malloc : Nat → Bool} {nwritten : Int}

/-! ## One call -/

@[simp] theorem htonl_length (len : Int) : (htonl len).length = 4 := bigEndian_length _ _

@[simp] theorem frame_length (len : Int) (msg : List UInt8) : (frame len msg).length = msg.length + 4 := by
  rw [frame, List.length_append, htonl_length, Nat.add_comm]

/-- A header is read as the number it was written from. -/
theorem ntohl_htonl {len : Int} (h0 : 0 ≤ len) (h : len < 2 ^ 31) : ntohl (htonl len) = len := by
  have hmod : (len % 2 ^ 32).toNat % 256 ^ 4 = len.toNat := by omega
  rw [ntohl, htonl, ofBigEndian_bigEndian, hmod, Int.toNat_of_nonneg h0]
  exact wrap32_eq (by omega) h

/-- `writen` ends with the whole buffer accepted. -/
theorem writenLoop_sends (fuel : Nat) (s : Sender) (buf : List UInt8) (nwritten : Int) (hes : .error ∉ s.events)
    (hfuel : s.events.length + buf.length < fuel) :
    ∃ ret es, .error ∉ es ∧ writenLoop fuel s buf buf.length nwritten = some (ret, ⟨s.sent ++ buf, es⟩) := by
  rcases writenLoop_cases fuel s buf buf.length nwritten (le_refl _) hfuel with
    ⟨hfail, -⟩ | ⟨-, ret, es, hsuffix, hloop, -⟩
  · exact absurd hfail (not_failsBefore hes _)
  · rw [List.take_length] at hloop
    exact ⟨ret, es, fun h => hes (hsuffix.subset h), hloop⟩

theorem sendMessage_sends (nwritten : Int) {w : Wait} {msg : List UInt8} {s : Sender} (hm : malloc 4 = true)
    (hw : (writeTimeout w).1 = 0) (hlen : msg.length + 4 < 2 ^ 31) (hes : .error ∉ s.events) :
    ∃ ret es, .error ∉ es ∧
      sendMessage malloc nwritten w msg s = some (ret, ⟨s.sent ++ frame (msg.length + 4) msg, es⟩) := by
  have hwrap : wrap32 (msg.length + 4) = msg.length + 4 := wrap32_eq (by omega) (by omega)
  have hcount : (((msg.length : Int) + 4) % 2 ^ 64).toNat = (frame (msg.length + 4) msg).length := by
    rw [frame_length]; omega
  obtain ⟨ret, es, hes', h⟩ := writenLoop_sends (s.events.length + (frame (msg.length + 4) msg).length + 1) s
    (frame (msg.length + 4) msg) nwritten hes (by omega)
  refine ⟨if ret < msg.length + 4 then ret else 0, es, hes', ?_⟩
  simp only [sendMessage, hw, if_true, hwrap, hm, writen, hcount, h, Option.map_some]

/-- `readn` of `n` bytes that are on the stream. -/
theorem readn_full {r : Receiver} {n : Nat} (hes : .error ∉ r.events) (hn : n ≤ r.data.length) :
    ∃ es, .error ∉ es ∧ readn r n = some ((n : Int), r.data.take n, ⟨r.data.drop n, r.closed, es⟩) := by
  obtain ⟨es, hes', h⟩ := r.recvn_reads n hes
  refine ⟨es, hes', ?_⟩
  rw [readn, Int.toNat_natCast, h, if_pos hn]
  rfl

/-- `readn` of more bytes than there are: what the peer has closed behind is returned, and before
that the call does not return. -/
theorem readn_short {r : Receiver} {n : Nat} (hes : .error ∉ r.events) (hn : r.data.length < n) :
    ∃ es, .error ∉ es ∧ readn r n =
      if r.closed then some ((r.data.length : Int), r.data, ⟨[], r.closed, es⟩) else none := by
  obtain ⟨es, hes', h⟩ := r.recvn_reads n hes
  refine ⟨es, hes', ?_⟩
  rw [readn, Int.toNat_natCast, h, if_neg (by omega)]
  split <;> rfl

/-! ## A frame and what `recvMessage` makes of it -/

/-- The body that `recvMessage` reads behind a header. -/
theorem recvMessage_header (malloc : Nat → Bool) {w : Wait} {header : List UInt8} (rest : List UInt8) (closed : Bool)
    {events : List RecvEvent} (hw : (readTimeout w).1 = 0) (hlen : header.length = 4) (hes : .error ∉ events) :
    ∃ es, .error ∉ es ∧ recvMessage malloc w ⟨header ++ rest, closed, events⟩ =
      if malloc (wrap32 (ntohl header + 1) % 2 ^ 64).toNat then
        (readn ⟨rest, closed, es⟩ (ntohl header)).map (recvBody (ntohl header))
      else some (.null, ⟨rest, closed, es⟩) := by
  obtain ⟨es, hes', h⟩ := readn_full (r := ⟨header ++ rest, closed, events⟩) (n := 4) hes
    (by rw [List.length_append, hlen]; omega)
  refine ⟨es, hes', ?_⟩
  have h4 : readn ⟨header ++ rest, closed, events⟩ 4 = some (4, header, ⟨rest, closed, es⟩) := by
    rw [List.take_left' hlen, List.drop_left' hlen] at h
    exact h
  simp [recvMessage, hw, h4]

/-- The same for the header of a frame. -/
theorem recvMessage_frame (malloc : Nat → Bool) {w : Wait} (msg rest : List UInt8) (closed : Bool)
    {events : List RecvEvent} (hw : (readTimeout w).1 = 0) (hlen : msg.length + 4 < 2 ^ 31) (hes : .error ∉ events) :
    ∃ es, .error ∉ es ∧ recvMessage malloc w ⟨frame (msg.length + 4) msg ++ rest, closed, events⟩ =
      if malloc (wrap32 (msg.length + 4 + 1) % 2 ^ 64).toNat then
        (readn ⟨msg ++ rest, closed, es⟩ (msg.length + 4 : Nat)).map (recvBody (msg.length + 4))
      else some (.null, ⟨msg ++ rest, closed, es⟩) := by
  have hn : ntohl (htonl (msg.length + 4)) = msg.length + 4 := ntohl_htonl (by omega) (by omega)
  have h := recvMessage_header malloc (msg ++ rest) closed hw (htonl_length (msg.length + 4)) hes
  rw [hn] at h
  rw [frame, List.append_assoc]
  exact h

/-- A string that comes out of a frame: with enough behind the frame it is followed by four bytes of
what comes next, up to the first NUL, and otherwise it is empty and everything has been read. -/
theorem recvMessage_overreads {w : Wait} {msg rest m : List UInt8} {closed : Bool} {events : List RecvEvent}
    {r' : Receiver} (hw : (readTimeout w).1 = 0) (hlen : msg.length + 4 < 2 ^ 31) (hes : .error ∉ events)
    (h : recvMessage malloc w ⟨frame (msg.length + 4) msg ++ rest, closed, events⟩ = some (.string m, r')) :
    4 ≤ rest.length ∧ m = cstr (msg ++ rest.take 4) ∧ r'.data = rest.drop 4 ∨
      rest.length < 4 ∧ m = [] ∧ r'.data = [] := by
  obtain ⟨es, hes', hr⟩ := recvMessage_frame malloc msg rest closed hw hlen hes
  rw [hr] at h
  split at h
  · by_cases hrest : 4 ≤ rest.length
    · obtain ⟨es', -, hfull⟩ :=
        readn_full (r := ⟨msg ++ rest, closed, es⟩) (n := msg.length + 4) hes' (by simpa using hrest)
      rw [hfull, Option.map_some, recvBody, if_neg (by omega), if_neg (by omega), List.take_length_add_append,
        List.drop_length_add_append] at h
      cases h
      exact Or.inl ⟨hrest, rfl, rfl⟩
    · obtain ⟨es', -, hshort⟩ := readn_short (r := ⟨msg ++ rest, closed, es⟩) (n := msg.length + 4) hes'
        (by rw [List.length_append]; omega)
      rw [hshort] at h
      cases closed with
      | false => cases h
      | true =>
        rw [if_pos rfl, Option.map_some, recvBody, if_neg (by omega), if_pos (by rw [List.length_append]; omega)] at h
        cases h
        exact Or.inr ⟨by omega, rfl, rfl⟩
  · cases h

/-! ## Sequences of messages -/

/-- A `sendMessage` and the `recvMessage` that answers it. Neither wait runs out. -/
structure Exchange where
  message : List UInt8
  sendWait : Wait
  recvWait : Wait
  nul_free : 0 ∉ message
  fits : message.length + 4 < 2 ^ 31
  can_send : (writeTimeout sendWait).1 = 0
  can_recv : (readTimeout recvWait).1 = 0

/-- Successive `sendMessage` calls: the bytes that each puts on the stream. -/
def sendAll (malloc : Nat → Bool) (nwritten : Int) : List Exchange → Sender → Option (List (List UInt8) × Sender)
  | [], s => some ([], s)
  | x :: xs, s =>
    (sendMessage malloc nwritten x.sendWait x.message s).bind fun (_, s') =>
      (sendAll malloc nwritten xs s').map fun (fs, s'') => (s'.sent.drop s.sent.length :: fs, s'')

/-- Successive `recvMessage` calls: each returns its message, consumes as many body bytes as the
header says, and stops where the next message starts. -/
def Receives (malloc : Nat → Bool) : List Exchange → List (List UInt8) → Receiver → Prop
  | [], _, _ => True
  | _ :: _, [], _ => False
  | x :: xs, f :: fs, r => ∃ r', recvMessage malloc x.recvWait r = some (.string x.message, r') ∧
      (r.data.length : Int) = 4 + ntohl (f.take 4) + r'.data.length ∧ r'.data = fs.flatten ∧ Receives malloc xs fs r'

/-- The messages come out of the stream as they were put in. -/
def RoundTrip (malloc : Nat → Bool) (nwritten : Int) (xs : List Exchange) (sends : List SendEvent)
    (recvs : List RecvEvent) (closed : Bool) : Prop :=
  ∃ fs s, sendAll malloc nwritten xs ⟨[], sends⟩ = some (fs, s) ∧ Receives malloc xs fs ⟨s.sent, closed, recvs⟩

theorem sendAll_frames (nwritten : Int) (hm : malloc 4 = true) (xs : List Exchange) (s : Sender)
    (hes : .error ∉ s.events) : ∃ es, sendAll malloc nwritten xs s =
      some (xs.map fun x => frame (x.message.length + 4) x.message,
        ⟨s.sent ++ (xs.map fun x => frame (x.message.length + 4) x.message).flatten, es⟩) := by
  induction xs generalizing s with
  | nil => exact ⟨s.events, by simp [sendAll]⟩
  | cons x xs ih =>
    obtain ⟨ret, es, hes', h⟩ := sendMessage_sends nwritten hm x.can_send x.fits hes
    obtain ⟨es', h'⟩ := ih ⟨s.sent ++ frame (x.message.length + 4) x.message, es⟩ hes'
    exact ⟨es', by simp [sendAll, h, h']⟩

/-- The header counts itself, so the first message already takes the receiver out of step: the
messages round-trip only when there are none. -/
theorem roundTrip_exact (hm : malloc 4 = true) (xs : List Exchange) {sends : List SendEvent} {recvs : List RecvEvent}
    (hs : .error ∉ sends) (hr : .error ∉ recvs) (closed : Bool) :
    RoundTrip malloc nwritten xs sends recvs closed ↔ xs = [] := by
  obtain ⟨es, hsend⟩ := sendAll_frames nwritten hm xs ⟨[], sends⟩ hs
  constructor
  · rintro ⟨fs, s, hs', hrecv⟩
    obtain ⟨rfl, rfl⟩ : _ = fs ∧ _ = s := by simpa [hsend] using hs'
    cases xs with
    | nil => rfl
    | cons x xs =>
      obtain ⟨r', hmsg, hbody, hnext, -⟩ := hrecv
      have hhead : ntohl ((frame (x.message.length + 4) x.message).take 4) = x.message.length + 4 := by
        have := x.fits
        rw [frame, List.take_left' (htonl_length _)]
        exact ntohl_htonl (by omega) (by omega)
      simp only [List.map_cons, List.flatten_cons] at hmsg hbody
      simp only [List.length_append, frame_length, hhead] at hbody
      rcases recvMessage_overreads x.can_recv x.fits hr hmsg with ⟨hlen, -, hdata⟩ | ⟨hlen, -, hdata⟩
      · rw [hnext] at hdata
        have := congrArg List.length hdata
        rw [List.length_drop] at this
        omega
      · rw [hdata, List.length_nil] at hbody
        omega
  · rintro rfl
    exact ⟨[], _, hsend, trivial⟩

def hi : Exchange where
  message := [104, 105]
  sendWait := ⟨10000, 1, 0⟩
  recvWait := ⟨10000, 1, 0⟩
  nul_free := by decide
  fits := by decide
  can_send := by decide
  can_recv := by decide

def yo : Exchange := { hi with message := [121, 111], nul_free := by decide, fits := by decide }

theorem roundTrip_exact_hi :
    RoundTrip (fun _ => true) 0 [hi] [.accept 3, .eintr] [.chunk 1, .eintr, .chunk 0] true ↔ [hi] = [] :=
  roundTrip_exact rfl [hi] (by decide) (by decide) true

/-- Two messages: the first call takes the header of the second message along, and the second call
finds the two bytes behind it too short for a header. -/
theorem second_message_lost :
    (∃ r, recvMessage (fun _ => true) yo.recvWait r = some (.string [], ⟨[], true, []⟩) ∧
      recvMessage (fun _ => true) hi.recvWait ⟨frame 6 hi.message ++ frame 6 yo.message, true, []⟩ =
        some (.string hi.message, r)) ∧
      ¬ RoundTrip (fun _ => true) 0 [hi, yo] [] [] true := by
  have hsend : sendAll (fun _ => true) 0 [hi, yo] ⟨[], []⟩ =
      some ([frame 6 hi.message, frame 6 yo.message], ⟨frame 6 hi.message ++ frame 6 yo.message, []⟩) := by
    decide +kernel
  have hfirst : recvMessage (fun _ => true) hi.recvWait ⟨frame 6 hi.message ++ frame 6 yo.message, true, []⟩ =
      some (.string hi.message, ⟨yo.message, true, []⟩) := by decide +kernel
  have hsecond : recvMessage (fun _ => true) yo.recvWait ⟨yo.message, true, []⟩ =
      some (.string [], ⟨[], true, []⟩) := by
    decide +kernel
  refine ⟨⟨_, hsecond, hfirst⟩, ?_⟩
  rintro ⟨fs, s, h, hrecv⟩
  rw [hsend] at h
  cases h
  obtain ⟨r, h1, -, -, r', h2, -⟩ := hrecv
  rw [hfirst] at h1
  cases h1
  rw [hsecond] at h2
  cases h2

end LinuxProgram.Tcp
