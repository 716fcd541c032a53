/-
`send_file` of the epoll server. What `send` accepts is only printed, so a file arrives whole exactly when
each call of `send` takes all the bytes that the `read` before it has delivered.

The `printf` and `perror` lines are left out, and so is the `epoll_ctl` call behind `Close`.
-/
import LinuxProgram.Web.Libevent

namespace LinuxProgram.Web.Epoll

open LinuxProgram.Io

/-! ## The code -/

/-- The client's socket: what it has accepted, and whether the server has closed it. -/
structure Client where
  stream : Sender
  closed : Bool
  deriving DecidableEq

/-- The loop of `send_file`, until `read` returns no byte or fails. -/
def sendFileLoop : Nat → Receiver → Sender → Sender
  | 0, _, cfd => cfd
  | fuel + 1, fd, cfd =>
    match fd.recv 1024 with
    | some (.bytes buf, fd') => if buf = [] then cfd else sendFileLoop fuel fd' (cfd.send buf).2
    | _ => cfd

/-- `send_file`. Every turn but the last reads a byte of the file. -/
def sendFile (fs : FileSystem) (cfd : Sender) (path : List UInt8) (flags : Bool) : Client :=
  match fs.openFile path with
  | none => ⟨cfd, flags⟩
  | some f => ⟨sendFileLoop (f.contents.length + 1) ⟨f.contents, true, f.reads⟩ cfd, flags⟩

/-! ## Reads and sends -/

/-- The numbers of bytes that the calls of `read` deliver of a file of `n` bytes. -/
def readSizes (reads : List RecvEvent) (n : Nat) : List Nat :=
  if 0 < n then
    match reads with
    | [] => min 1024 n :: readSizes [] (n - 1024)
    | .chunk k :: es => min (min (k + 1) 1024) n :: readSizes es (n - min (k + 1) 1024)
    | _ :: _ => []
  else []
termination_by n

/-- A call of `send` takes `n` bytes that it is offered. -/
def Takes (n : Nat) : SendEvent → Prop
  | .accept k => n ≤ k
  | .eintr | .error => False

/-- Each call of `send` takes as many bytes as the `read` before it delivered. -/
def TakesAll : List SendEvent → List Nat → Prop
  | _, [] => True
  | [], _ :: _ => True
  | e :: es, n :: ns => Takes n e ∧ TakesAll es ns

/-- Some of the bytes offered are accepted, and all of them exactly if the call takes that many. -/
theorem send_cases (s : Sender) {bs : List UInt8} (hne : bs ≠ []) :
    ∃ j, (s.send bs).2 = ⟨s.sent ++ bs.take j, s.events.tail⟩ ∧
    j ≤ bs.length ∧ (j = bs.length ↔ ∀ e ∈ s.events.head?, Takes bs.length e) := by
  obtain ⟨sent, events⟩ := s
  have hpos : 0 < bs.length := List.length_pos_iff.2 hne
  have hnone : (⟨sent, events.tail⟩ : Sender) = ⟨sent ++ bs.take 0, events.tail⟩ := by
    rw [List.take_zero, List.append_nil]
  cases events with
  | nil => exact ⟨bs.length, by rw [List.take_length]; rfl, le_refl _, by simp⟩
  | cons e es =>
    cases e with
    | eintr => exact ⟨0, hnone, Nat.zero_le _, iff_of_false (Nat.ne_of_lt hpos) fun h => h .eintr rfl⟩
    | error => exact ⟨0, hnone, Nat.zero_le _, iff_of_false (Nat.ne_of_lt hpos) fun h => h .error rfl⟩
    | accept k =>
      refine ⟨min k bs.length, rfl, min_le_right _ _, ?_⟩
      rw [min_eq_right_iff]
      constructor
      · rintro hk e ⟨⟩
        exact hk
      · intro h
        exact h (.accept k) rfl

theorem takesAll_cons {es : List SendEvent} {n : Nat} {ns : List Nat} :
    TakesAll es (n :: ns) ↔ (∀ e ∈ es.head?, Takes n e) ∧ TakesAll es.tail ns := by
  cases es with
  | nil =>
    refine iff_of_true trivial ⟨fun e he => (Option.not_mem_none e he).elim, ?_⟩
    cases ns <;> trivial
  | cons e es => simp [TakesAll]

variable {reads : List RecvEvent}

/-- One call of `read` on a file. -/
theorem recv_file (hreads : ∀ e ∈ reads, ∃ k, e = .chunk k) (data : List UInt8) : ∃ n, 0 < n ∧
    Receiver.recv ⟨data, true, reads⟩ 1024 = some (.bytes (data.take n), ⟨data.drop n, true, reads.tail⟩) ∧
    (0 < data.length → readSizes reads data.length = min n data.length :: readSizes reads.tail (data.length - n)) := by
  cases reads with
  | nil =>
    refine ⟨1024, by decide, if_neg (by simp), fun hpos => ?_⟩
    rw [readSizes, if_pos hpos]
    rfl
  | cons e es =>
    obtain ⟨k, rfl⟩ := hreads e List.mem_cons_self
    refine ⟨min (k + 1) 1024, by omega, if_neg (by simp), fun hpos => ?_⟩
    rw [readSizes, if_pos hpos]
    rfl

/-- The bytes accepted are no more than the file has, and are the file if all are taken. -/
theorem sendFileLoop_cases (fuel : Nat) (data : List UInt8) (hreads : ∀ e ∈ reads, ∃ k, e = .chunk k) (cfd : Sender)
    (hfuel : data.length < fuel) : ∃ acc, (sendFileLoop fuel ⟨data, true, reads⟩ cfd).sent = cfd.sent ++ acc ∧
      acc.length ≤ data.length ∧ (acc = data ↔ TakesAll cfd.events (readSizes reads data.length)) := by
  induction fuel generalizing data reads cfd with
  | zero => exact absurd hfuel (Nat.not_lt_zero _)
  | succ fuel ih =>
    obtain ⟨n, hn, hrecv, hsizes⟩ := recv_file hreads data
    rw [sendFileLoop, hrecv]
    dsimp only
    by_cases hdata : data = []
    · subst hdata
      rw [List.take_nil, if_pos rfl]
      refine ⟨[], (List.append_nil _).symm, le_refl 0, iff_of_true rfl ?_⟩
      rw [List.length_nil, readSizes.eq_def, if_neg (Nat.lt_irrefl 0)]
      cases cfd.events <;> trivial
    · have hpos : 0 < data.length := List.length_pos_iff.2 hdata
      have hne : data.take n ≠ [] := by
        rw [Ne, List.take_eq_nil_iff]
        rintro (h | h)
        · omega
        · exact hdata h
      have hlen : (data.take n).length = min n data.length := List.length_take
      obtain ⟨j, hsend, hj, hall⟩ := send_cases cfd hne
      obtain ⟨acc, hloop, hacc, hrest⟩ := ih (data.drop n) (fun e he => hreads e (List.mem_of_mem_tail he))
        ⟨cfd.sent ++ (data.take n).take j, cfd.events.tail⟩ (by rw [List.length_drop]; omega)
      have hdrop : (data.drop n).length = data.length - n := List.length_drop
      have hpiece : ((data.take n).take j).length = j := List.length_take_of_le hj
      rw [if_neg hne, hsend, hloop]
      refine ⟨(data.take n).take j ++ acc, List.append_assoc .., ?_, ?_⟩
      · rw [List.length_append, hpiece]
        omega
      · rw [hsizes hpos, takesAll_cons, ← hlen, ← hall, ← hdrop, ← hrest]
        constructor
        · intro h
          -- what is missing here is missed in the end
          have hlength := congrArg List.length h
          rw [List.length_append, hpiece] at hlength
          have hjall : j = (data.take n).length := by omega
          refine ⟨hjall, ?_⟩
          rw [hjall, List.take_length] at h
          exact List.append_cancel_left (h.trans (List.take_append_drop n data).symm)
        · rintro ⟨hjall, rfl⟩
          rw [hjall, List.take_length, List.take_append_drop]

/-- The file arrives exactly when each call of `send` takes all that was read. -/
theorem sendFile_exact {fs : FileSystem} {path : List UInt8} {f : File} (hopen : fs.openFile path = some f)
    (hreads : ∀ e ∈ f.reads, ∃ k, e = .chunk k) (cfd : Sender) (flags : Bool) :
    ((sendFile fs cfd path flags).stream.sent = cfd.sent ++ f.contents ∧ (sendFile fs cfd path flags).closed = flags) ↔
      TakesAll cfd.events (readSizes f.reads f.contents.length) := by
  obtain ⟨acc, hloop, -, hall⟩ := sendFileLoop_cases (f.contents.length + 1) f.contents hreads cfd (Nat.lt_succ_self _)
  unfold sendFile
  rw [hopen, ← hall]
  dsimp only
  rw [hloop, List.append_cancel_left_eq]
  exact and_iff_left rfl

/-- A file of two bytes, under any name. -/
def twoBytes : FileSystem where
  stat _ := some ⟨.reg, 2⟩
  openFile _ := some ⟨[104, 105], [.chunk 0]⟩
  opendir _ := none

theorem sendFile_exact_refused : ((sendFile twoBytes ⟨[], [.error]⟩ [97] true).stream.sent = [] ++ [104, 105] ∧
      (sendFile twoBytes ⟨[], [.error]⟩ [97] true).closed = true) ↔ TakesAll [.error] (readSizes [.chunk 0] 2) :=
  @sendFile_exact twoBytes [97] ⟨[104, 105], [.chunk 0]⟩ rfl (by simp) ⟨[], [.error]⟩ true

/-- A byte that the full socket refuses is never sent. -/
theorem refused_byte_lost : (¬ ∀ (fs : FileSystem) (path : List UInt8) (f : File) (cfd : Sender) (flags : Bool),
      fs.openFile path = some f → (∀ e ∈ f.reads, ∃ k, e = .chunk k) →
      (∀ e ∈ cfd.events, e = .error ∨ ∃ k, e = .accept (k + 1)) →
      (sendFile fs cfd path flags).stream.sent = cfd.sent ++ f.contents) ∧
    sendFile twoBytes ⟨[], [.error]⟩ [97] true = ⟨⟨[105], []⟩, true⟩ := by
  have hlost : sendFile twoBytes ⟨[], [.error]⟩ [97] true = ⟨⟨[105], []⟩, true⟩ := by decide +kernel
  refine ⟨fun h => ?_, hlost⟩
  have hsent := h twoBytes [97] ⟨[104, 105], [.chunk 0]⟩ ⟨[], [.error]⟩ true rfl (by simp) (by simp)
  rw [hlost] at hsent
  cases hsent

end LinuxProgram.Web.Epoll
