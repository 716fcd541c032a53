/-
`connectTimeout` of `TcpSocket.cpp`, over the results of the calls it makes. Its test of `getsockopt` takes
success for failure, and it leaves the socket non-blocking wherever it returns out of the branch of an
asynchronous connect.

The condition that reads `errno = EINPROGRESS` is taken as the comparison.
-/
import LinuxProgram.Io.Syscall
import LinuxProgram.Tcp.Socket

namespace LinuxProgram.Tcp

open LinuxProgram.Io

/-! ## The code -/

def EINPROGRESS : Int := 115

def O_NONBLOCK : BitVec 32 := 2048

/-- The status flags of the socket, and `errno`. -/
structure Fd where
  flags : BitVec 32
  errno : Int
  deriving DecidableEq

/-- The `errno` with which the `fcntl` calls of a change of mode fail, if they do. -/
structure Fcntl where
  getfl : Option Int
  setfl : Option Int
  deriving DecidableEq

/-- `fcntl(fd, F_GETFL)`. -/
def getfl (calls : Fcntl) (fd : Fd) : Int × Fd :=
  match calls.getfl with
  | none => (fd.flags.toNat, fd)
  | some e => (-1, { fd with errno := e })

/-- `fcntl(fd, F_SETFL, flags)`. -/
def setfl (calls : Fcntl) (flags : BitVec 32) (fd : Fd) : Int × Fd :=
  match calls.setfl with
  | none => (0, { fd with flags := flags })
  | some e => (-1, { fd with errno := e })

/-- The body of `setNonBlock` and `setBlock`, which differ in what they do to the flags. -/
def changeMode (change : BitVec 32 → BitVec 32) (calls : Fcntl) (fd : Fd) : Int × Fd :=
  let (flags, fd) := getfl calls fd
  if flags = -1 then (flags, fd) else setfl calls (change (BitVec.ofInt 32 flags)) fd

def setNonBlock (calls : Fcntl) (fd : Fd) : Int × Fd := changeMode (fun flags => flags ||| O_NONBLOCK) calls fd

def setBlock (calls : Fcntl) (fd : Fd) : Int × Fd := changeMode (fun flags => flags &&& ~~~ O_NONBLOCK) calls fd

/-- The results of the calls of `connectTimeout`, `getsockopt` with the pending error of the socket. -/
structure Calls where
  nonBlock : Fcntl
  connect : Syscall
  selects : List Syscall
  getsockopt : Syscall
  soError : Int
  block : Fcntl
  deriving DecidableEq

/-- The do loop: `select` is repeated while it is interrupted. The value of `ret` and `errno`. -/
def selectLoop : List Syscall → Int → Option (Int × Int)
  | [], _ => none
  | c :: calls, errno =>
    if c.ret < 0 ∧ c.errnoAfter errno = EINTR then selectLoop calls (c.errnoAfter errno)
    else some (c.ret, c.errnoAfter errno)

/-- The end of `connectTimeout`. -/
def restore (waitSeconds : Nat) (calls : Calls) (ret : Int) (fd : Fd) : Int × Fd :=
  (ret, if 0 < waitSeconds then (setBlock calls.block fd).2 else fd)

/-- The branch for a writable socket. -/
def socketError (calls : Calls) (fd : Fd) : Int × Fd :=
  let err := if calls.getsockopt.ret < 0 then 0 else calls.soError
  let fd := { fd with errno := calls.getsockopt.errnoAfter fd.errno }
  if calls.getsockopt.ret - 1 ≠ 0 then (-1, fd)
  else if err = 0 then (0, fd)
  else (-1, { fd with errno := err })

/-- `connectTimeout(addr, wait_seconds)`. -/
def connectTimeout (waitSeconds : Nat) (calls : Calls) (fd : Fd) : Option (Int × Fd) :=
  let fd := if 0 < waitSeconds then (setNonBlock calls.nonBlock fd).2 else fd
  let fd := { fd with errno := calls.connect.errnoAfter fd.errno }
  if calls.connect.ret < 0 ∧ fd.errno = EINPROGRESS then
    (selectLoop calls.selects fd.errno).map fun (ret, errno) =>
      let fd := { fd with errno := errno }
      if ret < 0 then (-1, fd)
      else if ret = 0 then restore waitSeconds calls (-1) { fd with errno := ETIMEDOUT }
      else if ret = 1 then socketError calls fd
      else restore waitSeconds calls ret fd
  else some (restore waitSeconds calls calls.connect.ret fd)

/-! ## The calls -/

/-- No `fcntl` call fails. -/
def Calls.FcntlOk (calls : Calls) : Prop := calls.nonBlock = ⟨none, none⟩ ∧ calls.block = ⟨none, none⟩

/-- The connection is not there yet when `connect` returns. -/
def Calls.Asynchronous (calls : Calls) : Prop := calls.connect.ret = -1 ∧ calls.connect.errno = EINPROGRESS

/-- What the calls of `select` come to. -/
def Calls.Selects (calls : Calls) (c : Syscall) : Prop := ∃ rest, FirstOf calls.selects c rest

/-- The `errno` of the last call that failed before `select` returned: an interrupted `select`, or `connect`. -/
def Calls.lastErrno (calls : Calls) : Int := if ∃ c ∈ calls.selects.head?, c.Interrupted then EINTR else EINPROGRESS

variable {calls : Calls} {fd : Fd} {waitSeconds : Nat}

theorem changeMode_ok (change : BitVec 32 → BitVec 32) (fd : Fd) :
    (changeMode change ⟨none, none⟩ fd).2 = { fd with flags := change fd.flags } := by
  have hflags : BitVec.ofInt 32 (fd.flags.toNat : Int) = fd.flags := by simp
  unfold changeMode getfl
  dsimp only
  rw [if_neg (by omega), hflags]
  rfl

theorem retry_iff (c : Syscall) (errno : Int) : c.ret < 0 ∧ c.errnoAfter errno = EINTR ↔ c.Interrupted := by
  unfold Syscall.Interrupted Syscall.errnoAfter
  rw [Syscall.ret_neg]
  refine and_congr_right fun hret => ?_
  rw [if_pos hret]

theorem selectLoop_eq_some {cs : List Syscall} {errno ret e : Int} : selectLoop cs errno = some (ret, e) ↔
    ∃ c rest, FirstOf cs c rest ∧ ret = c.ret ∧
      e = c.errnoAfter (if ∃ d ∈ cs.head?, d.Interrupted then EINTR else errno) := by
  induction cs generalizing errno with
  | nil =>
    refine iff_of_false (by simp [selectLoop]) ?_
    rintro ⟨c, rest, ⟨pre, hnil, -⟩, -⟩
    simp at hnil
  | cons d cs ih =>
    have hhead : (∃ d' ∈ (d :: cs).head?, d'.Interrupted) ↔ d.Interrupted := by simp
    rw [selectLoop]
    simp only [retry_iff, hhead]
    by_cases hd : d.Interrupted
    · have herrno : d.errnoAfter errno = EINTR := ((retry_iff d errno).2 hd).2
      rw [if_pos hd, herrno, ih]
      simp only [ite_self, if_pos hd, firstOf_cons_of_interrupted hd]
    · rw [if_neg hd]
      simp only [if_neg hd, firstOf_cons_of_not hd, Option.some.injEq, Prod.mk.injEq]
      constructor
      · rintro ⟨rfl, rfl⟩
        exact ⟨d, cs, ⟨rfl, rfl⟩, rfl, rfl⟩
      · rintro ⟨c, rest, ⟨rfl, -⟩, rfl, rfl⟩
        exact ⟨rfl, rfl⟩

/-! ## The whole call -/

/-- The flags while the call is waiting. -/
def waitingFlags (waitSeconds : Nat) (flags : BitVec 32) : BitVec 32 :=
  if 0 < waitSeconds then flags ||| O_NONBLOCK else flags

/-- The flags behind a change to non-blocking mode and back. -/
def restoredFlags (waitSeconds : Nat) (flags : BitVec 32) : BitVec 32 :=
  if 0 < waitSeconds then (flags ||| O_NONBLOCK) &&& ~~~ O_NONBLOCK else flags

theorem start_ok (hok : calls.FcntlOk) : (if 0 < waitSeconds then (setNonBlock calls.nonBlock fd).2 else fd) =
    ⟨waitingFlags waitSeconds fd.flags, fd.errno⟩ := by
  unfold setNonBlock waitingFlags
  rw [hok.1, changeMode_ok]
  split <;> rfl

theorem restore_ok (hok : calls.FcntlOk) (ret errno : Int) (flags : BitVec 32) :
    restore waitSeconds calls ret ⟨waitingFlags waitSeconds flags, errno⟩ =
      (ret, ⟨restoredFlags waitSeconds flags, errno⟩) := by
  unfold restore setBlock waitingFlags restoredFlags
  rw [hok.2, changeMode_ok]
  split <;> rfl

theorem asynchronous_iff (errno : Int) :
    calls.connect.ret < 0 ∧ calls.connect.errnoAfter errno = EINPROGRESS ↔ calls.Asynchronous := by
  unfold Calls.Asynchronous Syscall.errnoAfter
  rw [Syscall.ret_neg]
  refine and_congr_right fun hret => ?_
  rw [if_pos hret]

/-- A connect that is over when it returns. -/
theorem connectTimeout_sync (hok : calls.FcntlOk) (hsync : ¬ calls.Asynchronous) : connectTimeout waitSeconds calls fd =
    some (calls.connect.ret, ⟨restoredFlags waitSeconds fd.flags, calls.connect.errnoAfter fd.errno⟩) := by
  unfold connectTimeout
  rw [start_ok hok]
  dsimp only
  rw [if_neg (mt (asynchronous_iff fd.errno).1 hsync), restore_ok hok]

/-- What an asynchronous connect comes to, when `select` returns `ret` and leaves `errno`. -/
def behindSelect (waitSeconds : Nat) (calls : Calls) (flags : BitVec 32) (ret errno : Int) : Int × Fd :=
  if ret < 0 then (-1, ⟨waitingFlags waitSeconds flags, errno⟩)
  else if ret = 0 then (-1, ⟨restoredFlags waitSeconds flags, ETIMEDOUT⟩)
  else if ret = 1 then socketError calls ⟨waitingFlags waitSeconds flags, errno⟩
  else (ret, ⟨restoredFlags waitSeconds flags, errno⟩)

theorem connectTimeout_async (hok : calls.FcntlOk) (hasync : calls.Asynchronous) : connectTimeout waitSeconds calls fd =
    (selectLoop calls.selects EINPROGRESS).map fun x => behindSelect waitSeconds calls fd.flags x.1 x.2 := by
  have herrno : calls.connect.errnoAfter fd.errno = EINPROGRESS := ((asynchronous_iff fd.errno).2 hasync).2
  unfold connectTimeout
  rw [start_ok hok]
  dsimp only
  rw [if_pos ((asynchronous_iff fd.errno).2 hasync), herrno]
  simp only [restore_ok hok]
  rfl

theorem selectLoop_selects {c : Syscall} (hc : calls.Selects c) :
    selectLoop calls.selects EINPROGRESS = some (c.ret, c.errnoAfter calls.lastErrno) := by
  obtain ⟨rest, hfirst⟩ := hc
  exact selectLoop_eq_some.2 ⟨c, rest, hfirst, rfl, rfl⟩

/-! ## Blocking mode -/

/-- The branch of an asynchronous connect is left without coming to its end: `select` fails or reports the socket
writable. -/
def Calls.Abandoned (calls : Calls) : Prop := calls.Asynchronous ∧ ∃ c, calls.Selects c ∧ (c.ret < 0 ∨ c.ret = 1)

/-- The socket is in blocking mode, and its other flags are those of `fd`. -/
def BlockingAs (fd fd' : Fd) : Prop :=
  fd'.flags &&& O_NONBLOCK = 0 ∧ fd'.flags &&& ~~~ O_NONBLOCK = fd.flags &&& ~~~ O_NONBLOCK

theorem blockingAs_restored (hwait : 0 < waitSeconds) (errno : Int) :
    BlockingAs fd ⟨restoredFlags waitSeconds fd.flags, errno⟩ := by
  unfold BlockingAs restoredFlags
  rw [if_pos hwait]
  constructor
  · ext i hi
    simp only [BitVec.getElem_and, BitVec.getElem_or, BitVec.getElem_not]
    cases O_NONBLOCK[i] <;> simp
  · ext i hi
    simp only [BitVec.getElem_and, BitVec.getElem_or, BitVec.getElem_not]
    cases O_NONBLOCK[i] <;> simp

theorem not_blockingAs_waiting (hwait : 0 < waitSeconds) (errno : Int) :
    ¬ BlockingAs fd ⟨waitingFlags waitSeconds fd.flags, errno⟩ := by
  rintro ⟨h, -⟩
  unfold waitingFlags at h
  rw [if_pos hwait] at h
  have hmask : (fd.flags ||| O_NONBLOCK) &&& O_NONBLOCK = O_NONBLOCK := by
    ext i hi
    simp only [BitVec.getElem_and, BitVec.getElem_or]
    cases O_NONBLOCK[i] <;> simp
  rw [hmask] at h
  exact absurd h (by decide)

theorem socketError_flags (fd : Fd) : (socketError calls fd).2.flags = fd.flags := by
  unfold socketError
  dsimp only
  split
  · rfl
  · split <;> split <;> rfl

theorem behindSelect_blocking (hwait : 0 < waitSeconds) (ret errno : Int) :
    BlockingAs fd (behindSelect waitSeconds calls fd.flags ret errno).2 ↔ ¬ (ret < 0 ∨ ret = 1) := by
  have hleft : ∀ {fd' : Fd}, fd'.flags = waitingFlags waitSeconds fd.flags → ¬ BlockingAs fd fd' := by
    intro fd' hflags h
    refine (not_blockingAs_waiting hwait fd'.errno : ¬ BlockingAs fd _) ?_
    rw [← hflags]
    exact h
  unfold behindSelect
  split
  · rename_i hneg
    exact iff_of_false (hleft rfl) (not_not.2 (.inl hneg))
  split
  · rename_i hneg hzero
    exact iff_of_true (blockingAs_restored hwait _) (by omega)
  split
  · rename_i hneg hzero hone
    exact iff_of_false (hleft (socketError_flags _)) (not_not.2 (.inr hone))
  · rename_i hneg hzero hone
    exact iff_of_true (blockingAs_restored hwait _) (by omega)

/-- A socket that is set non-blocking is blocking again exactly when the call does not return out of the branch of an
asynchronous connect. -/
theorem blocking_exact {waitSeconds : Nat} (hwait : 0 < waitSeconds) {calls : Calls} (hok : calls.FcntlOk) (fd : Fd) :
    (∀ ret fd', connectTimeout waitSeconds calls fd = some (ret, fd') → BlockingAs fd fd') ↔ ¬ calls.Abandoned := by
  by_cases hasync : calls.Asynchronous
  · rw [connectTimeout_async hok hasync]
    constructor
    · rintro h ⟨-, c, hc, hret⟩
      rw [selectLoop_selects hc, Option.map_some] at h
      exact (behindSelect_blocking hwait _ _).1 (h _ _ rfl) hret
    · intro hab ret fd' h
      obtain ⟨⟨ret', e⟩, hloop, heq⟩ := Option.map_eq_some_iff.1 h
      obtain ⟨c, rest, hfirst, rfl, rfl⟩ := selectLoop_eq_some.1 hloop
      have hfd : (behindSelect waitSeconds calls fd.flags c.ret (c.errnoAfter calls.lastErrno)).2 = fd' :=
        congrArg Prod.snd heq
      rw [← hfd]
      exact (behindSelect_blocking hwait _ _).2 fun hret => hab ⟨hasync, c, ⟨rest, hfirst⟩, hret⟩
  · refine iff_of_true (fun ret fd' h => ?_) fun hab => hasync hab.1
    rw [connectTimeout_sync hok hasync] at h
    cases h
    exact blockingAs_restored hwait _

/-- An asynchronous connect: `select` reports the socket writable in the end. -/
def Calls.Writable (calls : Calls) : Prop := calls.Asynchronous ∧ ∃ c, calls.Selects c ∧ c.ret = 1

/-- Five seconds, and the socket is writable after an interruption. -/
def writable (soError : Int) : Calls where
  nonBlock := ⟨none, none⟩
  connect := .fails EINPROGRESS
  selects := [.interrupted, .returns 1]
  getsockopt := .returns 0
  soError := soError
  block := ⟨none, none⟩

theorem writable_selects (soError : Int) : (writable soError).Selects (.returns 1) :=
  ⟨[], (firstOf_cons_of_interrupted (by decide)).2 ((firstOf_cons_of_not (by decide)).2 ⟨rfl, rfl⟩)⟩

theorem blocking_exact_writable :
    (∀ ret fd', connectTimeout 5 (writable 0) ⟨2, 0⟩ = some (ret, fd') → BlockingAs ⟨2, 0⟩ fd') ↔
    ¬ (writable 0).Abandoned :=
  blocking_exact (by decide) ⟨rfl, rfl⟩ ⟨2, 0⟩

/-- The socket of a connection that is there is left non-blocking. -/
theorem left_nonBlocking : ¬ ∀ (waitSeconds : Nat) (calls : Calls) (fd : Fd), 0 < waitSeconds → calls.FcntlOk →
    fd.flags &&& O_NONBLOCK = 0 → ∀ ret fd', connectTimeout waitSeconds calls fd = some (ret, fd') →
    BlockingAs fd fd' := by
  intro h
  obtain ⟨hblock, -⟩ :=
    h 5 (writable 0) ⟨2, 0⟩ (by decide) ⟨rfl, rfl⟩ (by decide) (-1) ⟨2050, EINTR⟩ (by decide +kernel)
  exact absurd hblock (by decide)

/-! ## The outcome -/

/-- The calls return what their manuals say: `connect` returns 0 or fails, `select` is given one descriptor and is not
interrupted for ever, and `getsockopt` and `fcntl` succeed. -/
structure Calls.Documented (calls : Calls) : Prop where
  fcntl : calls.FcntlOk
  connect : calls.connect.ret ≤ 0
  select : ∀ c ∈ calls.selects, c.ret ≤ 1
  returns : calls.Asynchronous → ∃ c ∈ calls.selects, ¬ c.Interrupted
  getsockopt : calls.getsockopt.ret = 0

def Calls.Established (calls : Calls) : Prop := calls.connect.ret = 0 ∨ calls.Writable ∧ calls.soError = 0

def Calls.TimedOut (calls : Calls) : Prop := calls.Asynchronous ∧ ∃ c, calls.Selects c ∧ c.ret = 0

/-- The connection failed with the error. -/
def Calls.Failed (calls : Calls) (errno : Int) : Prop :=
  calls.connect.ret = -1 ∧ ¬ calls.Asynchronous ∧ calls.connect.errno = errno ∨
    calls.Writable ∧ calls.soError = errno ∧ errno ≠ 0

/-- `connectTimeout` returns 0 for a connection that is there, and otherwise -1 with the reason in `errno`. -/
def ReportsOutcome (waitSeconds : Nat) (calls : Calls) (fd : Fd) : Prop :=
  ∃ ret fd', connectTimeout waitSeconds calls fd = some (ret, fd') ∧ (ret = 0 ↔ calls.Established) ∧
    (ret ≠ 0 → ret = -1) ∧ (calls.TimedOut → fd'.errno = ETIMEDOUT) ∧ ∀ e, calls.Failed e → fd'.errno = e

/-- A connect that is over when it returns is reported as it is. -/
theorem reportsOutcome_sync (hdoc : calls.Documented) (hsync : ¬ calls.Asynchronous) :
    ReportsOutcome waitSeconds calls fd := by
  have hle := hdoc.connect
  have hge := calls.connect.ret_ge
  refine ⟨_, _, connectTimeout_sync hdoc.fcntl hsync, ?_, by omega, fun h => absurd h.1 hsync, ?_⟩
  · unfold Calls.Established Calls.Writable
    simp [hsync]
  · rintro e (⟨hret, -, rfl⟩ | ⟨hw, -⟩)
    · exact if_pos hret
    · exact absurd hw.1 hsync

/-- A wait that fails or times out is reported as it is. -/
theorem reportsOutcome_unwritable (hdoc : calls.Documented) (hasync : calls.Asynchronous) {c : Syscall}
    (hc : calls.Selects c) (hret : c.ret ≠ 1) : ReportsOutcome waitSeconds calls fd := by
  have hle := hdoc.select c hc.choose_spec.mem
  have hge := c.ret_ge
  have hunique : ∀ {d}, calls.Selects d → d = c := fun hd => (firstOf_unique hd.choose_spec hc.choose_spec).1
  have hunwritable : ¬ calls.Writable := by
    rintro ⟨-, d, hd, h⟩
    rw [hunique hd] at h
    exact hret h
  have hnot : ¬ calls.Established := by
    rintro (h | h)
    · have := hasync.1
      omega
    · exact hunwritable h.1
  have hfailed : ∀ e, ¬ calls.Failed e := by
    rintro e (⟨-, h, -⟩ | ⟨h, -⟩)
    · exact h hasync
    · exact hunwritable h
  unfold ReportsOutcome
  rw [connectTimeout_async hdoc.fcntl hasync, selectLoop_selects hc, Option.map_some]
  unfold behindSelect
  dsimp only
  rcases (by omega : c.ret = -1 ∨ c.ret = 0) with h | h
  · rw [h, if_pos (by decide)]
    refine ⟨_, _, rfl, iff_of_false (by decide) hnot, fun _ => rfl, ?_, fun e he => absurd he (hfailed e)⟩
    rintro ⟨-, d, hd, h0⟩
    rw [hunique hd] at h0
    omega
  · rw [h, if_neg (by decide), if_pos rfl]
    exact ⟨_, _, rfl, iff_of_false (by decide) hnot, fun _ => rfl, fun _ => rfl, fun e he => absurd he (hfailed e)⟩

/-- A writable socket is reported as a failure, with the `errno` that was there before. -/
theorem reportsOutcome_writable (hdoc : calls.Documented) (hw : calls.Writable) :
    ReportsOutcome waitSeconds calls fd ↔ calls.soError = calls.lastErrno := by
  obtain ⟨hasync, c, hc, hret⟩ := hw
  have herrno : calls.lastErrno ≠ 0 := by
    unfold Calls.lastErrno
    split <;> decide
  unfold ReportsOutcome
  rw [connectTimeout_async hdoc.fcntl hasync, selectLoop_selects hc, Option.map_some]
  have hresult : behindSelect waitSeconds calls fd.flags c.ret (c.errnoAfter calls.lastErrno) =
      (-1, ⟨waitingFlags waitSeconds fd.flags, calls.lastErrno⟩) := by
    unfold behindSelect socketError Syscall.errnoAfter
    dsimp only
    rw [hret, hdoc.getsockopt]
    rfl
  rw [hresult]
  constructor
  · rintro ⟨ret, fd', h, hzero, -, -, hfailed⟩
    cases h
    have h0 : calls.soError ≠ 0 := fun h0 => absurd (hzero.2 (.inr ⟨⟨hasync, c, hc, hret⟩, h0⟩)) (by decide)
    exact (hfailed _ (.inr ⟨⟨hasync, c, hc, hret⟩, rfl, h0⟩)).symm
  · intro hlast
    refine ⟨_, _, rfl, iff_of_false (by decide) ?_, fun _ => rfl, ?_, ?_⟩
    · rintro (h | ⟨-, h⟩)
      · have := hasync.1
        omega
      · exact herrno (hlast.symm.trans h)
    · rintro ⟨-, d, hd, h0⟩
      rw [(firstOf_unique hd.choose_spec hc.choose_spec).1] at h0
      omega
    · rintro e (⟨-, h, -⟩ | ⟨-, h, -⟩)
      · exact absurd hasync h
      · exact hlast.symm.trans h

/-- The outcome is reported exactly when `select` does not report the socket writable, or the error that is pending
then is the one in `errno` already. -/
theorem outcome_exact (waitSeconds : Nat) {calls : Calls} (hdoc : calls.Documented) (fd : Fd) :
    ReportsOutcome waitSeconds calls fd ↔ (calls.Writable → calls.soError = calls.lastErrno) := by
  by_cases hw : calls.Writable
  · rw [reportsOutcome_writable hdoc hw]
    exact ⟨fun h _ => h, fun h => h hw⟩
  · refine iff_of_true ?_ fun h => absurd h hw
    by_cases hasync : calls.Asynchronous
    · obtain ⟨c, rest, hc⟩ := exists_firstOf (hdoc.returns hasync)
      exact reportsOutcome_unwritable hdoc hasync ⟨rest, hc⟩ fun hret => hw ⟨hasync, c, ⟨rest, hc⟩, hret⟩
    · exact reportsOutcome_sync hdoc hasync

theorem writable_documented (soError : Int) : (writable soError).Documented where
  fcntl := ⟨rfl, rfl⟩
  connect := show (-1 : Int) ≤ 0 by decide
  select := show ∀ c ∈ [Syscall.interrupted, .returns 1], c.ret ≤ 1 by decide
  returns := fun _ => ⟨.returns 1, List.mem_cons_of_mem _ List.mem_cons_self, by decide⟩
  getsockopt := rfl

theorem outcome_exact_writable : ReportsOutcome 5 (writable 111) ⟨2, 0⟩ ↔
    ((writable 111).Writable → (writable 111).soError = (writable 111).lastErrno) :=
  outcome_exact 5 (writable_documented 111) ⟨2, 0⟩

/-- A connection that is there is reported as a failure, and so is one that was refused, but not as that. -/
theorem outcome_lost :
    (¬ ∀ (waitSeconds : Nat) (calls : Calls) (fd : Fd), calls.Documented → ReportsOutcome waitSeconds calls fd) ∧
    connectTimeout 5 (writable 0) ⟨2, 0⟩ = some (-1, ⟨2050, EINTR⟩) ∧
    connectTimeout 5 (writable 111) ⟨2, 0⟩ = some (-1, ⟨2050, EINTR⟩) := by
  refine ⟨fun h => ?_, by decide +kernel, by decide +kernel⟩
  obtain ⟨ret, fd', hret, hzero, -⟩ := h 5 (writable 0) ⟨2, 0⟩ (writable_documented 0)
  have hfails : connectTimeout 5 (writable 0) ⟨2, 0⟩ = some (-1, ⟨2050, EINTR⟩) := by decide +kernel
  cases hfails.symm.trans hret
  exact absurd (hzero.2 (.inr ⟨⟨⟨rfl, rfl⟩, _, writable_selects 0, rfl⟩, rfl⟩)) (by decide)

end LinuxProgram.Tcp
