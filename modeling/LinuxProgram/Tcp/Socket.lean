/-
The messages of `TcpSocket.cpp`: `sendMessage` and `recvMessage` over the loops `writen` and `readn`
on a connected socket. The answers of `malloc` are a parameter.

`connectServer`, `connectTimeout` and the blocking mode of the descriptor are left out, as are the
`printf` lines. The four bytes of `netlen` and the bytes of `sendData` are what the two `memcpy`
calls copy, and `recvMessage` returns the string it builds.
-/
import LinuxProgram.Data.CStr
import LinuxProgram.Data.Word
import LinuxProgram.Io.Stream

namespace LinuxProgram.Tcp

open LinuxProgram.Data LinuxProgram.Io

/-! ## Error codes -/

def TimeoutError : Int := 3002
def MallocError : Int := 3004
def ETIMEDOUT : Int := 110

/-! ## Waiting for the socket -/

/-- One wait: `wait_seconds`, and what `select` returns and leaves in `errno`. -/
structure Wait where
  waitSeconds : Nat
  select : Int
  errno : Int
  deriving DecidableEq, Repr

/-- The return value and `errno`. -/
def selectTimeout (w : Wait) : Int × Int :=
  if 0 < w.waitSeconds then
    if w.select = 0 then (-1, ETIMEDOUT)
    else if w.select = 1 then (0, w.errno)
    else (w.select, w.errno)
  else (0, w.errno)

def readTimeout (w : Wait) : Int × Int := selectTimeout w

def writeTimeout (w : Wait) : Int × Int := selectTimeout w

/-! ## Fixed numbers of bytes -/

/-- `readn`: the return value, the bytes stored, and the socket. -/
def readn (r : Receiver) (count : Int) : Option (Int × List UInt8 × Receiver) :=
  (r.recvn count.toNat).map fun (e, buf, r') =>
    (match e with | .full => count | .eof => buf.length | .error => -1, buf, r')

/-- The loop of `writen`; `nwritten` is what the last call returned. -/
def writenLoop : Nat → Sender → List UInt8 → Nat → Int → Option (Int × Sender)
  | 0, _, _, _, _ => none
  | fuel + 1, s, bufp, nleft, nwritten =>
    if 0 < nleft then
      match s.send (bufp.take nleft) with
      | (.eintr, s') => writenLoop fuel s' bufp nleft (-1)
      | (.error, s') => some (-1, s')
      | (.count k, s') => writenLoop fuel s' (bufp.drop k) (nleft - k) k
    else some (nwritten, s)

/-- `writen`; `nwritten` is what the variable holds before it is assigned. -/
def writen (nwritten : Int) (s : Sender) (buf : List UInt8) (count : Int) : Option (Int × Sender) :=
  let nleft := (count % 2 ^ 64).toNat
  writenLoop (s.events.length + nleft + 1) s buf nleft nwritten

/-! ## Messages -/

/-- The bytes of `htonl(len)`. -/
def htonl (len : Int) : List UInt8 := bigEndian 4 (len % 2 ^ 32).toNat

/-- The `int` that `ntohl` returns is stored in. -/
def ntohl (netdatalen : List UInt8) : Int := wrap32 (ofBigEndian netdatalen)

/-- The `data` of `sendMessage`: the length in network order and the bytes of the message. -/
def frame (len : Int) (sendData : List UInt8) : List UInt8 := htonl len ++ sendData

/-- `sendMessage`. The block is `sizeof(len)` bytes long; the bytes written behind it are taken to
be there when `writen` reads them. -/
def sendMessage (malloc : Nat → Bool) (nwritten : Int) (w : Wait) (sendData : List UInt8) (s : Sender) :
    Option (Int × Sender) :=
  let (ret, errno) := writeTimeout w
  if ret = 0 then
    let len := wrap32 (sendData.length + 4)
    if malloc 4 then
      (writen nwritten s (frame len sendData) len).map fun (writen, s') => (if writen < len then writen else ret, s')
    else some (MallocError, s)
  else some (if ret = -1 ∧ errno = ETIMEDOUT then TimeoutError else ret, s)

/-- What `recvMessage` returns: a string, or `NULL` when there is no memory for one. -/
inductive Message where
  | string (data : List UInt8)
  | null
  deriving DecidableEq, Repr

/-- The end of `recvMessage`, behind its second `readn`. -/
def recvBody (n : Int) : Int × List UInt8 × Receiver → Message × Receiver
  | (ret, tmpBuf, r) =>
    if ret = -1 then (.string [], r)
    else if ret < n then (.string [], r)
    else (.string (cstr tmpBuf), r)

/-- `recvMessage`; `malloc` is asked for the `size_t` that `n + 1` becomes. -/
def recvMessage (malloc : Nat → Bool) (w : Wait) (r : Receiver) : Option (Message × Receiver) :=
  if (readTimeout w).1 ≠ 0 then some (.string [], r)
  else
    (readn r 4).bind fun (ret, netdatalen, r₁) =>
      if ret = -1 then some (.string [], r₁)
      else if ret < 4 then some (.string [], r₁)
      else
        let n := ntohl netdatalen
        if malloc (wrap32 (n + 1) % 2 ^ 64).toNat then
          (readn r₁ n).map (recvBody n)
        else some (.null, r₁)

end LinuxProgram.Tcp
