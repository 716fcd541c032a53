/-
The answers of the libevent server, `02_libevent_web.c`: `http_request` with `copy_header`,
`copy_file` and `send_dir`. The output buffer of the bufferevent is the list of bytes written to
it, and the file system is a state that does not change while a request is served.

`sprintf(buf, "%s...", buf, ...)` appends to `buf`; the arrays are large enough for what is written
to them. Listening, the callbacks on events and the `printf` and `perror` lines are left out.
-/
import LinuxProgram.Io.Stream
import LinuxProgram.Web.Pub

namespace LinuxProgram.Web

open LinuxProgram.Data LinuxProgram.Io

/-! ## The file system -/

inductive FileKind where
  | dir
  | reg
  | other
  deriving DecidableEq, Repr

structure Stat where
  stMode : FileKind
  stSize : Nat
  deriving DecidableEq, Repr

structure Dirent where
  dName : List UInt8
  dType : FileKind
  deriving DecidableEq, Repr

/-- A file that can be opened: its contents and what the `read` calls on it meet. -/
structure File where
  contents : List UInt8
  reads : List RecvEvent
  deriving DecidableEq, Repr

/-- What `stat`, `open` and `opendir` find under a path, relative to the working directory. -/
structure FileSystem where
  stat : List UInt8 → Option Stat
  openFile : List UInt8 → Option File
  opendir : List UInt8 → Option (List Dirent)

/-! ## Writing a response -/

def errorFile : List UInt8 := str "error.html"
def dirPrefixFile : List UInt8 := str "html/dir_header.html"
def dirTailFile : List UInt8 := str "html/dir_tail.html"

/-- `copy_header`. -/
def copyHeader (bev : List UInt8) (op : Int) (msg filetype : List UInt8) (filesize : Int) : List UInt8 :=
  let buf := str "HTTP/1.1 " ++ dec op ++ str " " ++ msg ++ crlf
  let buf := buf ++ str "Content-Type: " ++ filetype ++ crlf
  let buf := if 0 ≤ filesize then buf ++ str "Content-Length:" ++ dec filesize ++ crlf else buf
  let buf := buf ++ crlf
  bev ++ cstr buf

/-- The loop of `copy_file`, until `read` returns no byte or fails. -/
def copyLoop : Nat → Receiver → List UInt8 → List UInt8
  | 0, _, bev => bev
  | fuel + 1, fd, bev =>
    match fd.recv 1024 with
    | some (.bytes buf, fd') => if buf = [] then bev else copyLoop fuel fd' (bev ++ buf)
    | _ => bev

/-- `copy_file`. A file that cannot be opened cannot be read either. -/
def copyFile (fs : FileSystem) (bev strFile : List UInt8) : List UInt8 :=
  match fs.openFile strFile with
  | none => bev
  | some f => copyLoop (f.contents.length + 1) ⟨f.contents, true, f.reads⟩ bev

/-- `%32s` and `%8ld`: blanks in front up to the width. -/
def pad (width : Nat) (s : List UInt8) : List UInt8 := List.replicate (width - s.length) 32 ++ s

/-- The loop of `send_dir`. The size of an entry whose `stat` fails is the one that `sb` already
holds. -/
def sendEntries (fs : FileSystem) : Int → List Dirent → List UInt8 → List UInt8
  | _, [], bev => bev
  | stSize, dent :: rest, bev =>
    let stSize := match fs.stat dent.dName with
      | some sb => (sb.stSize : Int)
      | none => stSize
    match dent.dType with
    | .dir =>
      let bufline := str "<li><a href='" ++ dent.dName ++ str "/'>" ++ pad 32 dent.dName ++ str "</a>   " ++
        pad 8 (dec stSize) ++ str "</li>"
      sendEntries fs stSize rest (bev ++ cstr bufline)
    | .reg =>
      let bufline := str "<li><a href='" ++ dent.dName ++ str "'>" ++ pad 32 dent.dName ++ str "</a>     " ++
        pad 8 (dec stSize) ++ str "</li>"
      sendEntries fs stSize rest (bev ++ cstr bufline)
    | .other => sendEntries fs stSize rest bev

/-- `send_dir`; `sb` is what the variable of that name holds before the first `stat`. -/
def sendDir (fs : FileSystem) (sb : Int) (bev strPath : List UInt8) : Int × List UInt8 :=
  let bev := copyFile fs bev dirPrefixFile
  match fs.opendir strPath with
  | none => (-1, bev)
  | some dir => (0, copyFile fs (sendEntries fs sb dir bev) dirTailFile)

/-! ## Requests -/

/-- The file that a request path names, once it is decoded. -/
def strPath (path : List UInt8) : List UInt8 :=
  let path := strdecodeInPlace path
  if cstr path = str "/" ∨ cstr path = str "/." then str "./" else cstr (path.drop 1)

/-- `http_request` on the array `path`: the return value and the output buffer. -/
def httpRequest (fs : FileSystem) (sb : Int) (bev path : List UInt8) : Int × List UInt8 :=
  match fs.stat (strPath path) with
  | none => (-1, copyFile fs (copyHeader bev 404 (str "NOT FOUND") (getMimeType errorFile) (-1)) errorFile)
  | some st =>
    let bev :=
      if st.stMode = .dir then
        (sendDir fs sb (copyHeader bev 200 (str "OK") (getMimeType (str ".html")) st.stSize) (strPath path)).2
      else bev
    let bev :=
      if st.stMode = .reg then
        copyFile fs (copyHeader bev 200 (str "OK") (getMimeType (strPath path)) st.stSize) (strPath path)
      else bev
    (0, bev)

end LinuxProgram.Web
