/-
The epoll server, `01_epoll_web.c`: how `process_http_request` reads the request line out of what its
first `recv` delivered, and the entries of the listings that it sends.

Of the answers only the entries of a listing and the closing of the connection are modelled; the
`printf` and `perror` lines are left out. When the scan leaves the array there is no request.
-/
import LinuxProgram.Data.Scan
import LinuxProgram.Http.Message
import LinuxProgram.Web.Libevent

namespace LinuxProgram.Web.Epoll

open LinuxProgram.Data

/-! ## The request line -/

/-- The arrays that `sscanf` stores into; what it does not reach stays empty. -/
structure RequestLine where
  method : List UInt8
  content : List UInt8
  protocol : List UInt8
  deriving DecidableEq, Repr

/-- `sscanf(buf, "%[^ ] %[^ ] %[^ \r\n]", method, content, protocol)`. -/
def sscanf (buf : List UInt8) : Option RequestLine :=
  (scanUntil [32] buf).bind fun (method, s) =>
    if method = [] then some ⟨[], [], []⟩
    else (skipSpaces s).bind fun s => (scanUntil [32] s).bind fun (content, s) =>
      if content = [] then some ⟨method, [], []⟩
      else (skipSpaces s).bind fun s => (scanUntil [32, 13, 10] s).map fun (protocol, _) =>
        ⟨method, content, protocol⟩

/-- `strcasecmp(s, t) == 0`. -/
def strcasecmpEq (s t : List UInt8) : Bool := s.map Http.toLower == t.map Http.toLower

/-- The path of a request: `content + 1`, decoded in place. -/
def requestPath (content : List UInt8) : List UInt8 :=
  let path := cstr (strdecode (content.drop 1))
  if path = [] then str "./" else path

/-- What a request asks for: the path only when the method is GET. -/
structure Request where
  method : List UInt8
  path : Option (List UInt8)
  deriving DecidableEq, Repr

def bufSize : Nat := 256

def RequestLine.request (line : RequestLine) : Request :=
  ⟨line.method, if strcasecmpEq line.method (str "get") then some (requestPath line.content) else none⟩

/-- The request that `process_http_request` finds in `buf`, when the first `recv` delivered `got`. -/
def request (got : List UInt8) : Option Request :=
  (sscanf (got ++ List.replicate (bufSize - got.length) 0)).map RequestLine.request

/-! ## A connection -/

/-- What the `recv` calls of one call of `process_http_request` deliver: the first, and those of the
loop that discards, up to the one that fails. -/
structure Arrival where
  first : List UInt8
  discarded : List (List UInt8)
  deriving DecidableEq, Repr

/-- The connection is closed behind the answer: a page, a listing or the page for a missing file. A file
of another kind is not answered. -/
def answers (fs : FileSystem) (req : Request) : Bool :=
  match req.path with
  | none => false
  | some path =>
    match fs.stat path with
    | none => true
    | some s => s.stMode == .dir || s.stMode == .reg

/-- The requests that `process_http_request` finds in the calls for one connection. -/
def processHttpRequests (fs : FileSystem) : List Arrival → List (Option Request)
  | [] => []
  | a :: rest =>
    match request a.first with
    | none => none :: processHttpRequests fs rest
    | some req => some req :: if answers fs req then [] else processHttpRequests fs rest

/-! ## Listings -/

/-- The line that is sent for an entry of a directory; `dir` is `d_type == DT_DIR`. -/
def entryLine (dir : Bool) (dName : List UInt8) : List UInt8 :=
  if dir then str "<li><a href=" ++ dName ++ str "/ >" ++ dName ++ str "</a></li><br>"
  else str "<li><a href=" ++ dName ++ str " >" ++ dName ++ str "</a></li><br>"

end LinuxProgram.Web.Epoll
