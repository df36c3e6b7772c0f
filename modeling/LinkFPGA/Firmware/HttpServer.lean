import LinkFPGA.Library.CString
import LinkFPGA.Library.Sessions
import LinkFPGA.Firmware.Memory

/-!
# The HTTP server (`http_server.c`)

A connection, from `on_accept` to `tcp_close`, and a server of any number of them. `on_recv`
collects segments in the request buffer, `parse_headers` looks for the end of the headers and for
`Content-Length`, and `dispatch` reads the request line and calls a route. A handler may do
anything to the rest of the firmware, which is a type parameter. `send_response` is in
`HttpResponse.lean`.
-/

namespace LinkFPGA

def maxRoutes : Nat := 16
def reqBufMax : Nat := 4096

/-! ## Routes -/

/-- `http_response_t`. `body` is the memory the pointer leads to; `body_len` of it are sent. -/
structure HttpResponse where
  status : Int
  /-- `none` is `NULL`. -/
  contentType : Option String
  body : List UInt8
  bodyLen : UInt32
  deriving DecidableEq, Repr

/-- A text. -/
def HttpResponse.plain (status : Int) (body : String) : HttpResponse where
  status := status
  contentType := some "text/plain"
  body := body.toUTF8.toList
  bodyLen := .ofNat body.toUTF8.size

/-- `route_t`. A handler is given the path, the memory at `body`, `body_len` and the response to
fill in. -/
structure Route (σ : Type) where
  method : List UInt8
  path : List UInt8
  fn : List UInt8 → List UInt8 → UInt32 → HttpResponse → σ → HttpResponse × σ

/-- `http_route`, on the routes there are. -/
def httpRoute {σ : Type} (route : Route σ) (routes : List (Route σ)) : List (Route σ) :=
  if maxRoutes ≤ routes.length then routes
  else routes ++ [{ route with
    method := route.method.take 7
    path := route.path.take 63 }]

/-! ## Headers -/

/-- `conn_state_t`. -/
structure ConnState where
  buf : List UInt8
  used : UInt32
  haveHeaders : Bool
  contentLength : Int32
  bodyOffset : UInt32
  deriving DecidableEq, Repr

/-- `calloc(1, sizeof(conn_state_t))`. -/
def ConnState.zero : ConnState where
  buf := List.replicate reqBufMax 0
  used := 0
  haveHeaders := false
  contentLength := 0
  bodyOffset := 0

/-- `"\r\n\r\n"`. -/
def crlfcrlf : List UInt8 := [13, 10, 13, 10]

/-- `"Content-Length"`. -/
def contentLengthName : List UInt8 :=
  [0x43, 0x6F, 0x6E, 0x74, 0x65, 0x6E, 0x74, 0x2D, 0x4C, 0x65, 0x6E, 0x67, 0x74, 0x68]

/-- `"content-length"`. -/
def contentLengthLower : List UInt8 :=
  [0x63, 0x6F, 0x6E, 0x74, 0x65, 0x6E, 0x74, 0x2D, 0x6C, 0x65, 0x6E, 0x67, 0x74, 0x68]

/-- The condition of the loop in `parse_headers`, on the string at `p`. `&&` binds tighter than
`||`. -/
def namesContentLength (p : List UInt8) : Bool :=
  (p.head? = some 0x43 || p.head? = some 0x63) && contentLengthName.isPrefixOf p ||
    contentLengthLower.isPrefixOf p

/-- The loop of `parse_headers`: `eol` is the distance from `p` to the end of the headers. -/
def findContentLength : Nat → List UInt8 → Int32
  | 0, _ => 0
  | eol + 1, p =>
      if namesContentLength p then
        match CString.strchr p 0x3A with
        | none => 0
        | some colon =>
            -- `colon && colon < eol`; the search itself goes on past the line
            if colon < eol + 1 then CString.atoi (p.drop (colon + 1)) else 0
      else findContentLength eol p.tail

/-- `parse_headers`. The terminator of a full buffer is stored behind it, in the low byte of
`used`, which is 0 then. -/
def parseHeaders (cs : ConnState) : ConnState :=
  let cs := { cs with buf := cs.buf.set cs.used.toNat 0 }
  match CString.strstr crlfcrlf (CString.text cs.buf) with
  | none => cs
  | some eol =>
      { cs with
        haveHeaders := true
        bodyOffset := .ofNat (eol + 4)
        contentLength := findContentLength eol (CString.text cs.buf) }

/-- `request_complete`. -/
def requestComplete (cs : ConnState) : Bool :=
  if !cs.haveHeaders then false
  else if cs.contentLength = 0 then true
  else decide (cs.bodyOffset + cs.contentLength.toUInt32 ≤ cs.used)

/-! ## Dispatch -/

/-- What `dispatch` passes on: the method and the path of the request line, the memory at `body`
and `body_len`. -/
structure HttpRequest where
  method : List UInt8
  path : List UInt8
  body : List UInt8
  bodyLen : UInt32
  deriving DecidableEq, Repr

/-- The two loops of `dispatch`: the characters up to a space or a NUL, but no more than `max`. -/
def token (max : Nat) (s : List UInt8) : List UInt8 :=
  (s.take max).takeWhile fun b => b ≠ 0 && b ≠ 0x20

/-- The part of `dispatch` that reads the request; `none` is a bad request line. -/
def readRequest (cs : ConnState) : Option HttpRequest :=
  let method := token 7 cs.buf
  if byteAt cs.buf method.length ≠ 0x20 then none
  else
    some {
      method := method
      path := token 63 (cs.buf.drop (method.length + 1))
      body := cs.buf.drop cs.bodyOffset.toNat
      bodyLen := cs.contentLength.toUInt32 }

/-- `dispatch`: the response, and what the handler has done. -/
def dispatch {σ : Type} (routes : List (Route σ)) (cs : ConnState) (s : σ) : HttpResponse × σ :=
  match readRequest cs with
  | none => (.plain 400 "bad", s)
  | some r =>
      match routes.find? fun route => route.method = r.method && route.path = r.path with
      | none => (.plain 404 "not found", s)
      | some route => route.fn r.path r.body r.bodyLen (.plain 200 "") s

/-! ## A connection -/

/-- What lwIP calls `on_recv` with. -/
inductive Received where
  /-- A chain of `pbuf`s with these bytes. -/
  | segment (bytes : List UInt8)
  /-- An error, or `p == NULL`. -/
  | closed
  deriving DecidableEq, Repr

/-- A connection: the argument of its callback, which is `NULL` once it is closed, and the rest of
the firmware. -/
structure HttpConn (σ : Type) where
  arg : Option ConnState
  state : σ
  /-- The calls of `dispatch` so far, by what it read. -/
  dispatched : List (Option HttpRequest)
  /-- The calls of `send_response` so far. -/
  responses : List HttpResponse

/-- `on_accept`. -/
def onAccept {σ : Type} (s : σ) : HttpConn σ where
  arg := some .zero
  state := s
  dispatched := []
  responses := []

/-- `pbuf_copy_partial` to the end of the request, and the count. -/
def ConnState.append (bytes : List UInt8) (cs : ConnState) : ConnState :=
  { cs with
    buf := cs.buf.take cs.used.toNat ++ bytes ++ cs.buf.drop (cs.used.toNat + bytes.length)
    used := cs.used + .ofNat bytes.length }

/-- `on_recv`. `tot_len` has 16 bits, so the sum with `used` is exact. A closed connection gets no
more calls. -/
def onRecv {σ : Type} (routes : List (Route σ)) (c : HttpConn σ) : Received → HttpConn σ
  | .closed => { c with arg := none }
  | .segment bytes =>
      match c.arg with
      | none => c
      | some cs =>
          if reqBufMax < cs.used.toNat + bytes.length then
            { c with
              arg := none
              responses := c.responses ++ [.plain 413 "too large"] }
          else
            let cs := cs.append bytes
            let cs := if !cs.haveHeaders then parseHeaders cs else cs
            if !requestComplete cs then { c with arg := some cs }
            else
              let r := dispatch routes cs c.state
              { arg := none
                state := r.2
                dispatched := c.dispatched ++ [readRequest cs]
                responses := c.responses ++ [r.1] }

/-! ## All connections -/

/-- What `on_recv` makes of a connection that is open: whether it still is, the rest of the
firmware, and the responses sent. -/
def recvSegment {σ : Type} (routes : List (Route σ)) (cs : ConnState) (bytes : List UInt8) (s : σ) :
    Sessions.Taken ConnState σ HttpResponse :=
  let c := onRecv routes ⟨some cs, s, [], []⟩ (.segment bytes)
  (c.arg, c.state, c.responses)

/-- The connections, by a name for each; each has a `conn_state_t` of its own. -/
abbrev httpServe {κ σ : Type} [DecidableEq κ] (routes : List (Route σ)) :
    Sessions.Server κ ConnState σ HttpResponse → Sessions.Event κ UInt8 σ →
      Sessions.Server κ ConnState σ HttpResponse :=
  Sessions.serve (fun _ => .zero) fun _ => recvSegment routes

end LinkFPGA
