import LinkFPGA.Firmware.HttpServer

/-!
# Responses (`http_server.c`)

`send_response`: the header, and then the body, each handed to `tcp_write`, which is a parameter.
Of a `tcp_pcb` there are the bytes queued for sending and the room that is left for more.
-/

namespace LinkFPGA

def hdrBufMax : Nat := 256

/-- `TCP_SND_BUF`, two segments. -/
def tcpSndBuf : Nat := 2 * 536

structure TcpPcb where
  queued : List UInt8
  sndBuf : Nat
  deriving DecidableEq, Repr

/-- A fresh connection. -/
def TcpPcb.fresh : TcpPcb where
  queued := []
  sndBuf := tcpSndBuf

/-- `reason`. -/
def reason : Int → String
  | 200 => "OK"
  | 400 => "Bad Request"
  | 404 => "Not Found"
  | 413 => "Payload Too Large"
  | 500 => "Internal Server Error"
  | _ => "Error"

/-- What `send_response` formats. -/
def headerText (resp : HttpResponse) : List UInt8 :=
  ("HTTP/1.0 " ++ toString resp.status ++ " " ++ reason resp.status ++ "\r\n" ++
    "Server: LinkFPGA\r\n" ++
    "Content-Type: " ++ resp.contentType.getD "text/plain" ++ "\r\n" ++
    "Content-Length: " ++ toString resp.bodyLen.toNat ++ "\r\n" ++
    "Connection: close\r\n" ++
    "Access-Control-Allow-Origin: *\r\n" ++
    "\r\n").toUTF8.toList

/-- The bytes a call of `tcp_write` is about. Its length has 16 bits. -/
def tcpChunk (memory : List UInt8) (len : Nat) : List UInt8 :=
  bytesAt (memOf memory) 0 (len % 2 ^ 16)

variable (tcpWrite : TcpPcb → List UInt8 → TcpPcb × Int)

/-- The first half of `send_response`. `hlen` is the length of the whole header, also when `hdr` has
no room for it. The error of `tcp_write` is ignored. -/
def sendHttpHeader (pcb : TcpPcb) (resp : HttpResponse) : TcpPcb :=
  let (hdr, hlen) := CString.snprintf hdrBufMax (headerText resp)
  (tcpWrite pcb (tcpChunk hdr hlen)).1

/-- `send_response`. -/
def sendHttpResponse (pcb : TcpPcb) (resp : HttpResponse) : TcpPcb :=
  let pcb := sendHttpHeader tcpWrite pcb resp
  if resp.bodyLen ≠ 0 then (tcpWrite pcb (tcpChunk resp.body resp.bodyLen.toNat)).1 else pcb

end LinkFPGA
