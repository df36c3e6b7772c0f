import LinkFPGA.Proofs.RequestBuffer
import LinkFPGA.Firmware.HttpResponse

/-!
# Complete responses

A connection sends one response and is closed (`run_responses`). `send_response` gives the header
and the body to `tcp_write` one after the other and ignores its errors, so the body is sent if the
send buffer has room for both, and otherwise a header goes out that announces a body which never
comes (`response_complete_iff`).
-/

namespace LinkFPGA

open Runs

section
variable {σ : Type}

/-- A connection that is open has sent nothing, and none has sent more than one response. -/
def SendsOnce (c : HttpConn σ) : Prop :=
  c.responses.length ≤ 1 ∧ (c.arg.isSome = true → c.responses = [])

theorem recv_sends_once (routes : List (Route σ)) {c : HttpConn σ} (h : SendsOnce c)
    (e : Received) : SendsOnce (onRecv routes c e) := by
  obtain ⟨hcount, hopen⟩ := h
  cases e with
  | closed => exact ⟨hcount, fun hnone => nomatch hnone⟩
  | segment bytes =>
      cases harg : c.arg with
      | none =>
          rw [receive_closed routes harg]
          exact ⟨hcount, hopen⟩
      | some cs =>
          have hnothing : c.responses = [] := hopen (by rw [harg]; rfl)
          by_cases hroom : reqBufMax < cs.used.toNat + bytes.length
          · rw [receive_refused routes harg hroom]
            exact ⟨by simp [hnothing], fun hnone => nomatch hnone⟩
          · rw [receive_collect routes harg (Nat.not_lt.mp hroom)]
            split
            · exact ⟨hcount, fun _ => hnothing⟩
            · exact ⟨by simp [hnothing], fun hnone => nomatch hnone⟩

/-- `send_response` is called once on a connection at most, on a fresh `tcp_pcb`. -/
theorem run_responses (routes : List (Route σ)) (s : σ) (es : List Received) :
    (run (onRecv routes) (onAccept s) es).responses.length ≤ 1 := by
  have hinit : SendsOnce (onAccept s) := ⟨Nat.zero_le 1, fun _ => rfl⟩
  exact (run_invariant (motive := SendsOnce) (fun _ e h => recv_sends_once routes h e) hinit es).1

end

/-- `tcp_write` with the copy flag: a chunk is queued if there is room for all of it, and otherwise
nothing of it is, and the result is an error. -/
structure QueuesWhole (tcpWrite : TcpPcb → List UInt8 → TcpPcb × Int) : Prop where
  whole : ∀ pcb chunk, chunk.length ≤ pcb.sndBuf →
    tcpWrite pcb chunk = (⟨pcb.queued ++ chunk, pcb.sndBuf - chunk.length⟩, 0)
  nothing : ∀ pcb chunk, pcb.sndBuf < chunk.length →
    (tcpWrite pcb chunk).1 = pcb ∧ (tcpWrite pcb chunk).2 ≠ 0

section
variable {tcpWrite : TcpPcb → List UInt8 → TcpPcb × Int}

/-- The bytes of the body that `send_response` has queued on a fresh connection. -/
def bodyQueued (tcpWrite : TcpPcb → List UInt8 → TcpPcb × Int) (resp : HttpResponse) : Nat :=
  (sendHttpResponse tcpWrite .fresh resp).queued.length -
    (sendHttpHeader tcpWrite .fresh resp).queued.length

/-- The room that the header takes: its length in the 16 bits of `tcp_write`, and nothing if that
is more than there is. -/
def headerRoom (resp : HttpResponse) : Nat :=
  if (headerText resp).length % 2 ^ 16 ≤ tcpSndBuf then (headerText resp).length % 2 ^ 16 else 0

/-- A chunk has the length that `tcp_write` is given. -/
theorem chunk_length (memory : List UInt8) (len : Nat) :
    (tcpChunk memory len).length = len % 2 ^ 16 := bytes_at_length _ _ _

/-- What a call of `tcp_write` adds to the queue, and what it leaves of the room. -/
theorem write_counts (hwrite : QueuesWhole tcpWrite) (pcb : TcpPcb) (chunk : List UInt8) :
    let n := if chunk.length ≤ pcb.sndBuf then chunk.length else 0
    (tcpWrite pcb chunk).1.queued.length = pcb.queued.length + n ∧
      (tcpWrite pcb chunk).1.sndBuf = pcb.sndBuf - n := by
  intro n
  by_cases hfits : chunk.length ≤ pcb.sndBuf
  · have hn : n = chunk.length := if_pos hfits
    rw [hwrite.whole pcb chunk hfits, hn]
    exact ⟨List.length_append, rfl⟩
  · have hn : n = 0 := if_neg hfits
    rw [(hwrite.nothing pcb chunk (Nat.not_le.mp hfits)).1, hn]
    exact ⟨rfl, rfl⟩

/-- The room behind the header. -/
theorem send_header_room (hwrite : QueuesWhole tcpWrite) (resp : HttpResponse) :
    (sendHttpHeader tcpWrite .fresh resp).sndBuf = tcpSndBuf - headerRoom resp := by
  have hcounts := write_counts hwrite .fresh
    (tcpChunk (CString.snprintf hdrBufMax (headerText resp)).1 (headerText resp).length)
  rw [chunk_length] at hcounts
  exact hcounts.2

/-- How much of a body is queued: all of it or nothing, of a length cut to 16 bits. -/
theorem body_queued_eq (hwrite : QueuesWhole tcpWrite) (resp : HttpResponse) :
    bodyQueued tcpWrite resp =
      if resp.bodyLen.toNat % 2 ^ 16 ≤ tcpSndBuf - headerRoom resp then resp.bodyLen.toNat % 2 ^ 16
      else 0 := by
  unfold bodyQueued sendHttpResponse
  by_cases hbody : resp.bodyLen = 0
  · simp [hbody]
  · have hcounts := write_counts hwrite (sendHttpHeader tcpWrite .fresh resp)
      (tcpChunk resp.body resp.bodyLen.toNat)
    rw [chunk_length, send_header_room hwrite] at hcounts
    dsimp only at hcounts ⊢
    rw [if_pos hbody, hcounts.1, Nat.add_sub_cancel_left]

/-- Of a body as much is queued as the response announces if and only if there is no body, or the
send buffer has room for the header and the whole body. -/
theorem response_complete_iff (hwrite : QueuesWhole tcpWrite) (resp : HttpResponse) :
    bodyQueued tcpWrite resp = resp.bodyLen.toNat ↔
      resp.bodyLen = 0 ∨ headerRoom resp + resp.bodyLen.toNat ≤ tcpSndBuf := by
  have hheader : headerRoom resp ≤ tcpSndBuf := by
    unfold headerRoom
    split
    · assumption
    · exact Nat.zero_le _
  have hsnd : tcpSndBuf = 1072 := rfl
  have hempty : resp.bodyLen = 0 ↔ resp.bodyLen.toNat = 0 := UInt32.toNat_inj.symm
  rw [body_queued_eq hwrite, hempty]
  split <;> omega

end

/-- `tcp_write` as far as it is promised. -/
def queueWhole (pcb : TcpPcb) (chunk : List UInt8) : TcpPcb × Int :=
  if chunk.length ≤ pcb.sndBuf then (⟨pcb.queued ++ chunk, pcb.sndBuf - chunk.length⟩, 0)
  else (pcb, -1)

theorem queue_whole : QueuesWhole queueWhole where
  whole pcb chunk h := if_pos h
  nothing pcb chunk h := by
    unfold queueWhole
    rw [if_neg (Nat.not_le.mpr h)]
    exact ⟨rfl, show (-1 : Int) ≠ 0 by decide⟩

/-- The answer of most routes. -/
def okResponse : HttpResponse where
  status := 200
  contentType := some "application/json"
  body := "\x7b\"ok\":true\x7d".toUTF8.toList
  bodyLen := 11

theorem response_complete_ok : bodyQueued queueWhole okResponse = 11 :=
  (response_complete_iff queue_whole okResponse).mpr (.inr (by decide +kernel))

/-- The answer of `serve_index`, with a blank page as long as the one there is. -/
def indexResponse : HttpResponse where
  status := 200
  contentType := some "text/html; charset=utf-8"
  body := List.replicate 4216 0x20
  bodyLen := 4216

/-- The header announces 4216 bytes and none of them is queued. -/
theorem index_page_not_sent :
    ¬ ∀ tcpWrite, QueuesWhole tcpWrite →
      bodyQueued tcpWrite indexResponse = indexResponse.bodyLen.toNat := by
  intro hall
  have hsent := hall queueWhole queue_whole
  rw [body_queued_eq queue_whole] at hsent
  exact absurd hsent (by decide +kernel)

end LinkFPGA
