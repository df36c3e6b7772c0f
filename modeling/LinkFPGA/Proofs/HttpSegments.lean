import LinkFPGA.Library.Runs
import LinkFPGA.Firmware.HttpServer

/-!
# A request in segments

What a connection holds after a part of a request is a function of that part (`received`), however
it was cut into segments: headers are parsed when their end is there, and the body bytes that came
with it do not change what `parse_headers` computes (`find_content_length_append`). The request is
complete with its last byte and not before (`request_complete_iff`), so it is dispatched once, as
a whole (`segmentation_independent`).
-/

namespace LinkFPGA

open Runs

/-- A header block: it ends at its first empty line, and has no NUL. Nothing is asked of its
colons. -/
structure HeaderBlock (header : List UInt8) : Prop where
  ends : ∃ eol, CString.strstr crlfcrlf header = some eol ∧ header.length = eol + 4
  noNul : 0 ∉ header

/-- The `content_length` that `parse_headers` computes when the buffer holds a header block and
nothing else. -/
def announcedLength (header : List UInt8) : Int32 :=
  (parseHeaders (ConnState.zero.append header)).contentLength

/-- A header block and as many bytes as it announces, in less than the whole buffer. -/
structure IsHttpRequest (header body : List UInt8) : Prop where
  block : HeaderBlock header
  announced : (announcedLength header).toInt = body.length
  fits : header.length + body.length ≤ 4095

/-- The state of a connection that has received `x`, which starts with the header block or is a
part of it. -/
def received (header x : List UInt8) : ConnState where
  buf := x ++ List.replicate (reqBufMax - x.length) 0
  used := .ofNat x.length
  haveHeaders := decide (header.length ≤ x.length)
  contentLength := if header.length ≤ x.length then announcedLength header else 0
  bodyOffset := if header.length ≤ x.length then .ofNat header.length else 0

/-! ## Content-Length -/

/-- Neither spelling has a line end in it. -/
theorem names_content_length_append {s : List UInt8} (hcr : 13 ∈ s) (t : List UInt8) :
    namesContentLength (s ++ t) = namesContentLength s := by
  unfold namesContentLength
  rw [CString.is_prefix_append hcr (by decide), CString.is_prefix_append hcr (by decide)]
  cases s with
  | nil => cases hcr
  | cons b s => rfl

/-- The end of a header block is in the string it ends. -/
theorem find_content_length_append {eol : Nat} {v : List UInt8} (hlen : v.length = eol)
    (hfound : findContentLength eol (v ++ crlfcrlf) ≠ 0) (t : List UInt8) :
    findContentLength eol (v ++ crlfcrlf ++ t) = findContentLength eol (v ++ crlfcrlf) := by
  induction eol generalizing v with
  | zero => rfl
  | succ eol ih =>
      obtain ⟨b, v, rfl⟩ := List.exists_cons_of_length_eq_add_one hlen
      have hcr : (13 : UInt8) ∈ b :: v ++ crlfcrlf :=
        List.mem_append_right _ List.mem_cons_self
      unfold findContentLength at hfound ⊢
      rw [names_content_length_append hcr]
      by_cases hname : namesContentLength (b :: v ++ crlfcrlf) = true
      · rw [if_pos hname] at hfound ⊢
        rw [if_pos hname]
        cases hcolon : CString.strchr (b :: v ++ crlfcrlf) 0x3A with
        | none =>
            rw [hcolon] at hfound
            exact absurd rfl hfound
        | some colon =>
            have hsame : CString.strchr (b :: v ++ crlfcrlf ++ t) 0x3A = some colon := by
              unfold CString.strchr at hcolon ⊢
              rw [List.findIdx?_append, hcolon]
              rfl
            rw [hcolon] at hfound
            rw [hsame]
            dsimp only at hfound ⊢
            by_cases hinside : colon < eol + 1
            · rw [if_pos hinside] at hfound ⊢
              rw [if_pos hinside]
              -- the number starts before the line end, and so it ends before it
              have hrest : (b :: v ++ crlfcrlf).drop (colon + 1) =
                  ((b :: v).drop (colon + 1) ++ [13, 10, 13]) ++ [10] := by
                rw [List.drop_append_of_le_length (by omega), List.append_assoc]
                rfl
              rw [hrest] at hfound
              rw [List.drop_append_of_le_length (by rw [List.length_append]; omega), hrest]
              exact CString.atoi_append hfound t
            · rw [if_neg hinside] at hfound
              exact absurd rfl hfound
      · rw [if_neg hname] at hfound ⊢
        rw [if_neg hname]
        exact ih (Nat.succ.inj hlen) hfound

/-- What `parse_headers` finds when the header block is followed by `rest`. -/
theorem parse_headers_block {header rest : List UInt8} {eol : Nat}
    (hends : CString.strstr crlfcrlf header = some eol) (hnul : 0 ∉ header) {cs : ConnState}
    (hterminated : cs.buf.set cs.used.toNat 0 = cs.buf) (hbuf : cs.buf = header ++ rest) :
    parseHeaders cs = { cs with
      haveHeaders := true
      bodyOffset := .ofNat (eol + 4)
      contentLength := findContentLength eol (header ++ CString.text rest) } := by
  have htext : CString.text cs.buf = header ++ CString.text rest := by
    rw [hbuf, CString.text_append hnul]
  unfold parseHeaders
  dsimp only
  rw [hterminated, htext, CString.strstr_append hends]

/-- `parse_headers` finds nothing in a part of the header block. -/
theorem parse_headers_part {header x y rest : List UInt8} {eol : Nat}
    (hends : CString.strstr crlfcrlf header = some eol) (hlen : header.length = eol + 4)
    (hnul : 0 ∉ header) (hx : header = x ++ y) (hshort : x.length < header.length)
    {cs : ConnState} (hterminated : cs.buf.set cs.used.toNat 0 = cs.buf)
    (hbuf : cs.buf = x ++ rest) (hrest : CString.text rest = []) : parseHeaders cs = cs := by
  have hnul' : 0 ∉ x := fun hmem => hnul (hx ▸ List.mem_append_left y hmem)
  have htext : CString.text cs.buf = x := by
    rw [hbuf, CString.text_append hnul', hrest, List.append_nil]
  have hnone : CString.strstr crlfcrlf x = none :=
    CString.strstr_none (hx ▸ hends) (show x.length < eol + 4 by omega)
  unfold parseHeaders
  dsimp only
  rw [hterminated, htext, hnone]

/-- The buffer behind a request is free. -/
theorem text_free (n : Nat) : CString.text (List.replicate n 0) = [] := by
  cases n <;> rfl

/-- Storing the terminator behind what was received changes nothing. -/
theorem terminate_received {x : List UInt8} (h : x.length ≤ 4095) :
    (x ++ List.replicate (reqBufMax - x.length) 0).set (UInt32.ofNat x.length).toNat 0 =
      x ++ List.replicate (reqBufMax - x.length) 0 := by
  have hused : (UInt32.ofNat x.length).toNat = x.length :=
    UInt32.toNat_ofNat_of_lt' (show x.length < 2 ^ 32 by omega)
  have hfree : reqBufMax - x.length = (reqBufMax - x.length - 1) + 1 := by
    have hmax : reqBufMax = 4096 := rfl
    omega
  rw [hused, List.set_append_right _ _ (Nat.le_refl _), Nat.sub_self, hfree, List.replicate_succ,
    List.set_cons_zero]

/-- The segment goes behind what was received. -/
theorem append_received {header x seg : List UInt8} (h : x.length + seg.length ≤ 4095) :
    (received header x).append seg = { received header x with
      buf := x ++ seg ++ List.replicate (reqBufMax - (x ++ seg).length) 0
      used := .ofNat (x ++ seg).length } := by
  have hused : (received header x).used.toNat = x.length :=
    UInt32.toNat_ofNat_of_lt' (show x.length < 2 ^ 32 by omega)
  have hmax : reqBufMax = 4096 := rfl
  unfold ConnState.append
  rw [hused]
  have hbuf : (received header x).buf = x ++ List.replicate (reqBufMax - x.length) 0 := rfl
  have hcount : (received header x).used + .ofNat seg.length = .ofNat (x ++ seg).length := by
    rw [List.length_append, UInt32.ofNat_add]
    rfl
  have hbehind : (x ++ List.replicate (reqBufMax - x.length) (0 : UInt8)).drop
      (x.length + seg.length) = List.replicate (reqBufMax - (x ++ seg).length) 0 := by
    rw [← List.drop_drop, List.drop_left, List.drop_replicate, List.length_append, Nat.sub_sub]
  rw [hbuf, hcount, List.take_left, hbehind]

section
variable {header body : List UInt8}

/-- What was received before the headers are parsed. -/
def unparsed (x : List UInt8) : ConnState where
  buf := x ++ List.replicate (reqBufMax - x.length) 0
  used := .ofNat x.length
  haveHeaders := false
  contentLength := 0
  bodyOffset := 0

/-- The length a header block announces. -/
theorem announced_length_eq (hnul : 0 ∉ header) (hfits : header.length ≤ 4095) {eol : Nat}
    (hends : CString.strstr crlfcrlf header = some eol) :
    announcedLength header = findContentLength eol header := by
  have happend : ConnState.zero.append header = unparsed header := by
    unfold ConnState.append ConnState.zero unparsed
    have hzero : (0 : UInt32).toNat = 0 := rfl
    dsimp only
    rw [hzero, List.take_zero, List.nil_append, Nat.zero_add, List.drop_replicate, UInt32.zero_add]
  have hparse := parse_headers_block hends hnul (terminate_received hfits)
    (show (unparsed header).buf = header ++ List.replicate (reqBufMax - header.length) 0 from rfl)
  unfold announcedLength
  rw [happend, hparse, text_free, List.append_nil]

/-- Parsing what was received of a request. -/
theorem parse_received (h : IsHttpRequest header body) {x : List UInt8}
    (hx : x <+: header ++ body) :
    parseHeaders (unparsed x) = received header x := by
  obtain ⟨eol, hends, hlen⟩ := h.block.ends
  have hfits := h.fits
  have hxlen := hx.length_le
  rw [List.length_append] at hxlen
  have hterminated := terminate_received (show x.length ≤ 4095 by omega)
  have hannounced := announced_length_eq h.block.noNul (by omega) hends
  by_cases hshort : x.length < header.length
  · -- the empty line is not there yet, though its first bytes may be
    obtain ⟨y, hy⟩ := List.prefix_of_prefix_length_le hx (List.prefix_append header body) hshort.le
    rw [parse_headers_part hends hlen h.block.noNul hy.symm hshort hterminated rfl (text_free _)]
    have hpart : ¬ header.length ≤ x.length := Nat.not_le.mpr hshort
    simp only [unparsed, received, hpart, decide_false, if_false]
  · have hwhole : header.length ≤ x.length := Nat.not_lt.mp hshort
    obtain ⟨part, rfl⟩ := List.prefix_of_prefix_length_le (List.prefix_append header body) hx hwhole
    have hpart : part <+: body := (List.prefix_append_right_inj header).mp hx
    have hbuf : (unparsed (header ++ part)).buf =
        header ++ (part ++ List.replicate (reqBufMax - (header ++ part).length) 0) :=
      List.append_assoc _ _ _
    have hfind (t : List UInt8) (ht : body = [] → t = []) :
        findContentLength eol (header ++ t) = findContentLength eol header := by
      by_cases hzero : findContentLength eol header = 0
      · have hbody : body.length = 0 := by
          have hcount := h.announced
          rw [hannounced, hzero] at hcount
          exact Int.ofNat_inj.mp hcount.symm
        rw [ht (List.length_eq_zero_iff.mp hbody), List.append_nil]
      · have hsplit : header = header.take eol ++ crlfcrlf := by
          have htail : crlfcrlf = header.drop eol :=
            (CString.strstr_prefix hends).eq_of_length (by
              rw [List.length_drop, hlen, Nat.add_sub_cancel_left]
              rfl)
          rw [htail, List.take_append_drop]
        have hv : (header.take eol).length = eol := by
          rw [List.length_take]
          omega
        rw [hsplit] at hzero ⊢
        rw [find_content_length_append hv hzero]
    have htext (hbody : body = []) : CString.text
        (part ++ List.replicate (reqBufMax - (header ++ part).length) 0) = [] := by
      rw [hbody, List.prefix_nil] at hpart
      rw [hpart]
      exact text_free _
    rw [parse_headers_block hends h.block.noNul hterminated hbuf, hfind _ htext, ← hannounced]
    rw [← hlen]
    simp only [unparsed, received, hwhole, decide_true, if_true]

/-- `(size_t)content_length` is the length of the body. -/
theorem announced_count (h : IsHttpRequest header body) :
    (announcedLength header).toUInt32.toNat = body.length := by
  have hpos : 0 ≤ announcedLength header := by
    rw [Int32.le_iff_toInt_le, h.announced]
    exact Int.natCast_nonneg _
  rw [← Int32.toNat_toBitVec, Int32.toNat_toBitVec_of_le hpos, ← Int32.toNat_toInt, h.announced,
    Int.toNat_natCast]

/-- What was received of a request is complete when it is all of it. -/
theorem request_complete_iff (h : IsHttpRequest header body) {x : List UInt8}
    (hx : x <+: header ++ body) :
    requestComplete (received header x) = true ↔ x = header ++ body := by
  have hfits := h.fits
  have hxlen := hx.length_le
  have hall : x = header ++ body ↔ header.length + body.length ≤ x.length := by
    constructor
    · rintro rfl
      rw [List.length_append]
    · intro hlen
      rw [List.length_append] at hxlen
      exact hx.eq_of_length (by rw [List.length_append]; omega)
  rw [List.length_append] at hxlen
  rw [hall]
  unfold requestComplete received
  dsimp only
  by_cases hwhole : header.length ≤ x.length
  · simp only [hwhole, decide_true, Bool.not_true, Bool.false_eq_true, if_false, if_true]
    have hcount := announced_count h
    by_cases hzero : announcedLength header = 0
    · have hbody : body.length = 0 := by
        rw [← hcount, hzero]
        rfl
      rw [if_pos hzero]
      exact iff_of_true rfl (by omega)
    · have hend : (UInt32.ofNat header.length + (announcedLength header).toUInt32).toNat =
          header.length + body.length := by
        rw [UInt32.toNat_add, hcount, UInt32.toNat_ofNat_of_lt' (show _ < 2 ^ 32 by omega)]
        exact Nat.mod_eq_of_lt (by omega)
      rw [if_neg hzero, decide_eq_true_iff, UInt32.le_iff_toNat_le, hend,
        UInt32.toNat_ofNat_of_lt' (show x.length < 2 ^ 32 by omega)]
  · simp only [hwhole, decide_false, Bool.not_false, if_true, Bool.false_eq_true, false_iff]
    omega

/-! ## Segments -/

/-- The state after one more segment, headers parsed if their end is there now. -/
theorem collect_received (h : IsHttpRequest header body) {x seg : List UInt8}
    (hx : x ++ seg <+: header ++ body) :
    (if !((received header x).append seg).haveHeaders then
        parseHeaders ((received header x).append seg)
      else (received header x).append seg) = received header (x ++ seg) := by
  have hfits := h.fits
  have hlen := hx.length_le
  rw [List.length_append, List.length_append] at hlen
  rw [append_received (show x.length + seg.length ≤ 4095 by omega)]
  by_cases hparsed : header.length ≤ x.length
  · have hstill : header.length ≤ (x ++ seg).length := by
      rw [List.length_append]
      omega
    simp only [received, hparsed, hstill, decide_true, Bool.not_true, Bool.false_eq_true, if_false,
      if_true]
  · have hparse := parse_received h hx
    simp only [received, hparsed, decide_false, Bool.not_false, if_true, if_false] at hparse ⊢
    exact hparse

variable {σ : Type} (routes : List (Route σ)) (s : σ)

/-- A connection that has received `x` and dispatched nothing. -/
def collecting (header x : List UInt8) (s : σ) : HttpConn σ where
  arg := some (received header x)
  state := s
  dispatched := []
  responses := []

/-- A connection that has dispatched the request. -/
def answered (header body : List UInt8) : HttpConn σ where
  arg := none
  state := (dispatch routes (received header (header ++ body)) s).2
  dispatched := [readRequest (received header (header ++ body))]
  responses := [(dispatch routes (received header (header ++ body)) s).1]

/-- An accepted connection has received nothing. -/
theorem accept_collecting (hheader : 0 < header.length) : onAccept s = collecting header [] s := by
  have hnone : ¬ header.length ≤ ([] : List UInt8).length := Nat.not_le.mpr hheader
  unfold onAccept collecting received
  rw [if_neg hnone, if_neg hnone, decide_eq_false hnone]
  rfl

/-- The segment that completes the request has it dispatched, another one is collected. -/
theorem receive_segment (h : IsHttpRequest header body) {x seg : List UInt8}
    (hx : x ++ seg <+: header ++ body) :
    onRecv routes (collecting header x s) (.segment seg) =
      if x ++ seg = header ++ body then answered routes s header body
      else collecting header (x ++ seg) s := by
  have hfits := h.fits
  have hlen := hx.length_le
  rw [List.length_append, List.length_append] at hlen
  have hused : (received header x).used.toNat = x.length :=
    UInt32.toNat_ofNat_of_lt' (show x.length < 2 ^ 32 by omega)
  have hmax : reqBufMax = 4096 := rfl
  have hroom : ¬ reqBufMax < (received header x).used.toNat + seg.length := by omega
  have hcomplete := request_complete_iff h hx
  unfold onRecv collecting
  dsimp only
  rw [if_neg hroom, collect_received h hx]
  by_cases hlast : x ++ seg = header ++ body
  · rw [hcomplete.mpr hlast, if_pos hlast, hlast]
    rfl
  · rw [Bool.eq_false_iff.mpr fun hdone => hlast (hcomplete.mp hdone), if_neg hlast]
    rfl

/-- Segments that do not complete the request are collected. -/
theorem receive_part (h : IsHttpRequest header body) {x rest : List UInt8}
    {segments : List (List UInt8)} (hx : x ++ segments.flatten ++ rest = header ++ body)
    (hrest : rest ≠ []) :
    run (onRecv routes) (collecting header x s) (segments.map .segment) =
      collecting header (x ++ segments.flatten) s := by
  induction segments generalizing x with
  | nil => rw [List.map_nil, run_nil, List.flatten_nil, List.append_nil]
  | cons seg segments ih =>
      rw [List.flatten_cons, ← List.append_assoc] at hx ⊢
      have hprefix : x ++ seg <+: header ++ body := by
        rw [← hx, List.append_assoc]
        exact List.prefix_append _ _
      have hnot : x ++ seg ≠ header ++ body := by
        rw [← hx, List.append_assoc]
        intro hall
        have hempty := List.self_eq_append_right.mp hall
        exact hrest (List.append_eq_nil_iff.mp hempty).2
      rw [List.map_cons, run_cons, receive_segment routes s h hprefix, if_neg hnot]
      exact ih hx

/-- A request that arrives in segments, however it is cut: before the last segment nothing has
been dispatched and the connection is open, and after it the request has been dispatched once. The
method, the path, the body and its length, the response and what the handler did depend on the
request alone, and the body that is passed on is the body of the request. -/
theorem segmentation_independent (h : IsHttpRequest header body) {segments : List (List UInt8)}
    (hnonempty : ∀ seg ∈ segments, seg ≠ []) (hjoin : segments.flatten = header ++ body) :
    (∀ first rest, segments = first ++ rest → rest ≠ [] →
      run (onRecv routes) (onAccept s) (first.map .segment) =
        collecting header first.flatten s) ∧
    run (onRecv routes) (onAccept s) (segments.map .segment) = answered routes s header body ∧
    ∀ r, readRequest (received header (header ++ body)) = some r →
      r.bodyLen.toNat = body.length ∧ r.body.take body.length = body := by
  obtain ⟨eol, hends, hlen⟩ := h.block.ends
  have hfits := h.fits
  rw [accept_collecting s (show 0 < header.length by omega)]
  refine ⟨fun first rest hsplit hrest => ?_, ?_, fun r hr => ?_⟩
  · obtain ⟨seg, rest, rfl⟩ := List.exists_cons_of_ne_nil hrest
    have hseg : seg ≠ [] := hnonempty seg (by rw [hsplit]; simp)
    rw [hsplit, List.flatten_append] at hjoin
    have hmore : (seg :: rest).flatten ≠ [] := by
      rw [List.flatten_cons]
      exact fun hempty => hseg (List.append_eq_nil_iff.mp hempty).1
    exact receive_part routes s h hjoin hmore
  · rcases List.eq_nil_or_concat segments with rfl | ⟨first, last, rfl⟩
    · have hempty := congrArg List.length hjoin
      rw [List.length_append, List.flatten_nil, List.length_nil] at hempty
      omega
    · have hlast : last ≠ [] := hnonempty last (by simp)
      rw [List.concat_eq_append, List.flatten_append, List.flatten_singleton] at hjoin
      have hcollected : run (onRecv routes) (collecting header [] s) (first.map .segment) =
          collecting header first.flatten s := receive_part routes s h hjoin hlast
      have hprefix : first.flatten ++ last <+: header ++ body := hjoin ▸ List.prefix_rfl
      rw [List.concat_eq_append, List.map_append, run_append, hcollected, List.map_singleton,
        run_cons, run_nil, receive_segment routes s h hprefix, if_pos hjoin]
  · unfold readRequest at hr
    dsimp only at hr
    split at hr
    · cases hr
    · obtain rfl := Option.some.inj hr
      have hwhole : header.length ≤ (header ++ body).length := by
        rw [List.length_append]
        omega
      have hoffset : (received header (header ++ body)).bodyOffset.toNat = header.length := by
        unfold received
        dsimp only
        rw [if_pos hwhole]
        exact UInt32.toNat_ofNat_of_lt' (show _ < 2 ^ 32 by omega)
      have hlength : (received header (header ++ body)).contentLength = announcedLength header :=
        if_pos hwhole
      have hbuf : (received header (header ++ body)).buf = header ++ (body ++
          List.replicate (reqBufMax - (header ++ body).length) 0) := List.append_assoc _ _ _
      dsimp only
      rw [hoffset, hlength, hbuf, List.drop_left, List.take_left]
      exact ⟨announced_count h, rfl⟩

end

/-- `POST /api/name HTTP/1.0` with the length of its body, and the empty line. -/
def nameHeader : List UInt8 :=
  "POST /api/name HTTP/1.0\r\nContent-Length: 5\r\n\r\n".toUTF8.toList

def nameBody : List UInt8 := "stage".toUTF8.toList

/-- The server with one route, whose handler keeps the body. -/
def nameRoutes : List (Route (List UInt8)) :=
  httpRoute ⟨"POST".toUTF8.toList, "/api/name".toUTF8.toList,
    fun _ body bodyLen resp _ => (resp, body.take bodyLen.toNat)⟩ []

/-- The request cut inside the name of the header, inside the empty line and inside the body. -/
theorem segmentation_independent_name :
    run (onRecv nameRoutes) (onAccept [])
        ([nameHeader.take 30, (nameHeader.drop 30).take 15,
          nameHeader.drop 45 ++ nameBody.take 2, nameBody.drop 2].map .segment) =
      answered nameRoutes [] nameHeader nameBody :=
  have hrequest : IsHttpRequest nameHeader nameBody :=
    ⟨⟨⟨42, by decide +kernel, by decide +kernel⟩, by decide +kernel⟩, by decide +kernel,
      by decide +kernel⟩
  (segmentation_independent nameRoutes [] hrequest (by decide +kernel) (by decide +kernel)).2.1

end LinkFPGA
