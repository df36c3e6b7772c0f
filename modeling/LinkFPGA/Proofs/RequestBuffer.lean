import LinkFPGA.Proofs.HttpSegments

/-!
# The request buffer

Where `on_recv` stores what it receives, and which part of the buffer `dispatch` passes on. The
copy stays inside the buffer, but the terminator of `parse_headers` goes behind it when the buffer
is exactly full and the end of the headers has not been recognised before
(`stores_inside_iff`). The slice of the body is inside the received bytes, for every number behind
`Content-Length` but a negative one that reaches back no further than the start of the buffer: that
one is a length near `2 ^ 32`, whose sum with the offset wraps in `request_complete`
(`body_slices_inside_iff`).
-/

namespace LinkFPGA

open Runs

variable {σ : Type}

/-- The state on which `request_complete` is asked. -/
def ConnState.collect (bytes : List UInt8) (cs : ConnState) : ConnState :=
  if !(cs.append bytes).haveHeaders then parseHeaders (cs.append bytes) else cs.append bytes

/-- `on_recv`, on an open connection with room for the segment. -/
theorem receive_collect (routes : List (Route σ)) {c : HttpConn σ} {cs : ConnState}
    (hopen : c.arg = some cs) {bytes : List UInt8}
    (hroom : cs.used.toNat + bytes.length ≤ reqBufMax) :
    onRecv routes c (.segment bytes) =
      if !requestComplete (cs.collect bytes) then { c with arg := some (cs.collect bytes) }
      else
        { arg := none
          state := (dispatch routes (cs.collect bytes) c.state).2
          dispatched := c.dispatched ++ [readRequest (cs.collect bytes)]
          responses := c.responses ++ [(dispatch routes (cs.collect bytes) c.state).1] } := by
  unfold onRecv
  dsimp only
  rw [hopen]
  dsimp only
  rw [if_neg (Nat.not_lt.mpr hroom)]
  rfl

/-- A connection that is closed stays as it is. -/
theorem receive_closed (routes : List (Route σ)) {c : HttpConn σ} (hclosed : c.arg = none)
    (bytes : List UInt8) : onRecv routes c (.segment bytes) = c := by
  unfold onRecv
  dsimp only
  rw [hclosed]

/-- A segment for which there is no room closes the connection. -/
theorem receive_refused (routes : List (Route σ)) {c : HttpConn σ} {cs : ConnState}
    (hopen : c.arg = some cs) {bytes : List UInt8}
    (hlarge : reqBufMax < cs.used.toNat + bytes.length) :
    onRecv routes c (.segment bytes) =
      { c with arg := none, responses := c.responses ++ [.plain 413 "too large"] } := by
  unfold onRecv
  dsimp only
  rw [hopen]
  dsimp only
  rw [if_pos hlarge]

/-! ## Stores -/

/-- What `on_recv` stores from `buf` on: each byte with its index. -/
def stores (c : HttpConn σ) : Received → List (UInt8 × Nat)
  | .closed => []
  | .segment bytes =>
      match c.arg with
      | none => []
      | some cs =>
          if reqBufMax < cs.used.toNat + bytes.length then []
          else
            -- `pbuf_copy_partial`, and the terminator of `parse_headers`
            bytes.zipIdx cs.used.toNat ++
              if !(cs.append bytes).haveHeaders then [(0, (cs.append bytes).used.toNat)] else []

/-- The buffer after some stores. Those behind it do not change it. -/
def storeAll (buf : List UInt8) (writes : List (UInt8 × Nat)) : List UInt8 :=
  writes.foldl (fun buf w => buf.set w.2 w.1) buf

theorem store_all_append (buf : List UInt8) (first rest : List (UInt8 × Nat)) :
    storeAll buf (first ++ rest) = storeAll (storeAll buf first) rest := List.foldl_append

/-- A copy into a buffer. -/
theorem store_copy {bytes buf : List UInt8} {off : Nat} (h : off + bytes.length ≤ buf.length) :
    storeAll buf (bytes.zipIdx off) =
      buf.take off ++ bytes ++ buf.drop (off + bytes.length) := by
  induction bytes generalizing buf off with
  | nil => simp [storeAll]
  | cons b bytes ih =>
      rw [List.length_cons] at h
      have hset : (buf.set off b).take (off + 1) = buf.take off ++ [b] := by
        rw [List.take_add_one, List.take_set_of_le (Nat.le_refl off)]
        simp [show off < buf.length by omega]
      have hbehind : (buf.set off b).drop (off + 1 + bytes.length) =
          buf.drop (off + (bytes.length + 1)) := by
        rw [List.drop_set_of_lt (by omega), Nat.add_right_comm, Nat.add_assoc]
      calc storeAll buf ((b :: bytes).zipIdx off)
          = storeAll (buf.set off b) (bytes.zipIdx (off + 1)) := rfl
        _ = (buf.set off b).take (off + 1) ++ bytes ++
              (buf.set off b).drop (off + 1 + bytes.length) :=
            ih (by rw [List.length_set]; omega)
        _ = buf.take off ++ b :: bytes ++ buf.drop (off + (bytes.length + 1)) := by
            rw [hset, hbehind]
            simp

/-- The buffer after a segment is the buffer with what `on_recv` stores. -/
theorem collect_stores {c : HttpConn σ} {cs : ConnState} (hopen : c.arg = some cs)
    (hbuf : cs.buf.length = reqBufMax) {bytes : List UInt8}
    (hroom : cs.used.toNat + bytes.length ≤ reqBufMax) :
    (cs.collect bytes).buf = storeAll cs.buf (stores c (.segment bytes)) := by
  have hcopy : storeAll cs.buf (bytes.zipIdx cs.used.toNat) = (cs.append bytes).buf :=
    store_copy (by rw [hbuf]; exact hroom)
  unfold stores
  dsimp only
  rw [hopen]
  dsimp only
  rw [if_neg (Nat.not_lt.mpr hroom), store_all_append, hcopy]
  unfold ConnState.collect
  cases (cs.append bytes).haveHeaders with
  | true => rfl
  | false =>
      have hparse : (parseHeaders (cs.append bytes)).buf =
          (cs.append bytes).buf.set (cs.append bytes).used.toNat 0 := by
        unfold parseHeaders
        dsimp only
        split <;> rfl
      exact hparse

/-- The segment fills the buffer, and the end of the headers was not in what was received before
it. -/
def FillsUnparsed (c : HttpConn σ) : Received → Prop
  | .closed => False
  | .segment bytes => ∃ cs, c.arg = some cs ∧ cs.haveHeaders = false ∧
      cs.used.toNat + bytes.length = reqBufMax

/-- The count of the bytes that were received. -/
theorem append_used {cs : ConnState} {bytes : List UInt8}
    (hroom : cs.used.toNat + bytes.length ≤ reqBufMax) :
    (cs.append bytes).used.toNat = cs.used.toNat + bytes.length := by
  have hmax : reqBufMax = 4096 := rfl
  have hlen : (UInt32.ofNat bytes.length).toNat = bytes.length :=
    UInt32.toNat_ofNat_of_lt' (show bytes.length < 2 ^ 32 by omega)
  unfold ConnState.append
  dsimp only
  rw [UInt32.toNat_add, hlen]
  exact Nat.mod_eq_of_lt (by omega)

/-- What a segment for which there is room stores: itself, and the terminator behind it. -/
theorem stores_segment {c : HttpConn σ} {cs : ConnState} (hopen : c.arg = some cs)
    {bytes : List UInt8} (hroom : cs.used.toNat + bytes.length ≤ reqBufMax) :
    stores c (.segment bytes) = bytes.zipIdx cs.used.toNat ++
      if !cs.haveHeaders then [(0, cs.used.toNat + bytes.length)] else [] := by
  have hheaders : (cs.append bytes).haveHeaders = cs.haveHeaders := rfl
  unfold stores
  dsimp only
  rw [hopen]
  dsimp only
  rw [if_neg (Nat.not_lt.mpr hroom), append_used hroom, hheaders]

/-- One call of `on_recv` stores inside the buffer, unless it fills it and then looks for the end
of the headers. -/
theorem stores_inside_step (c : HttpConn σ) (e : Received) :
    (∀ w ∈ stores c e, w.2 < reqBufMax) ↔ ¬ FillsUnparsed c e := by
  cases e with
  | closed => simp [stores, FillsUnparsed]
  | segment bytes =>
      cases hopen : c.arg with
      | none => simp [stores, FillsUnparsed, hopen]
      | some cs =>
          by_cases hroom : cs.used.toNat + bytes.length ≤ reqBufMax
          · have hcopy : ∀ w ∈ bytes.zipIdx cs.used.toNat, w.2 < reqBufMax := by
              intro w hw
              have hin := List.snd_lt_add_of_mem_zipIdx hw
              omega
            have hfills : FillsUnparsed c (.segment bytes) ↔ cs.haveHeaders = false ∧
                cs.used.toNat + bytes.length = reqBufMax := by
              simp [FillsUnparsed, hopen]
            rw [stores_segment hopen hroom, hfills, List.forall_mem_append, and_iff_right hcopy]
            cases hhave : cs.haveHeaders with
            | true => simp
            | false =>
                simp only [Bool.not_false, if_true, List.forall_mem_singleton, true_and]
                omega
          · have hfull : reqBufMax < cs.used.toNat + bytes.length := Nat.not_le.mp hroom
            have hnot : cs.used.toNat + bytes.length ≠ reqBufMax := hfull.ne'
            simp [stores, FillsUnparsed, hopen, hfull, hnot]

/-- Whatever segments a connection receives: everything is stored inside the buffer if and only if
none of them fills the buffer before the end of the headers has been recognised. -/
theorem stores_inside_iff (routes : List (Route σ)) (s : σ) (es : List Received) :
    (∀ w ∈ log (onRecv routes) stores (onAccept s) es, w.2 < reqBufMax) ↔
      Guarded (onRecv routes) (fun c e => ¬ FillsUnparsed c e) (onAccept s) es := by
  rw [forall_log_iff]
  exact guarded_congr (motive := fun _ => True) (fun _ _ _ _ => trivial)
    (fun c e _ => stores_inside_step c e) trivial es

/-! ## What a connection holds -/

/-- The connection has received `x`, and the rest of its buffer is as `calloc` made it. -/
structure ConnState.Holds (cs : ConnState) (x : List UInt8) : Prop where
  fits : x.length ≤ reqBufMax
  buf : cs.buf = x ++ List.replicate (reqBufMax - x.length) 0
  used : cs.used.toNat = x.length
  offset : cs.haveHeaders = true → cs.bodyOffset.toNat ≤ x.length

theorem zero_holds : ConnState.zero.Holds [] where
  fits := Nat.zero_le _
  buf := rfl
  used := rfl
  offset := fun h => nomatch h

section
variable {cs : ConnState} {x bytes : List UInt8}

theorem ConnState.Holds.append (h : cs.Holds x) (hroom : x.length + bytes.length ≤ reqBufMax) :
    (cs.append bytes).Holds (x ++ bytes) where
  fits := by
    rw [List.length_append]
    exact hroom
  buf := by
    unfold ConnState.append
    dsimp only
    rw [h.buf, h.used, List.take_left, ← List.drop_drop, List.drop_left, List.drop_replicate,
      List.length_append, Nat.sub_sub]
  used := by
    rw [append_used (by rw [h.used]; exact hroom), h.used, List.length_append]
  offset := fun hheaders => by
    have hbefore : cs.bodyOffset.toNat ≤ x.length := h.offset hheaders
    have hsame : (cs.append bytes).bodyOffset = cs.bodyOffset := rfl
    rw [hsame, List.length_append]
    omega

/-- The terminator goes where there is a zero, or behind the buffer. -/
theorem ConnState.Holds.terminated (h : cs.Holds x) : cs.buf.set cs.used.toNat 0 = cs.buf := by
  rw [h.buf, h.used, List.set_append_right _ _ (Nat.le_refl _), Nat.sub_self]
  cases reqBufMax - x.length <;> rfl

/-- The string in the buffer. -/
theorem ConnState.Holds.text (h : cs.Holds x) : CString.text cs.buf = CString.text x := by
  rw [h.buf]
  cases reqBufMax - x.length with
  | zero => rw [List.replicate_zero, List.append_nil]
  | succ n => exact CString.text_terminated x (List.replicate n 0)

/-- `parse_headers`, by what was received. -/
theorem ConnState.Holds.parse (h : cs.Holds x) :
    parseHeaders cs =
      match CString.strstr crlfcrlf (CString.text x) with
      | none => cs
      | some eol =>
          { cs with
            haveHeaders := true
            bodyOffset := .ofNat (eol + 4)
            contentLength := findContentLength eol (CString.text x) } := by
  unfold parseHeaders
  dsimp only
  cases hat : CString.strstr crlfcrlf (CString.text x) with
  | none => rw [h.terminated, h.text, hat]
  | some eol => rw [h.terminated, h.text, hat]

/-- The headers end in what was received. -/
theorem header_end_fits {eol : Nat}
    (hends : CString.strstr crlfcrlf (CString.text x) = some eol) : eol + 4 ≤ x.length := by
  have hin : eol + 4 ≤ (CString.text x).length := CString.strstr_fits hends
  exact hin.trans (List.takeWhile_prefix _).length_le

theorem ConnState.Holds.parsed (h : cs.Holds x) : (parseHeaders cs).Holds x := by
  rw [h.parse]
  cases hends : CString.strstr crlfcrlf (CString.text x) with
  | none => exact h
  | some eol =>
      have hin := header_end_fits hends
      have hfits := h.fits
      have hmax : reqBufMax = 4096 := rfl
      refine ⟨h.fits, h.buf, h.used, fun _ => ?_⟩
      dsimp only
      rw [UInt32.toNat_ofNat_of_lt' (show eol + 4 < 2 ^ 32 by omega)]
      exact hin

theorem ConnState.Holds.collect (h : cs.Holds x) (hroom : x.length + bytes.length ≤ reqBufMax) :
    (cs.collect bytes).Holds (x ++ bytes) := by
  unfold ConnState.collect
  split
  · exact (h.append hroom).parsed
  · exact h.append hroom

end

/-- An open connection holds what it has received, and that is not a complete request. -/
def Collecting (c : HttpConn σ) : Prop :=
  ∀ cs, c.arg = some cs → requestComplete cs = false ∧ ∃ x, cs.Holds x

theorem accept_holds (s : σ) : Collecting (onAccept s) := by
  rintro cs ⟨⟩
  exact ⟨rfl, [], zero_holds⟩

theorem recv_collecting (routes : List (Route σ)) {c : HttpConn σ} (h : Collecting c)
    (e : Received) : Collecting (onRecv routes c e) := by
  cases e with
  | closed => exact fun _ hnone => nomatch hnone
  | segment bytes =>
      cases hopen : c.arg with
      | none =>
          rw [receive_closed routes hopen]
          exact h
      | some cs =>
          obtain ⟨-, x, hx⟩ := h cs hopen
          by_cases hroom : reqBufMax < cs.used.toNat + bytes.length
          · rw [receive_refused routes hopen hroom]
            exact fun _ hnone => nomatch hnone
          · have hroom := Nat.not_lt.mp hroom
            rw [receive_collect routes hopen hroom]
            intro cs' hcs
            cases hdone : requestComplete (cs.collect bytes) with
            | true => simp [hdone] at hcs
            | false =>
                obtain rfl : cs.collect bytes = cs' := by simpa [hdone] using hcs
                exact ⟨hdone, _, hx.collect (by rw [← hx.used]; exact hroom)⟩

/-! ## The body slice -/

/-- The route that the request line names. -/
def routeOf (routes : List (Route σ)) (buf : List UInt8) : Option (Route σ) :=
  let method := token 7 buf
  if byteAt buf method.length ≠ 0x20 then none
  else
    routes.find? fun route =>
      route.method = method && route.path = token 63 (buf.drop (method.length + 1))

/-- `dispatch` calls the handler of that route, with the buffer from `body_offset` on and
`(size_t)content_length`. -/
theorem dispatch_routed {routes : List (Route σ)} {cs : ConnState} {route : Route σ}
    (h : routeOf routes cs.buf = some route) (s : σ) : ∃ path,
    dispatch routes cs s = route.fn path (cs.buf.drop cs.bodyOffset.toNat)
      cs.contentLength.toUInt32 (.plain 200 "") s := by
  unfold routeOf at h
  dsimp only at h
  split at h
  · cases h
  · rename_i hline
    refine ⟨token 63 (cs.buf.drop ((token 7 cs.buf).length + 1)), ?_⟩
    unfold dispatch readRequest
    dsimp only
    rw [if_neg hline]
    dsimp only
    rw [h]

/-- Without one no handler is called. -/
theorem dispatch_unrouted {routes : List (Route σ)} {cs : ConnState}
    (h : routeOf routes cs.buf = none) (s : σ) : (dispatch routes cs s).2 = s := by
  unfold routeOf at h
  dsimp only at h
  unfold dispatch readRequest
  dsimp only
  split at h
  · rename_i hline
    rw [if_pos hline]
  · rename_i hline
    rw [if_neg hline]
    dsimp only
    rw [h]

/-- A body as a handler is given it: where it starts in the buffer, its length, and how much of the
buffer was received. -/
structure BodySlice where
  offset : UInt32
  len : UInt32
  used : UInt32
  deriving DecidableEq, Repr

/-- The slice lies inside the received bytes. -/
def BodySlice.Inside (b : BodySlice) : Prop :=
  b.offset.toNat + b.len.toNat ≤ b.used.toNat ∧ b.used.toNat ≤ reqBufMax

instance (b : BodySlice) : Decidable b.Inside := inferInstanceAs (Decidable (_ ∧ _))

/-- The body slices that a call of `on_recv` has passed to handlers. -/
def bodySlices (routes : List (Route σ)) (c : HttpConn σ) : Received → List BodySlice
  | .closed => []
  | .segment bytes =>
      match c.arg with
      | none => []
      | some cs =>
          if reqBufMax < cs.used.toNat + bytes.length then []
          else
            let cs := cs.collect bytes
            if requestComplete cs && (routeOf routes cs.buf).isSome then
              [⟨cs.bodyOffset, cs.contentLength.toUInt32, cs.used⟩]
            else []

/-- The headers at the start of a string end in it, and the number behind `Content-Length` is
negative but reaches back no further than they do. -/
def AnnouncesNegative (s : List UInt8) : Prop :=
  ∃ eol, CString.strstr crlfcrlf s = some eol ∧ (findContentLength eol s).toInt < 0 ∧
    -((eol + 4 : Nat) : Int) ≤ (findContentLength eol s).toInt

/-- The segment brings the end of the headers of a request for a route, and they announce such a
number. -/
def NegativeLength (routes : List (Route σ)) (c : HttpConn σ) : Received → Prop
  | .closed => False
  | .segment bytes => ∃ cs, c.arg = some cs ∧ cs.used.toNat + bytes.length ≤ reqBufMax ∧
      cs.haveHeaders = false ∧ (routeOf routes (cs.append bytes).buf).isSome = true ∧
      AnnouncesNegative (CString.text (cs.append bytes).buf)

/-- `(size_t)` of an `int`. -/
theorem size_of_int (n : Int32) :
    (n.toUInt32.toNat : Int) = if n.toInt < 0 then n.toInt + 2 ^ 32 else n.toInt := by
  have hint : n.toInt = if 2 * n.toUInt32.toNat < 2 ^ 32 then (n.toUInt32.toNat : Int)
      else (n.toUInt32.toNat : Int) - 2 ^ 32 := by
    have hcond := BitVec.toInt_eq_toNat_cond n.toBitVec
    push_cast at hcond
    exact hcond
  have hlt := n.toUInt32.toNat_lt
  split at hint <;> split <;> omega

section
variable {cs : ConnState} {x bytes : List UInt8}

/-- When a request whose headers have ended is complete, on exact numbers. -/
theorem complete_iff (h : cs.Holds x) (hheaders : cs.haveHeaders = true) :
    requestComplete cs = true ↔ -(cs.bodyOffset.toNat : Int) ≤ cs.contentLength.toInt ∧
      cs.bodyOffset.toNat + cs.contentLength.toInt ≤ cs.used.toNat := by
  have hsize := size_of_int cs.contentLength
  have hoffset := h.offset hheaders
  have hused := h.used
  have hfits := h.fits
  have hmax : reqBufMax = 4096 := rfl
  have hlow := cs.contentLength.le_toInt
  have hhigh := cs.contentLength.toInt_lt
  unfold requestComplete
  simp only [hheaders, Bool.not_true, Bool.false_eq_true, if_false]
  by_cases hzero : cs.contentLength = 0
  · have hint : (0 : Int32).toInt = 0 := rfl
    simp only [hzero, if_true, true_iff]
    omega
  · rw [if_neg hzero, decide_eq_true_iff, UInt32.le_iff_toNat_le, UInt32.toNat_add]
    -- the sum wraps for a negative number that reaches back into the headers
    split at hsize
    · by_cases hwraps : -(cs.bodyOffset.toNat : Int) ≤ cs.contentLength.toInt
      · have hsum : (cs.bodyOffset.toNat + cs.contentLength.toUInt32.toNat) % 2 ^ 32 =
            cs.bodyOffset.toNat + cs.contentLength.toUInt32.toNat - 2 ^ 32 := by
          rw [Nat.mod_eq_sub_mod (by omega), Nat.mod_eq_of_lt (by omega)]
        omega
      · rw [Nat.mod_eq_of_lt (by omega)]
        omega
    · rw [Nat.mod_eq_of_lt (by omega)]
      omega

/-- The slice of a complete request is inside what was received if its length is not negative. -/
theorem slice_inside_iff (h : cs.Holds x) (hdone : requestComplete cs = true) :
    (BodySlice.mk cs.bodyOffset cs.contentLength.toUInt32 cs.used).Inside ↔
      0 ≤ cs.contentLength.toInt := by
  have hheaders : cs.haveHeaders = true := by
    cases hhave : cs.haveHeaders with
    | true => rfl
    | false => simp [requestComplete, hhave] at hdone
  have hsize := size_of_int cs.contentLength
  have hcomplete := (complete_iff h hheaders).mp hdone
  have hused := h.used
  have hfits := h.fits
  have hlow := cs.contentLength.le_toInt
  have hmax : reqBufMax = 4096 := rfl
  unfold BodySlice.Inside
  dsimp only
  split at hsize <;> omega

/-- Once the headers are parsed, only a number that is not negative completes the request later. -/
theorem collect_parsed (h : cs.Holds x) (hpending : requestComplete cs = false)
    (hroom : x.length + bytes.length ≤ reqBufMax) (hheaders : cs.haveHeaders = true)
    (hdone : requestComplete (cs.collect bytes) = true) :
    0 ≤ (cs.collect bytes).contentLength.toInt := by
  have hcollect : cs.collect bytes = cs.append bytes := by
    unfold ConnState.collect
    rw [if_neg]
    simpa [ConnState.append] using hheaders
  rw [hcollect] at hdone ⊢
  have hnow := (complete_iff (h.append hroom) hheaders).mp hdone
  have hbefore : ¬ requestComplete cs = true := by simp [hpending]
  rw [complete_iff h hheaders] at hbefore
  have hlength : (cs.append bytes).contentLength = cs.contentLength := rfl
  have hoffset : (cs.append bytes).bodyOffset = cs.bodyOffset := rfl
  have hin := h.offset hheaders
  have hused := h.used
  rw [hlength, hoffset] at hnow
  rw [hlength]
  omega

/-- When the headers are parsed, the request is complete with a negative number if that reaches
back no further than they do. -/
theorem collect_unparsed (h : cs.Holds x) (hroom : x.length + bytes.length ≤ reqBufMax)
    (hheaders : cs.haveHeaders = false) :
    (requestComplete (cs.collect bytes) = true → 0 ≤ (cs.collect bytes).contentLength.toInt) ↔
      ¬ AnnouncesNegative (CString.text (cs.append bytes).buf) := by
  have hcollect : cs.collect bytes = parseHeaders (cs.append bytes) := by
    unfold ConnState.collect
    rw [if_pos]
    simpa [ConnState.append] using hheaders
  have happend := h.append hroom
  have hparsed := happend.parsed
  rw [hcollect, happend.text]
  unfold AnnouncesNegative
  cases hends : CString.strstr crlfcrlf (CString.text (x ++ bytes)) with
  | none =>
      have hsame : parseHeaders (cs.append bytes) = cs.append bytes := by
        rw [happend.parse, hends]
      have hpending : requestComplete (cs.append bytes) = false := by
        simp [requestComplete, ConnState.append, hheaders]
      simp [hsame, hpending]
  | some eol =>
      have hin := header_end_fits hends
      have hfits := happend.fits
      have hmax : reqBufMax = 4096 := rfl
      have hstate := happend.parse
      rw [hends] at hstate
      dsimp only at hstate
      have hcomplete := complete_iff hparsed (by rw [hstate])
      have hused := hparsed.used
      rw [hcomplete, hused]
      rw [hstate]
      dsimp only
      rw [UInt32.toNat_ofNat_of_lt' (show eol + 4 < 2 ^ 32 by omega)]
      simp only [Option.some.injEq, exists_eq_left', not_and]
      omega

end

/-- A segment for which there is room passes on a slice inside what was received, unless it
completes a request for a route with a negative number. -/
theorem body_slices_segment (routes : List (Route σ)) {c : HttpConn σ} {cs : ConnState}
    (hopen : c.arg = some cs) {x bytes : List UInt8} (hx : cs.Holds x)
    (hroom : x.length + bytes.length ≤ reqBufMax) :
    (∀ b ∈ bodySlices routes c (.segment bytes), b.Inside) ↔
      ((routeOf routes (cs.append bytes).buf).isSome = true →
        requestComplete (cs.collect bytes) = true →
          0 ≤ (cs.collect bytes).contentLength.toInt) := by
  have hfull : ¬ reqBufMax < cs.used.toNat + bytes.length := Nat.not_lt.mpr (hx.used ▸ hroom)
  have hcollected := hx.collect hroom
  have hbuf : (cs.collect bytes).buf = (cs.append bytes).buf :=
    hcollected.buf.trans (hx.append hroom).buf.symm
  unfold bodySlices
  dsimp only
  rw [hopen]
  dsimp only
  rw [if_neg hfull, hbuf]
  split
  · rename_i hcalled
    obtain ⟨hdone, hroute⟩ := (Bool.and_eq_true_iff).mp hcalled
    simp [hdone, hroute, slice_inside_iff hcollected hdone]
  · rename_i hnot
    simp only [Bool.and_eq_true_iff, not_and] at hnot
    simp only [List.not_mem_nil, false_imp_iff, implies_true, true_iff]
    exact fun hroute hdone => absurd hroute (hnot hdone)

/-- One call of `on_recv` passes on a slice inside what was received, unless it receives the
headers with a negative number behind `Content-Length`. -/
theorem body_slices_step (routes : List (Route σ)) {c : HttpConn σ} (h : Collecting c)
    (e : Received) :
    (∀ b ∈ bodySlices routes c e, b.Inside) ↔ ¬ NegativeLength routes c e := by
  cases e with
  | closed => simp [bodySlices, NegativeLength]
  | segment bytes =>
      cases hopen : c.arg with
      | none => simp [bodySlices, NegativeLength, hopen]
      | some cs =>
          obtain ⟨hpending, x, hx⟩ := h cs hopen
          by_cases hroom : reqBufMax < cs.used.toNat + bytes.length
          · simp [bodySlices, NegativeLength, hopen, hroom]
          · have hroom := Nat.not_lt.mp hroom
            have hfit : x.length + bytes.length ≤ reqBufMax := hx.used ▸ hroom
            have hnegative : NegativeLength routes c (.segment bytes) ↔
                cs.haveHeaders = false ∧ (routeOf routes (cs.append bytes).buf).isSome = true ∧
                  AnnouncesNegative (CString.text (cs.append bytes).buf) := by
              simp [NegativeLength, hopen, hroom]
            rw [body_slices_segment routes hopen hx hfit, hnegative]
            cases hheaders : cs.haveHeaders with
            | true =>
                have hlate := collect_parsed hx hpending hfit hheaders
                exact iff_of_true (fun _ => hlate) fun hbad => nomatch hbad.1
            | false =>
                rw [collect_unparsed hx hfit hheaders]
                simp only [true_and, not_and]

/-- Whatever segments a connection receives: every body slice that a handler is given lies inside
the received bytes if and only if no request for a route has a negative number behind
`Content-Length` that reaches back no further than its headers. -/
theorem body_slices_inside_iff (routes : List (Route σ)) (s : σ) (es : List Received) :
    (∀ b ∈ log (onRecv routes) (bodySlices routes) (onAccept s) es, b.Inside) ↔
      Guarded (onRecv routes) (fun c e => ¬ NegativeLength routes c e) (onAccept s) es := by
  rw [forall_log_iff]
  exact guarded_congr (motive := Collecting) (fun _ e h _ => recv_collecting routes h e)
    (fun _ e h => body_slices_step routes h e) (accept_holds s) es

/-! ## Requests that reach the defects -/

/-- An open connection that has received `x`, and not the end of the headers. -/
def Unended (x : List UInt8) (c : HttpConn σ) : Prop :=
  ∃ cs, c.arg = some cs ∧ cs.haveHeaders = false ∧ cs.Holds x

theorem receive_unended (routes : List (Route σ)) {c : HttpConn σ} {x bytes : List UInt8}
    (h : Unended x c) (hroom : x.length + bytes.length ≤ reqBufMax) (hcr : 13 ∉ x ++ bytes) :
    Unended (x ++ bytes) (onRecv routes c (.segment bytes)) := by
  obtain ⟨cs, hopen, hheaders, hx⟩ := h
  have hnone : CString.strstr crlfcrlf (CString.text (x ++ bytes)) = none :=
    CString.strstr_absent (b := 13) (by decide)
      fun hin => hcr ((List.takeWhile_prefix _).subset hin)
  have happend := hx.append hroom
  have hcollect : cs.collect bytes = cs.append bytes := by
    unfold ConnState.collect
    rw [happend.parse, hnone]
    split <;> rfl
  have hpending : requestComplete (cs.append bytes) = false := by
    simp [requestComplete, ConnState.append, hheaders]
  rw [receive_collect routes hopen (hx.used ▸ hroom), hcollect, hpending]
  exact ⟨cs.append bytes, rfl, hheaders, happend⟩

/-- 1024 bytes without a line end. -/
def kilobyte : List UInt8 := List.replicate 1024 0x41

/-- Four segments fill the buffer, and the terminator of the last one goes to index 4096. -/
theorem terminator_behind_buffer :
    ¬ ∀ w ∈ log (onRecv []) stores (onAccept ()) (List.replicate 4 (.segment kilobyte)),
      w.2 < reqBufMax := by
  intro hall
  have hlast := ((forall_log_iff _ _).mp hall).2.2.2.1
  have hcr (n : Nat) : 13 ∉ List.replicate n (0x41 : UInt8) := by simp
  have hlen (n : Nat) : (List.replicate n (0x41 : UInt8)).length = n := List.length_replicate
  have hmax : reqBufMax = 4096 := rfl
  have hstep (n : Nat) (c : HttpConn Unit) (hn : n + 1024 ≤ 4096)
      (h : Unended (List.replicate n 0x41) c) :
      Unended (List.replicate (n + 1024) 0x41) (onRecv [] c (.segment kilobyte)) := by
    rw [← List.replicate_append_replicate]
    refine receive_unended [] h ?_ ?_
    · rw [hlen, hlen]
      exact hn
    · rw [List.replicate_append_replicate]
      exact hcr _
  have hnone : Unended (List.replicate 0 0x41) (onAccept ()) := ⟨_, rfl, rfl, zero_holds⟩
  obtain ⟨cs, hopen, hheaders, hx⟩ :=
    hstep 2048 _ (by omega) (hstep 1024 _ (by omega) (hstep 0 _ (by omega) hnone))
  refine (stores_inside_step _ _).mp hlast ⟨cs, hopen, hheaders, ?_⟩
  rw [hx.used, hlen, kilobyte, hlen, hmax]

/-- `Content-Length: -1` on the route that stores the name. -/
def negativeHeader : List UInt8 :=
  "POST /api/name HTTP/1.0\r\nContent-Length: -1\r\n\r\n".toUTF8.toList

/-- The handler is given a body of 4294967295 bytes. -/
theorem body_slice_outside :
    ¬ ∀ b ∈ log (onRecv nameRoutes) (bodySlices nameRoutes) (onAccept [])
      [.segment negativeHeader], b.Inside := by
  decide +kernel

end LinkFPGA
