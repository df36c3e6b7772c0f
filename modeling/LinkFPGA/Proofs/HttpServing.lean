import LinkFPGA.Proofs.HttpSegments

/-!
# Requests on many connections

The segments of requests on different connections come in any order, with everything else that the
main loop does in between. `http_requests_atomic` says that each request acts on the firmware, and
is answered, as if all of it had come with its last segment.
-/

namespace LinkFPGA

open Runs Sessions

/-- The answer to a request that has been received. -/
def answerRequest {σ : Type} (routes : List (Route σ)) (header body : List UInt8) (s : σ) :
    HttpResponse × σ :=
  dispatch routes (received header (header ++ body)) s

variable {κ σ : Type} {routes : List (Route σ)} {header body : κ → List UInt8}

/-- A connection collects its request. -/
theorem connections_collect (routes : List (Route σ))
    (h : ∀ k, IsHttpRequest (header k) (body k)) :
    Collects (fun _ => ConnState.zero) (fun _ => recvSegment routes)
      (fun k => header k ++ body k) (fun k => answerRequest routes (header k) (body k))
      (fun k x cs => cs = received (header k) x) := by
  have hsegment (k : κ) (x chunk : List UInt8) (s : σ)
      (hx : x ++ chunk <+: header k ++ body k) :
      recvSegment routes (received (header k) x) chunk s =
        if x ++ chunk = header k ++ body k then
          (none, (answerRequest routes (header k) (body k) s).2,
            [(answerRequest routes (header k) (body k) s).1])
        else (some (received (header k) (x ++ chunk)), s, []) := by
    have hreceive := receive_segment routes s (h k) hx
    unfold recvSegment
    rw [show (⟨some (received (header k) x), s, [], []⟩ : HttpConn σ) =
      collecting (header k) x s from rfl, hreceive]
    split <;> rfl
  refine ⟨fun k => ?_, fun k x cs chunk rest s hcs _ hrest hwhole => ?_,
    fun k x cs chunk s hcs _ hwhole => ?_⟩
  · obtain ⟨eol, _, hlen⟩ := (h k).block.ends
    have hopen := accept_collecting routes (show 0 < (header k).length by omega)
    exact Option.some.inj (congrArg HttpConn.arg hopen)
  · subst hcs
    have hpart : x ++ chunk ≠ header k ++ body k := by
      rw [← hwhole]
      exact fun hall => hrest (List.self_eq_append_right.mp hall)
    refine ⟨received (header k) (x ++ chunk), ?_, rfl⟩
    rw [hsegment k x chunk s ⟨rest, hwhole⟩, if_neg hpart]
  · subst hcs
    rw [hsegment k x chunk s (hwhole ▸ List.prefix_rfl), if_pos hwhole]

/-- Requests on any number of connections, their segments mixed in any way with each other and
with whatever else changes the firmware: the state and the answers are those of a server to which
each request comes at once, with its last segment. -/
theorem http_requests_atomic [DecidableEq κ] (routes : List (Route σ)) (start : σ)
    (h : ∀ k, IsHttpRequest (header k) (body k)) {es : List (Sessions.Event κ UInt8 σ)}
    (horder : Guarded (serveWhole (fun k => header k ++ body k)
      fun k => answerRequest routes (header k) (body k)) InOrder (Server.idle start) es) :
    let served := run (httpServe routes) (Server.idle start) es
    let whole := run (serveWhole (fun k => header k ++ body k)
      fun k => answerRequest routes (header k) (body k)) (Server.idle start) es
    served.state = whole.state ∧ served.answers = whole.answers :=
  sessions_atomic (connections_collect routes h) start horder

/-- Two requests, each in two segments, on connections that are open at the same time. -/
def twoNames : List (Sessions.Event Bool UInt8 (List UInt8)) :=
  let request := nameHeader ++ nameBody
  [.connect true, .connect false, .receive true (request.take 30),
    .receive false (request.take 45), .receive true (request.drop 30),
    .receive false (request.drop 45)]

theorem name_is_request : IsHttpRequest nameHeader nameBody :=
  ⟨⟨⟨42, by decide +kernel, by decide +kernel⟩, by decide +kernel⟩, by decide +kernel,
    by decide +kernel⟩

theorem http_requests_atomic_two :
    (run (httpServe nameRoutes) (Server.idle []) twoNames).answers =
      (run (serveWhole (fun _ => nameHeader ++ nameBody)
        fun _ => answerRequest nameRoutes nameHeader nameBody) (Server.idle []) twoNames).answers :=
  (http_requests_atomic nameRoutes [] (fun _ => name_is_request) (by decide +kernel)).2

end LinkFPGA
