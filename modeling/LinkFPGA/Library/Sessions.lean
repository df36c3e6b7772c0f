import Mathlib.Logic.Function.Basic
import LinkFPGA.Library.Runs

/-!
# Sessions that collect a request and then act on it

A server keeps a session for each client. A session takes its request in chunks, in between those
of the other sessions and whatever else happens to the state they share, and acts on that state
when the request is complete. `sessions_atomic` says that this cannot be told from a server to
which every request comes at once, with its last chunk: the chunks before only count down what is
missing.
-/

namespace LinkFPGA.Sessions

open Runs

/-- A server: the open sessions, the state they share, and the answers given so far. -/
structure Server (κ α σ ρ : Type*) where
  held : κ → Option α
  state : σ
  answers : List (κ × ρ)

/-- What happens next. -/
inductive Event (κ β σ : Type*) where
  | connect (k : κ)
  | disconnect (k : κ)
  | receive (k : κ) (chunk : List β)
  /-- Something else happens to the state. -/
  | other (f : σ → σ)

/-- What a chunk makes of a session: it goes on, or it has ended; the state; and the answers. -/
abbrev Taken (α σ ρ : Type*) := Option α × σ × List ρ

variable {κ α β σ ρ : Type*} [DecidableEq κ]

/-- One event, for a kind of sessions. -/
def serve (fresh : κ → α) (take : κ → α → List β → σ → Taken α σ ρ) (s : Server κ α σ ρ) :
    Event κ β σ → Server κ α σ ρ
  | .connect k => { s with held := Function.update s.held k (some (fresh k)) }
  | .disconnect k => { s with held := Function.update s.held k none }
  | .receive k chunk =>
      match s.held k with
      | none => s
      | some a =>
          let r := take k a chunk s.state
          { held := Function.update s.held k r.1
            state := r.2.1
            answers := s.answers ++ r.2.2.map (Prod.mk k) }
  | .other f => { s with state := f s.state }

/-- A session for which a request counts at once, and in which only the missing part is kept. -/
def takeWhole [DecidableEq β] (answer : κ → σ → ρ × σ) (k : κ) (missing chunk : List β) (s : σ) :
    Taken (List β) σ ρ :=
  if chunk = missing then (none, (answer k s).2, [(answer k s).1])
  else (some (missing.drop chunk.length), s, [])

/-- The server for which requests count at once. -/
abbrev serveWhole [DecidableEq β] (request : κ → List β) (answer : κ → σ → ρ × σ) :
    Server κ (List β) σ ρ → Event κ β σ → Server κ (List β) σ ρ :=
  serve request (takeWhole answer)

/-- A server without sessions. -/
def Server.idle (s : σ) : Server κ α σ ρ := ⟨fun _ => none, s, []⟩

/-- A client sends the next part of its request, as long as its session is open. -/
def InOrder (s : Server κ (List β) σ ρ) : Event κ β σ → Prop
  | .receive k chunk => ∀ missing ∈ s.held k, chunk ≠ [] ∧ chunk <+: missing
  | _ => True

instance decidableInOrder [DecidableEq β] (s : Server κ (List β) σ ρ) :
    ∀ e : Event κ β σ, Decidable (InOrder s e)
  | .receive _ _ => inferInstanceAs (Decidable (∀ missing ∈ _, _))
  | .connect _ | .disconnect _ | .other _ => .isTrue trivial

/-- Sessions that collect a request before they act on it: `holds k x a` says that the session of
`k` looks like `a` when it has taken `x`. -/
structure Collects (fresh : κ → α) (take : κ → α → List β → σ → Taken α σ ρ)
    (request : κ → List β) (answer : κ → σ → ρ × σ) (holds : κ → List β → α → Prop) : Prop where
  start : ∀ k, holds k [] (fresh k)
  more : ∀ k x a chunk rest s, holds k x a → chunk ≠ [] → rest ≠ [] →
    x ++ chunk ++ rest = request k →
    ∃ a', take k a chunk s = (some a', s, []) ∧ holds k (x ++ chunk) a'
  done : ∀ k x a chunk s, holds k x a → chunk ≠ [] → x ++ chunk = request k →
    take k a chunk s = (none, (answer k s).2, [(answer k s).1])

variable {fresh : κ → α} {take : κ → α → List β → σ → Taken α σ ρ} {request : κ → List β}
  {answer : κ → σ → ρ × σ} {holds : κ → List β → α → Prop}

/-- What a chunk for an open session does. -/
theorem serve_receive {s : Server κ α σ ρ} {k : κ} {a : α} (h : s.held k = some a)
    (chunk : List β) : serve fresh take s (.receive k chunk) =
      { held := Function.update s.held k (take k a chunk s.state).1
        state := (take k a chunk s.state).2.1
        answers := s.answers ++ (take k a chunk s.state).2.2.map (Prod.mk k) } := by
  unfold serve
  dsimp only
  rw [h]

/-- The servers agree: on the state, on the answers, and on what each session has taken. -/
structure Agrees (request : κ → List β) (holds : κ → List β → α → Prop) (s : Server κ α σ ρ)
    (t : Server κ (List β) σ ρ) : Prop where
  state : s.state = t.state
  answers : s.answers = t.answers
  held : ∀ k, s.held k = none ∧ t.held k = none ∨
    ∃ x a missing, s.held k = some a ∧ t.held k = some missing ∧ holds k x a ∧
      x ++ missing = request k

/-- They agree after a change in one session if they agree on that one. -/
theorem Agrees.update {s : Server κ α σ ρ} {t : Server κ (List β) σ ρ}
    (h : Agrees request holds s t) (k : κ) (state : σ) (answers : List (κ × ρ)) {a : Option α}
    {missing : Option (List β)}
    (hk : a = none ∧ missing = none ∨
      ∃ x a' missing', a = some a' ∧ missing = some missing' ∧ holds k x a' ∧
        x ++ missing' = request k) :
    Agrees request holds ⟨Function.update s.held k a, state, answers⟩
      ⟨Function.update t.held k missing, state, answers⟩ := by
  refine ⟨rfl, rfl, fun j => ?_⟩
  dsimp only
  rw [Function.update_apply, Function.update_apply]
  split
  · rename_i hj
    rw [hj]
    exact hk
  · exact h.held j

/-- One event keeps them in agreement. -/
theorem Agrees.step [DecidableEq β] (hcollects : Collects fresh take request answer holds)
    {s : Server κ α σ ρ} {t : Server κ (List β) σ ρ} (h : Agrees request holds s t)
    {e : Event κ β σ} (horder : InOrder t e) :
    Agrees request holds (serve fresh take s e) (serveWhole request answer t e) := by
  cases e with
  | other f => exact ⟨congrArg f h.state, h.answers, h.held⟩
  | connect k =>
      have hnew := h.update k s.state s.answers
        (.inr ⟨[], fresh k, request k, rfl, rfl, hcollects.start k, rfl⟩)
      exact ⟨h.state, h.answers, hnew.held⟩
  | disconnect k =>
      have hnew := h.update k s.state s.answers (.inl ⟨rfl, rfl⟩)
      exact ⟨h.state, h.answers, hnew.held⟩
  | receive k chunk =>
      rcases h.held k with ⟨hs, ht⟩ | ⟨x, a, missing, hs, ht, hholds, hrequest⟩
      · unfold serveWhole serve
        dsimp only
        rw [hs, ht]
        exact h
      · obtain ⟨hchunk, rest, hrest⟩ := horder missing ht
        rw [serveWhole, serve_receive hs, serve_receive ht, ← h.state, ← h.answers, takeWhole]
        by_cases hlast : rest = []
        · -- the last chunk
          rw [hlast, List.append_nil] at hrest
          rw [hcollects.done k x a chunk s.state hholds hchunk (hrest ▸ hrequest), if_pos hrest]
          exact h.update k _ _ (.inl ⟨rfl, rfl⟩)
        · have hwhole : x ++ chunk ++ rest = request k := by
            rw [List.append_assoc, hrest, hrequest]
          obtain ⟨a', htake, hholds'⟩ :=
            hcollects.more k x a chunk rest s.state hholds hchunk hlast hwhole
          have hpart : chunk ≠ missing := by
            intro hall
            rw [hall, List.append_right_eq_self] at hrest
            exact hlast hrest
          rw [htake, if_neg hpart, ← hrest, List.drop_left]
          exact h.update k _ _ (.inr ⟨x ++ chunk, a', rest, rfl, rfl, hholds', hwhole⟩)

/-- A server whose sessions collect their requests gives the answers and reaches the state of one
for which each request counts at once. -/
theorem sessions_atomic [DecidableEq β] (hcollects : Collects fresh take request answer holds)
    (start : σ) {es : List (Event κ β σ)}
    (h : Guarded (serveWhole request answer) InOrder (Server.idle start) es) :
    (run (serve fresh take) (Server.idle start) es).state =
        (run (serveWhole request answer) (Server.idle start) es).state ∧
      (run (serve fresh take) (Server.idle start) es).answers =
        (run (serveWhole request answer) (Server.idle start) es).answers := by
  have hagrees : Agrees request holds (Server.idle start : Server κ α σ ρ) (Server.idle start) :=
    ⟨rfl, rfl, fun _ => .inl ⟨rfl, rfl⟩⟩
  generalize (Server.idle start : Server κ α σ ρ) = s at hagrees ⊢
  generalize (Server.idle start : Server κ (List β) σ ρ) = t at h hagrees ⊢
  induction es generalizing s t with
  | nil => exact ⟨hagrees.state, hagrees.answers⟩
  | cons e es ih => exact ih _ _ h.2 (hagrees.step hcollects h.1)

end LinkFPGA.Sessions
