import LinkFPGA.Library.Runs
import LinkFPGA.Proofs.PingPong

/-!
# Runs of the measurement

The three entry points of `measurement.c`, called in any order with any arguments and at any
times. `measurement_runs` says what a success rests on: more than 100 samples, each computed
from a PONG of the target that arrived after the request. It also says that a measurement
completes at most once and that nothing happens between its completion and the next request.

Read `FromPong` and `SampleHistory` first. The history of a run is the list of its calls, each
with the state it was made in.
-/

namespace LinkFPGA

open Runs

/-- A call of an entry point of `measurement.c`. -/
inductive MeasCall where
  | start (addr : UInt32) (port : UInt16) (sessionId : LinkId) (completion : Bool)
  | tick
  | rx (buf : List UInt8) (srcAddr : UInt32) (srcPort : UInt16)

/-- What a call does. -/
def measResult (s : Clock × MeasState) : MeasCall → MeasResult
  | .start addr port sessionId completion =>
      measurementStart s.1 s.2 addr port sessionId completion
  | .tick => measurementTick s.1 s.2
  | .rx buf srcAddr srcPort => measurementHandleRx s.1 s.2 buf srcAddr srcPort

/-- The state after a call. -/
def measNext (s : Clock × MeasState) (e : MeasCall) : Clock × MeasState :=
  ((measResult s e).clock, (measResult s e).state)

/-- The calls of `S.completion`. -/
def completions (s : Clock × MeasState) (e : MeasCall) : List (Bool × Int64) :=
  (measResult s e).call.toList

/-- The datagrams sent. -/
def measSent (s : Clock × MeasState) (e : MeasCall) : List Datagram := (measResult s e).sent

/-- The call itself, with the state it is made in. -/
def stamped (s : Clock × MeasState) (e : MeasCall) : List ((Clock × MeasState) × MeasCall) :=
  [(s, e)]

/-- A request that is accepted. -/
def AcceptedStart (s : Clock × MeasState) : MeasCall → Prop
  | .start .. => s.2.active = false
  | _ => False

/-- The call receives a PONG for the session, from the address and port, and the sample is one
of the two that `measurement_handle_rx` computes from it. -/
def FromPong (addr : UInt32) (port : UInt16) (sessionId : LinkId)
    (received : (Clock × MeasState) × MeasCall) (sample : Int64) : Prop :=
  ∃ buf ctx, received.2 = .rx buf addr port ∧ buf.take 8 = kProtoLink ∧ byteAt buf 8 = 2 ∧
    tlvWalk pongHandler (buf.drop 9) .zero = (ctx, 0) ∧
    (ctx.haveHt = true ∧ ctx.haveGt = true ∧ ctx.haveSess = true) ∧ ctx.sess = sessionId ∧
    (sample = ctx.gt - (received.1.1.now.toInt64 + ctx.ht) / 2 ∨
      ctx.havePgt = true ∧ sample = (ctx.gt + ctx.pgt) / 2 - ctx.ht)

/-- The history ends with an accepted request for the session at the address and port and with
calls none of which is an accepted request, and every sample comes from a PONG among them. -/
def SampleHistory (past : List ((Clock × MeasState) × MeasCall)) (addr : UInt32) (port : UInt16)
    (sessionId : LinkId) (samples : Array Int64) : Prop :=
  ∃ before s completion since,
    past = before ++ (s, .start addr port sessionId completion) :: since ∧
    s.2.active = false ∧ (∀ later ∈ since, ¬ AcceptedStart later.1 later.2) ∧
    ∀ sample ∈ samples, ∃ received ∈ since, FromPong addr port sessionId received sample

/-! ## One call -/

/-- What a parsed PONG has passed. -/
theorem parse_pong_some {s : MeasState} {buf : List UInt8} {srcAddr : UInt32} {srcPort : UInt16}
    {ctx : PongCtx} (h : parsePong s buf srcAddr srcPort = some ctx) :
    (srcAddr = s.targetAddr ∧ srcPort = s.targetPort) ∧ buf.take 8 = kProtoLink ∧
      byteAt buf 8 = 2 ∧ tlvWalk pongHandler (buf.drop 9) .zero = (ctx, 0) ∧
      ctx.haveHt = true ∧ ctx.haveGt = true ∧ ctx.haveSess = true := by
  unfold parsePong at h
  split at h
  · cases h
  · split at h
    · cases h
    · rename_i hsource
      split at h
      · cases h
      · split at h
        · cases h
        · rename_i hproto
          split at h
          · cases h
          · rename_i htype
            dsimp only at h
            split at h
            · cases h
            · rename_i hwalk
              split at h
              · cases h
              · rename_i hhave
                obtain rfl := Option.some.inj h
                rw [not_or, not_not, not_not] at hsource
                simp only [Bool.or_eq_true, Bool.not_eq_true', not_or, Bool.not_eq_false]
                  at hhave
                exact ⟨hsource, not_not.mp hproto, not_not.mp htype,
                  Prod.ext rfl (not_not.mp hwalk), hhave.1.1, hhave.1.2, hhave.2⟩

/-- A PONG stores its own two samples only, and none past the end of the array. -/
theorem record_samples_mem (nowHost : Int64) (ctx : PongCtx) (s : MeasState) :
    (s.samples.size ≤ maxSamples → (recordSamples nowHost ctx s).samples.size ≤ maxSamples) ∧
    ∀ sample ∈ (recordSamples nowHost ctx s).samples, sample ∈ s.samples ∨
      sample = ctx.gt - (nowHost + ctx.ht) / 2 ∨
      ctx.havePgt = true ∧ sample = (ctx.gt + ctx.pgt) / 2 - ctx.ht := by
  have hlist := record_samples_list nowHost ctx s
  refine ⟨fun hsize => ?_, fun sample hmem => ?_⟩
  · rw [← Array.length_toList, hlist, List.length_append, Array.length_toList]
    exact new_samples_room nowHost ctx hsize
  · rw [← Array.mem_toList_iff, hlist, List.mem_append, Array.mem_toList_iff] at hmem
    exact hmem.imp_right new_samples_cases

/-- What a call that is not an accepted request does. -/
structure KeepsMeasurement (s : Clock × MeasState) (e : MeasCall) (r : MeasResult) : Prop where
  target : r.state.targetAddr = s.2.targetAddr ∧ r.state.targetPort = s.2.targetPort ∧
    r.state.targetSession = s.2.targetSession
  room : s.2.samples.size ≤ maxSamples → r.state.samples.size ≤ maxSamples
  samples : ∀ sample ∈ r.state.samples, sample ∈ s.2.samples ∨
    FromPong s.2.targetAddr s.2.targetPort s.2.targetSession (s, e) sample
  idle : s.2.active = false → r = .idle s.1 s.2
  finished : ∀ result, r.call = some result → r.state.active = false
  enough : ∀ intercept, r.call = some (true, intercept) →
    linkSampleThreshold < r.state.samples.size

variable {s : Clock × MeasState} {e : MeasCall}

theorem keeps_idle (s : Clock × MeasState) (e : MeasCall) (c : Clock)
    (hidle : s.2.active = false → c = s.1) : KeepsMeasurement s e (.idle c s.2) where
  target := ⟨rfl, rfl, rfl⟩
  room := id
  samples _ h := .inl h
  idle h := by rw [hidle h]
  finished _ h := by cases h
  enough _ h := by cases h

theorem keeps_ping (c : Clock) (hactive : s.2.active = true) :
    KeepsMeasurement s e (sendPing c s.2) where
  target := ⟨rfl, rfl, rfl⟩
  room := id
  samples _ h := .inl h
  idle h := by rw [hactive] at h; cases h
  finished _ h := by cases h
  enough _ h := by cases h

theorem keeps_failure (c : Clock) (hactive : s.2.active = true) :
    KeepsMeasurement s e (finish c s.2 false 0) where
  target := ⟨rfl, rfl, rfl⟩
  room := id
  samples _ h := .inl h
  idle h := by rw [hactive] at h; cases h
  finished _ _ := rfl
  enough _ h := by
    unfold finish at h
    dsimp only at h
    split at h <;> cases h

/-- An accepted PONG adds samples of its own only, and reports when there are enough of them. -/
theorem keeps_pong {buf : List UInt8} {ctx : PongCtx} (hactive : s.2.active = true)
    (hpong : ∀ sample ∈ (recordSamples s.1.now.toInt64 ctx s.2).samples, sample ∈ s.2.samples ∨
      FromPong s.2.targetAddr s.2.targetPort s.2.targetSession (s, e) sample)
    (hparse : parsePong s.2 buf s.2.targetAddr s.2.targetPort = some ctx)
    (hsess : ctx.sess = s.2.targetSession) :
    KeepsMeasurement s e (measurementHandleRx s.1 s.2 buf s.2.targetAddr s.2.targetPort) := by
  obtain ⟨haddr, hport, hsession, _⟩ := record_samples_target s.1.now.toInt64 ctx s.2
  have hroom := (record_samples_mem s.1.now.toInt64 ctx s.2).1
  have hwas (hidle : s.2.active = false) : False := by
    rw [hactive] at hidle
    cases hidle
  rw [measurement_handle_rx_accepted hparse hsess]
  dsimp only
  split
  · rename_i henough
    have hperm := median_perm (recordSamples s.1.now.toInt64 ctx s.2).samples
    exact {
      target := ⟨haddr, hport, hsession⟩
      room := fun hsize => hperm.size_eq.symm ▸ hroom hsize
      samples := fun sample hsample => hpong sample (hperm.mem_iff.mp hsample)
      idle := fun hidle => (hwas hidle).elim
      finished := fun _ _ => rfl
      enough := fun _ _ => hperm.size_eq.symm ▸ henough }
  · exact {
      target := ⟨haddr, hport, hsession⟩
      room := hroom
      samples := hpong
      idle := fun hidle => (hwas hidle).elim
      finished := fun _ hcall => by cases hcall
      enough := fun _ hcall => by cases hcall }

/-- A call that is not an accepted request keeps the measurement. -/
theorem meas_keeps (s : Clock × MeasState) (e : MeasCall) (h : ¬ AcceptedStart s e) :
    KeepsMeasurement s e (measResult s e) := by
  cases e with
  | start addr port sessionId completion =>
      have hactive : s.2.active = true := Bool.not_eq_false _ ▸ h
      show KeepsMeasurement s _ (measurementStart s.1 s.2 addr port sessionId completion)
      rw [measurement_start_busy hactive]
      exact keeps_idle s _ s.1 fun _ => rfl
  | tick =>
      show KeepsMeasurement s _ (measurementTick s.1 s.2)
      unfold measurementTick
      split
      · exact keeps_idle s _ s.1 fun _ => rfl
      · rename_i hactive
        have hactive : s.2.active = true := by simpa using hactive
        dsimp only
        -- 50 ms without a PONG: the budget of PINGs decides between failing and another one
        split
        · split
          · exact keeps_failure _ hactive
          · exact keeps_ping _ hactive
        · exact keeps_idle s _ _ fun hidle => by rw [hactive] at hidle; cases hidle
  | rx buf srcAddr srcPort =>
      show KeepsMeasurement s _ (measurementHandleRx s.1 s.2 buf srcAddr srcPort)
      cases hparse : parsePong s.2 buf srcAddr srcPort with
      | none =>
          rw [measurement_handle_rx_none hparse]
          exact keeps_idle s _ s.1 fun _ => rfl
      | some ctx =>
          have hactive := parse_pong_active hparse
          obtain ⟨⟨rfl, rfl⟩, hproto, htype, hwalk, hhave⟩ := parse_pong_some hparse
          by_cases hsess : ctx.sess = s.2.targetSession
          · refine keeps_pong hactive ?_ hparse hsess
            intro sample hsample
            rcases (record_samples_mem s.1.now.toInt64 ctx s.2).2 sample hsample with hold | hnew
            · exact .inl hold
            · exact .inr ⟨buf, ctx, rfl, hproto, htype, hwalk, hhave, hsess, hnew⟩
          · rw [measurement_handle_rx_other hparse hsess]
            exact keeps_failure _ hactive

/-- An accepted request starts without samples, and completes nothing. -/
theorem accepted_start_eq (addr : UInt32) (port : UInt16) (sessionId : LinkId)
    (completion : Bool) (h : s.2.active = false) :
    (measResult s (.start addr port sessionId completion)).state.samples = #[] ∧
      (measResult s (.start addr port sessionId completion)).state.targetAddr = addr ∧
      (measResult s (.start addr port sessionId completion)).state.targetPort = port ∧
      (measResult s (.start addr port sessionId completion)).state.targetSession = sessionId := by
  show (measurementStart s.1 s.2 addr port sessionId completion).state.samples = #[] ∧ _
  unfold measResult measurementStart
  rw [h]
  exact ⟨rfl, rfl, rfl, rfl⟩

theorem completion_not_start {result : Bool × Int64} (h : (measResult s e).call = some result) :
    ¬ AcceptedStart s e := by
  cases e with
  | start addr port sessionId completion =>
      have hnone := measurement_start_call s.1 s.2 addr port sessionId completion
      rw [show (measResult s (.start addr port sessionId completion)).call = none from hnone] at h
      cases h
  | tick => exact id
  | rx => exact id

/-! ## Where the samples come from -/

/-- A call that is not an accepted request leaves samples from PONGs since the last one. -/
theorem SampleHistory.keep {past : List ((Clock × MeasState) × MeasCall)}
    (hpast : SampleHistory past s.2.targetAddr s.2.targetPort s.2.targetSession s.2.samples)
    (h : ¬ AcceptedStart s e) :
    SampleHistory (past ++ stamped s e) s.2.targetAddr s.2.targetPort s.2.targetSession
      (measResult s e).state.samples := by
  obtain ⟨before, s₀, completion, since, rfl, hinactive, hsince, hsamples⟩ := hpast
  refine ⟨before, s₀, completion, since ++ stamped s e, ?_, hinactive, ?_, ?_⟩
  · rw [List.append_assoc, List.cons_append]
  · intro later hlater
    rcases List.mem_append.mp hlater with hlater | hlater
    · exact hsince later hlater
    · obtain rfl := List.mem_singleton.mp hlater
      exact h
  · intro sample hsample
    rcases (meas_keeps s e h).samples sample hsample with hold | hnew
    · obtain ⟨received, hreceived, hpong⟩ := hsamples sample hold
      exact ⟨received, List.mem_append_left _ hreceived, hpong⟩
    · exact ⟨(s, e), List.mem_append_right _ (List.mem_singleton_self _), hnew⟩

/-- No request has been accepted yet, or the samples come from PONGs since the last one. -/
def SamplesAccounted (s : Clock × MeasState) (past : List ((Clock × MeasState) × MeasCall)) :
    Prop :=
  s.2.samples.size ≤ maxSamples ∧
    (s.2.active = false ∨
      SampleHistory past s.2.targetAddr s.2.targetPort s.2.targetSession s.2.samples)

theorem step_accounted {past : List ((Clock × MeasState) × MeasCall)}
    (h : SamplesAccounted s past) :
    SamplesAccounted (measNext s e) (past ++ stamped s e) := by
  by_cases hstart : AcceptedStart s e
  · -- the history starts over with the request, which empties the samples
    cases e with
    | start addr port sessionId completion =>
        obtain ⟨hsamples, haddr, hport, hsession⟩ :=
          accepted_start_eq addr port sessionId completion hstart
        unfold SamplesAccounted measNext
        dsimp only
        rw [hsamples, haddr, hport, hsession]
        refine ⟨Nat.zero_le _, .inr ⟨past, s, completion, [], rfl, hstart, by simp, by simp⟩⟩
    | tick => exact hstart.elim
    | rx => exact hstart.elim
  · have hkeep := meas_keeps s e hstart
    obtain ⟨haddr, hport, hsession⟩ := hkeep.target
    refine ⟨hkeep.room h.1, ?_⟩
    rcases h.2 with hidle | hpast
    · refine .inl ?_
      show (measResult s e).state.active = false
      rw [hkeep.idle hidle]
      exact hidle
    · have hnext := hpast.keep hstart
      rw [← haddr, ← hport, ← hsession] at hnext
      exact .inr hnext

/-! ## Between two requests -/

/-- Nothing happens while no measurement is active and none is requested. -/
theorem quiet_run {es : List MeasCall} (hidle : s.2.active = false)
    (h : Guarded measNext (fun s e => ¬ AcceptedStart s e) s es) :
    run measNext s es = s ∧ log measNext completions s es = [] ∧
      log measNext measSent s es = [] := by
  induction es with
  | nil => exact ⟨rfl, rfl, rfl⟩
  | cons e es ih =>
      have hresult := (meas_keeps s e h.1).idle hidle
      have hnext : measNext s e = s := by
        unfold measNext
        rw [hresult]
        rfl
      obtain ⟨hrun, hcalls, hsent⟩ := ih (hnext ▸ h.2)
      refine ⟨by rw [run_cons, hnext, hrun], ?_, ?_⟩
      · rw [log_cons, hnext, hcalls, completions, hresult]
        rfl
      · rw [log_cons, hnext, hsent, measSent, hresult]
        rfl

/-- Between two accepted requests `completion` is called at most once. -/
theorem completes_once {es : List MeasCall}
    (h : Guarded measNext (fun s e => ¬ AcceptedStart s e) s es) :
    (log measNext completions s es).length ≤ 1 := by
  induction es generalizing s with
  | nil => exact Nat.zero_le 1
  | cons e es ih =>
      rw [log_cons]
      cases hcall : (measResult s e).call with
      | none =>
          rw [completions, hcall]
          exact ih h.2
      | some result =>
          -- the first completion ends the measurement, and what follows is quiet
          have hidle : (measNext s e).2.active = false := (meas_keeps s e h.1).finished result hcall
          rw [completions, hcall, (quiet_run hidle h.2).2.1]
          exact Nat.le_refl 1

/-! ## Whole runs -/

theorem run_accounted (c : Clock) (es : List MeasCall) :
    SamplesAccounted (run measNext (c, .zero) es) (log measNext stamped (c, .zero) es) := by
  have hinit : SamplesAccounted (c, MeasState.zero) [] := ⟨Nat.zero_le _, .inl rfl⟩
  exact run_log_invariant (motive := SamplesAccounted) (fun _ _ _ h => step_accounted h) hinit es

/-- From power-up on, in any order of calls: at most 200 samples are stored; a success is
reported on more than 100 samples, all from PONGs of the target since the accepted request; a
measurement that has completed does nothing more and ignores every datagram; `completion` is
called at most once between accepted requests; and a request while one is active changes
nothing. -/
theorem measurement_runs (c : Clock) (es : List MeasCall) (s : Clock × MeasState)
    (hs : s = run measNext (c, .zero) es) :
    s.2.samples.size ≤ 200 ∧
    (∀ e intercept, (measResult s e).call = some (true, intercept) →
      100 < (measResult s e).state.samples.size ∧
      SampleHistory (log measNext stamped (c, .zero) (es ++ [e])) s.2.targetAddr s.2.targetPort
        s.2.targetSession (measResult s e).state.samples) ∧
    (∀ e result, (measResult s e).call = some result →
      (measNext s e).2.active = false ∧
      ∀ later, Guarded measNext (fun s e => ¬ AcceptedStart s e) (measNext s e) later →
        run measNext (measNext s e) later = measNext s e ∧
        log measNext completions (measNext s e) later = [] ∧
        log measNext measSent (measNext s e) later = []) ∧
    (∀ e later, AcceptedStart s e →
      Guarded measNext (fun s e => ¬ AcceptedStart s e) (measNext s e) later →
      (log measNext completions s (e :: later)).length ≤ 1) ∧
    (s.2.active = true → ∀ addr port sessionId completion,
      measResult s (.start addr port sessionId completion) = .idle s.1 s.2) := by
  obtain ⟨hsize, hpast⟩ := run_accounted c es
  rw [← hs] at hsize hpast
  refine ⟨hsize, ?_, ?_, ?_, ?_⟩
  · intro e intercept hcall
    have hkeep := meas_keeps s e (completion_not_start hcall)
    refine ⟨hkeep.enough intercept hcall, ?_⟩
    rcases hpast with hidle | hpast
    · rw [hkeep.idle hidle] at hcall
      cases hcall
    · have hnext := hpast.keep (completion_not_start hcall)
      rw [log_append, ← hs]
      exact hnext
  · intro e result hcall
    have hidle := (meas_keeps s e (completion_not_start hcall)).finished result hcall
    exact ⟨hidle, fun later hlater => quiet_run hidle hlater⟩
  · intro e later hstart hlater
    have hnone : completions s e = [] := by
      cases e with
      | start addr port sessionId completion =>
          unfold completions
          rw [show (measResult s (.start addr port sessionId completion)).call = none from
            measurement_start_call s.1 s.2 addr port sessionId completion]
          rfl
      | tick => exact hstart.elim
      | rx => exact hstart.elim
    rw [log_cons, hnone]
    exact completes_once hlater
  · intro hactive addr port sessionId completion
    exact measurement_start_busy hactive

/-- A measurement that fails because the PONG names another session: it completes once, and the
tick after it does nothing. -/
theorem measurement_runs_refused :
    let s := run measNext (⟨fun _ => 1000, 0⟩, .zero) [.start 1 2 .zero true]
    let pong : MeasCall := .rx (pongFor (.ofBytes [1]) 5 1000 0 false) 1 2
    s.2.samples.size ≤ 200 ∧ completions s pong = [(false, 0)] ∧
      log measNext completions (measNext s pong) [.tick] = [] := by
  intro s pong
  have hruns := measurement_runs ⟨fun _ => 1000, 0⟩ [.start 1 2 .zero true] s rfl
  have hcall : (measResult s pong).call = some (false, 0) := by decide
  have hquiet := (hruns.2.2.1 pong (false, 0) hcall).2 [.tick] ⟨id, trivial⟩
  refine ⟨hruns.1, ?_, hquiet.2.1⟩
  rw [completions, hcall]
  rfl

end LinkFPGA
