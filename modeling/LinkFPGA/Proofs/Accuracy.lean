import Mathlib.Algebra.Order.Group.Abs
import Mathlib.Algebra.Order.Ring.Int
import LinkFPGA.Library.Runs
import LinkFPGA.Proofs.PingPong

/-!
# How far a measured intercept can be off

One measurement against an honest responder, over a network that keeps every PING and PONG ever
sent and delivers any of them at any time: what is never delivered is lost, and what is
delivered late, twice or out of order is covered. `Exchange` fixes the clocks, `Trial` is the
state, and a `Ping` remembers when it was sent and whose PONG supplied the previous ghost time
in it.

`samples_accurate` bounds every sample by the age of the oldest PING it rests on, in every run
in which no handled PONG echoes a previous ghost time that no PONG has supplied.
`unsupplied_sample` is the run in which the first PING is lost: the timer sends the second one
with a previous ghost time of 0, and the measurer takes that for a ghost time.
-/

namespace LinkFPGA

open Runs

/-! ## The exchange -/

/-- The clocks of a measurement. `time` is the measurer's host time at the successive instants
at which either node reads its clock; the responder's clock is ahead by `skew`. -/
structure Exchange where
  time : Nat → Nat
  monotone : ∀ k, time k ≤ time (k + 1)
  skew : Int
  /-- The responder's intercept. -/
  intercept : Int64
  session : LinkId
  addr : UInt32
  port : UInt16

/-- A PING in the network, with the host time it was sent at and the host time at which the PING
was sent whose PONG had supplied the measurer's previous ghost time by then. -/
structure Ping where
  buf : List UInt8
  sentAt : Nat
  supplied : Option Nat

/-- A PONG in the network, with the PING it answers. -/
structure Pong where
  buf : List UInt8
  ping : Ping

/-- The state of a measurement: the clock readings made, `S`, and all that was ever sent. -/
structure Trial where
  reads : Nat
  meas : MeasState
  pings : List Ping
  pongs : List Pong
  supplier : Option Nat

/-- What can happen next: the measurer's timer, the responder receiving a PING, the measurer
receiving a PONG. -/
inductive Action where
  | tick
  | answer (i : Nat)
  | deliver (j : Nat)
  deriving DecidableEq, Repr

/-- The payloads of the datagrams sent to one address. -/
def payloads (sent : List Datagram) : List (List UInt8) :=
  sent.filterMap fun
    | .unicast _ _ _ buf => some buf
    | _ => none

/-- Whether a PING carries a previous ghost time. -/
def carriesPrev (ping : List UInt8) : Bool :=
  (tlvEntries (ping.drop 9)).any fun entry => decide (entry.1 = keyPgt)

namespace Exchange

/-- The responder's ghost time minus the measurer's host time. -/
def offset (x : Exchange) : Int := x.skew + x.intercept.toInt

def measurerClock (x : Exchange) (reads : Nat) : Clock := ⟨fun k => UInt64.ofNat (x.time k), reads⟩

def responderClock (x : Exchange) (reads : Nat) : Clock :=
  ⟨fun k => (Int64.ofInt (x.time k + x.skew)).toUInt64, reads⟩

/-- The state after a handler of `measurement.c`. `send_ping` reads the clock twice, so the PING
was sent at the last reading but one. -/
def after (x : Exchange) (t : Trial) (supplier : Option Nat) (r : MeasResult) : Trial :=
  { t with
    reads := r.clock.reads
    meas := r.state
    supplier := supplier
    pings := t.pings ++ (payloads r.sent).map fun buf =>
      ⟨buf, x.time (r.clock.reads - 2), supplier⟩ }

/-- The measurement has just been started. -/
def begin (x : Exchange) : Trial :=
  x.after ⟨0, .zero, [], [], none⟩ none
    (measurementStart (x.measurerClock 0) .zero x.addr x.port x.session true)

/-- The PONG's content, if the measurer takes samples from it. -/
def accepted (x : Exchange) (s : MeasState) (buf : List UInt8) : Option PongCtx :=
  match parsePong s buf x.addr x.port with
  | none => none
  | some ctx => if ctx.sess ≠ s.targetSession then none else some ctx

def step (x : Exchange) (t : Trial) : Action → Trial
  | .tick => x.after t t.supplier (measurementTick (x.measurerClock t.reads) t.meas)
  | .answer i =>
      match t.pings[i]? with
      | none => t
      | some ping =>
          let r := measurementResponderHandleRx x.session x.intercept (x.responderClock t.reads)
            ping.buf 0 0
          { t with
            reads := r.1.reads
            pongs := t.pongs ++ (payloads r.2).map fun buf => ⟨buf, ping⟩ }
  | .deliver j =>
      match t.pongs[j]? with
      | none => t
      | some pong =>
          let supplier :=
            if (x.accepted t.meas pong.buf).isSome then some pong.ping.sentAt else t.supplier
          x.after t supplier
            (measurementHandleRx (x.measurerClock t.reads) t.meas pong.buf x.addr x.port)

end Exchange

/-! ## What a handled PONG contributes -/

/-- A PONG from which samples were taken: the host time at which it was handled, the earliest
send time among the PINGs its samples rest on, and the samples appended. -/
structure Handled where
  now : Nat
  earliest : Nat
  samples : List Int64

/-- The bound on the error of the samples. -/
def Handled.bound (e : Handled) : Nat := 1 + (e.now - e.earliest)

/-- The earliest send time among a PING and the PING behind the previous ghost time it carries. -/
def Ping.earliest (p : Ping) : Nat :=
  match p.supplied with
  | some h => if carriesPrev p.buf then min p.sentAt h else p.sentAt
  | none => p.sentAt

/-- The samples `measurement_handle_rx` appends to `S.samples`. -/
def appended (nowHost : Int64) (ctx : PongCtx) (s : MeasState) : List Int64 :=
  (recordSamples nowHost ctx s).samples.toList.drop s.samples.size

namespace Exchange

/-- The PONG handled by an action, if it is one. -/
def handled (x : Exchange) (t : Trial) : Action → List Handled
  | .deliver j =>
      match t.pongs[j]? with
      | none => []
      | some pong =>
          match x.accepted t.meas pong.buf with
          | none => []
          | some ctx =>
              [⟨x.time t.reads, pong.ping.earliest,
                appended (UInt64.ofNat (x.time t.reads)).toInt64 ctx t.meas⟩]
  | _ => []

/-- The intercept an action reports, if it completes the measurement. -/
def reported (x : Exchange) (t : Trial) : Action → List Int64
  | .deliver j =>
      match t.pongs[j]? with
      | none => []
      | some pong =>
          match (measurementHandleRx (x.measurerClock t.reads) t.meas pong.buf x.addr
            x.port).call with
          | some (true, intercept) => [intercept]
          | _ => []
  | _ => []

/-- The times are far from overflow, and a PONG that is delivered echoes a previous ghost time
only if an earlier PONG had supplied one. -/
def Supplied (x : Exchange) (t : Trial) (a : Action) : Prop :=
  x.time (t.reads + 2) < 2 ^ 60 ∧ -2 ^ 60 ≤ x.offset ∧ x.offset < 2 ^ 60 ∧
    match a with
    | .deliver j => ∀ pong ∈ t.pongs[j]?, carriesPrev pong.ping.buf = true →
        pong.ping.supplied.isSome = true
    | _ => True

instance (x : Exchange) (t : Trial) : ∀ a : Action, Decidable (x.Supplied t a)
  | .deliver j => inferInstanceAs (Decidable (_ ∧ _ ∧ _ ∧ ∀ pong ∈ t.pongs[j]?, _))
  | .tick | .answer _ => inferInstanceAs (Decidable (_ ∧ _ ∧ _ ∧ True))

end Exchange

/-! ## One sample -/

/-- Half the sum of two times that are far from overflow, truncated toward zero. -/
theorem half_sum_bounds {a b : Int64} (ha : -2 ^ 62 ≤ a.toInt ∧ a.toInt < 2 ^ 62)
    (hb : -2 ^ 62 ≤ b.toInt ∧ b.toInt < 2 ^ 62) :
    a.toInt + b.toInt - 1 ≤ 2 * ((a + b) / 2).toInt ∧
      2 * ((a + b) / 2).toInt ≤ a.toInt + b.toInt + 1 := by
  rw [half_sum_toInt ⟨by omega, by omega⟩]
  exact tdiv_two_bounds _

/-- The first sample: a ghost time read between sending and handling, less the midpoint. -/
theorem first_sample {now ht gt : Int64} {n h r offset : Int} (hnow : now.toInt = n)
    (hht : ht.toInt = h) (hgt : gt.toInt = r + offset) (hh : 0 ≤ h) (hhr : h ≤ r) (hrn : r ≤ n)
    (hn : n < 2 ^ 60) (hlo : -2 ^ 60 ≤ offset) (hhi : offset < 2 ^ 60) :
    |(gt - (now + ht) / 2).toInt - offset| ≤ 1 + (n - h) := by
  have hhalf := half_sum_bounds (a := now) (b := ht) (by omega) (by omega)
  rw [hnow, hht] at hhalf
  rw [sub_toInt_of_fits ⟨by omega, by omega⟩, hgt, abs_le]
  omega

/-- The second sample: the mean of two ghost times, less the send time between them. -/
theorem second_sample {ht gt pgt : Int64} {n h s r r' offset : Int} (hht : ht.toInt = h)
    (hgt : gt.toInt = r + offset) (hpgt : pgt.toInt = r' + offset) (hh : 0 ≤ s)
    (hsr : s ≤ r') (hrh : r' ≤ h) (hhr : h ≤ r) (hrn : r ≤ n) (hn : n < 2 ^ 60)
    (hlo : -2 ^ 60 ≤ offset) (hhi : offset < 2 ^ 60) :
    |((gt + pgt) / 2 - ht).toInt - offset| ≤ 1 + (n - s) := by
  have hhalf := half_sum_bounds (a := gt) (b := pgt) (by omega) (by omega)
  rw [hgt, hpgt] at hhalf
  rw [sub_toInt_of_fits ⟨by omega, by omega⟩, hht, abs_le]
  omega

/-- The samples after a PONG are the old ones, the first sample, and the second one if the PONG
carries a previous ghost time; none of them if there is no room. -/
theorem record_samples_append (nowHost : Int64) (ctx : PongCtx) (s : MeasState) :
    ∃ new, (recordSamples nowHost ctx s).samples = s.samples ++ new ∧
      ∀ v ∈ new, v = ctx.gt - (nowHost + ctx.ht) / 2 ∨
        ctx.havePgt = true ∧ v = (ctx.gt + ctx.pgt) / 2 - ctx.ht := by
  refine ⟨(newSamples nowHost ctx s).toArray, ?_, fun v hv => ?_⟩
  · exact Array.ext' (by simp [record_samples_list])
  · exact new_samples_cases (List.mem_toArray.mp hv)

/-- What `appended` lists is what was put behind the old samples. -/
theorem mem_appended {nowHost : Int64} {ctx : PongCtx} {s : MeasState} {v : Int64} :
    v ∈ (recordSamples nowHost ctx s).samples ↔ v ∈ s.samples ∨ v ∈ appended nowHost ctx s := by
  obtain ⟨new, hnew, _⟩ := record_samples_append nowHost ctx s
  unfold appended
  rw [hnew]
  simp

theorem appended_cases {nowHost : Int64} {ctx : PongCtx} {s : MeasState} {v : Int64}
    (h : v ∈ appended nowHost ctx s) :
    v = ctx.gt - (nowHost + ctx.ht) / 2 ∨
      ctx.havePgt = true ∧ v = (ctx.gt + ctx.pgt) / 2 - ctx.ht := by
  obtain ⟨new, hnew, hcases⟩ := record_samples_append nowHost ctx s
  unfold appended at h
  rw [hnew] at h
  exact hcases v (by simpa using h)

/-! ## What is in the network -/

namespace Exchange

variable {x : Exchange}

theorem time_mono (x : Exchange) {i k : Nat} (h : i ≤ k) : x.time i ≤ x.time k := by
  induction k, h using Nat.le_induction with
  | base => exact le_refl _
  | succ k _ ih => exact ih.trans (x.monotone k)

/-- The measurer's time stamp at an instant. -/
def stampAt (x : Exchange) (i : Nat) : Int64 := (UInt64.ofNat (x.time i)).toInt64

/-- The responder's ghost time at an instant. -/
def ghostAt (x : Exchange) (i : Nat) : UInt64 :=
  (Int64.ofInt (x.time i + x.skew)).toUInt64 + x.intercept.toUInt64

theorem stamp_at_toInt {i : Nat} (h : x.time i < 2 ^ 60) : (x.stampAt i).toInt = x.time i := by
  unfold stampAt
  rw [UInt64.toInt64_ofNat', Int64.toInt_ofNat_of_lt (by omega)]

theorem ghost_at_toInt {i : Nat} (h : x.time i < 2 ^ 60) (hlo : -2 ^ 60 ≤ x.offset)
    (hhi : x.offset < 2 ^ 60) : (x.ghostAt i).toInt64.toInt = x.time i + x.offset := by
  have hsum : (x.ghostAt i).toInt64 = Int64.ofInt (x.time i + x.skew) + x.intercept := rfl
  have hsize : Int64.size = 2 ^ 64 := rfl
  unfold offset at *
  rw [hsum, Int64.toInt_add, Int64.toInt_ofInt, hsize, Int.bmod_add_bmod,
    Int.bmod_eq_of_le (by omega) (by omega)]
  omega

/-- The value is the responder's ghost time at an instant before reading `k` and not before
`since`. -/
def ReadSince (x : Exchange) (k since : Nat) (ghost : Int64) : Prop :=
  ∃ i < k, since ≤ x.time i ∧ ghost = (x.ghostAt i).toInt64

/-- A PING that was sent before reading `k`. If it carries a previous ghost time that a PONG has
supplied, the responder read it after the PING of that PONG was sent. -/
def Sent (x : Exchange) (k : Nat) (p : Ping) : Prop :=
  ∃ i < k, p.sentAt = x.time i ∧ ∃ prev hasPrev, p.buf = encodePing (x.stampAt i) prev hasPrev ∧
    ∀ h, p.supplied = some h → x.ReadSince i h prev

/-- A PONG that was sent before reading `k`, in answer to a PING sent before. -/
def Answered (x : Exchange) (k : Nat) (q : Pong) : Prop :=
  ∃ r < k, ∃ i < r, q.ping.sentAt = x.time i ∧ ∃ prev hasPrev,
    q.ping.buf = encodePing (x.stampAt i) prev hasPrev ∧
    q.buf = pongFor x.session (x.ghostAt r) (x.stampAt i) prev hasPrev ∧
    ∀ h, q.ping.supplied = some h → x.ReadSince i h prev

theorem ReadSince.mono {k k' since : Nat} {ghost : Int64} (h : x.ReadSince k since ghost)
    (hk : k ≤ k') : x.ReadSince k' since ghost := by
  obtain ⟨i, hi, hrest⟩ := h
  exact ⟨i, by omega, hrest⟩

theorem Sent.mono {k k' : Nat} {p : Ping} (h : x.Sent k p) (hk : k ≤ k') : x.Sent k' p := by
  obtain ⟨i, hi, hrest⟩ := h
  exact ⟨i, by omega, hrest⟩

theorem Answered.mono {k k' : Nat} {q : Pong} (h : x.Answered k q) (hk : k ≤ k') :
    x.Answered k' q := by
  obtain ⟨r, hr, hrest⟩ := h
  exact ⟨r, by omega, hrest⟩

/-- The invariant of a measurement, given the PONGs handled so far. -/
structure Inv (x : Exchange) (t : Trial) (past : List Handled) : Prop where
  addr : t.meas.targetAddr = x.addr
  port : t.meas.targetPort = x.port
  session : t.meas.targetSession = x.session
  pings : ∀ p ∈ t.pings, x.Sent t.reads p
  pongs : ∀ q ∈ t.pongs, x.Answered t.reads q
  /-- The previous ghost time is the one its PONG brought. -/
  prev : ∀ h, t.supplier = some h → x.ReadSince t.reads h t.meas.prevGhostTime
  age : ∀ e ∈ past, e.bound ≤ 1 + x.time t.reads
  /-- Whatever bounds the error of every handled PONG bounds that of every sample. -/
  samples : ∀ B : Nat, (∀ e ∈ past, e.bound ≤ B) → ∀ v ∈ t.meas.samples,
    |v.toInt - x.offset| ≤ B

/-- Whether the PING carries a previous ghost time. -/
theorem carries_prev_encode (hostTime prev : Int64) (hasPrev : Bool) :
    carriesPrev (encodePing hostTime prev hasPrev) = hasPrev := by
  have hword (v : UInt64) : (putBe64 v).length < 2 ^ 32 := by
    rw [put_be64_length]
    omega
  have hentries : tlvEntries (pingPayload hostTime prev hasPrev) =
      (keyHt, putBe64 hostTime.toUInt64) ::
        if hasPrev then [(keyPgt, putBe64 prev.toUInt64)] else [] := by
    unfold tlvEntries pingPayload
    rw [tlv_emit_u64be_eq, tlv_walk_entry _ _ _ _ _ (hword _)]
    cases hasPrev with
    | false => rfl
    | true =>
        have hlast := List.append_nil (tlvEmitU64be keyPgt prev.toUInt64)
        rw [if_pos rfl, ← hlast, tlv_emit_u64be_eq, tlv_walk_entry _ _ _ _ _ (hword _)]
        rfl
  unfold carriesPrev
  rw [ping_drop, hentries]
  have hother : keyHt ≠ keyPgt := by decide
  cases hasPrev <;> simp [hother]

/-! ## One action -/

variable {t : Trial} {past : List Handled}

/-- The invariant survives the passing of time and whatever leaves the target, the previous
ghost time and the samples alone. -/
theorem Inv.later {s : MeasState} (h : x.Inv t past) {k : Nat} (hk : t.reads ≤ k)
    (haddr : s.targetAddr = t.meas.targetAddr) (hport : s.targetPort = t.meas.targetPort)
    (hsession : s.targetSession = t.meas.targetSession)
    (hprev : s.prevGhostTime = t.meas.prevGhostTime)
    (hsamples : ∀ v, v ∈ s.samples ↔ v ∈ t.meas.samples) :
    x.Inv { t with reads := k, meas := s } past where
  addr := haddr.trans h.addr
  port := hport.trans h.port
  session := hsession.trans h.session
  pings := fun p hp => (h.pings p hp).mono hk
  pongs := fun q hq => (h.pongs q hq).mono hk
  prev := fun h' hsupplier => hprev ▸ (h.prev h' hsupplier).mono hk
  age := fun e he => (h.age e he).trans (Nat.add_le_add_left (x.time_mono hk) 1)
  samples := fun B hB v hv => h.samples B hB v ((hsamples v).mp hv)

/-- A handler that sends nothing adds no PING. -/
theorem after_silent (t : Trial) (supplier : Option Nat) (r : MeasResult) (h : r.sent = []) :
    x.after t supplier r =
      { t with
        reads := r.clock.reads
        meas := r.state
        supplier := supplier } := by
  unfold after
  rw [h]
  simp [payloads]

/-- Sending a PING keeps the invariant. -/
theorem Inv.send (h : x.Inv t past) :
    x.Inv (x.after t t.supplier (sendPing (x.measurerClock t.reads) t.meas)) past := by
  have hbase := h.later (s := (sendPing (x.measurerClock t.reads) t.meas).state)
    (Nat.le_add_right t.reads 2) rfl rfl rfl rfl fun _ => Iff.rfl
  refine ⟨hbase.addr, hbase.port, hbase.session, ?_, hbase.pongs, hbase.prev, hbase.age,
    hbase.samples⟩
  intro p hp
  rcases List.mem_append.mp hp with hp | hp
  · exact hbase.pings p hp
  · have hnew : p = ⟨encodePing (x.stampAt t.reads) t.meas.prevGhostTime
        (decide (0 < t.meas.pingsSent)), x.time t.reads, t.supplier⟩ :=
      List.mem_singleton.mp hp
    rw [hnew]
    exact ⟨t.reads, Nat.lt_add_of_pos_right (Nat.succ_pos 1), rfl, _, _, rfl, h.prev⟩

/-- A tick keeps the invariant. -/
theorem Inv.tick (h : x.Inv t past) : x.Inv (x.step t .tick) past := by
  show x.Inv (x.after t t.supplier (measurementTick (x.measurerClock t.reads) t.meas)) past
  have hread : x.Inv { t with reads := t.reads + 1 } past :=
    h.later (Nat.le_succ _) rfl rfl rfl rfl fun _ => Iff.rfl
  unfold measurementTick
  split
  · rw [after_silent _ _ _ rfl]
    exact h
  · dsimp only
    split
    · split
      · rw [after_silent _ _ _ rfl]
        exact h.later (Nat.le_succ _) rfl rfl rfl rfl fun _ => Iff.rfl
      · exact hread.send
    · rw [after_silent _ _ _ rfl]
      exact hread

/-- The responder's answer keeps the invariant. -/
theorem Inv.answer (h : x.Inv t past) (i : Nat) : x.Inv (x.step t (.answer i)) past := by
  unfold step
  dsimp only
  cases hping : t.pings[i]? with
  | none => exact h
  | some ping =>
      -- the answer echoes the PING, and adds a ghost time read after it was sent
      obtain ⟨k, hk, hsentAt, prev, hasPrev, hbuf, hprev⟩ :=
        h.pings ping (List.mem_of_getElem? hping)
      have hanswer : measurementResponderHandleRx x.session x.intercept
          (x.responderClock t.reads) ping.buf 0 0 =
          (x.responderClock (t.reads + 1), [.unicast 0 0 linkDiscoveryPort
            (pongFor x.session (x.ghostAt t.reads) (x.stampAt k) prev hasPrev)]) := by
        unfold measurementResponderHandleRx
        rw [hbuf, is_ping_encode, if_pos rfl, encode_pong_ping]
        rfl
      dsimp only
      rw [hanswer]
      have hbase : x.Inv { t with reads := t.reads + 1 } past :=
        h.later (Nat.le_succ _) rfl rfl rfl rfl fun _ => Iff.rfl
      refine ⟨hbase.addr, hbase.port, hbase.session, hbase.pings, ?_, hbase.prev, hbase.age,
        hbase.samples⟩
      intro q hq
      rcases List.mem_append.mp hq with hq | hq
      · exact hbase.pongs q hq
      · have hnew : q = ⟨pongFor x.session (x.ghostAt t.reads) (x.stampAt k) prev hasPrev,
            ping⟩ := by
          simpa [payloads] using hq
        rw [hnew]
        exact ⟨t.reads, Nat.lt_succ_self _, k, hk, hsentAt, prev, hasPrev, hbuf, rfl, hprev⟩

/-- A PONG in the network is parsed to what its PING and the responder's ghost time say, unless
the measurement is over. -/
theorem Inv.parsed (h : x.Inv t past) {q : Pong} (hq : q ∈ t.pongs) :
    (t.meas.active = false ∧ parsePong t.meas q.buf x.addr x.port = none) ∨
      ∃ r < t.reads, ∃ i < r, q.ping.sentAt = x.time i ∧ ∃ prev hasPrev,
        carriesPrev q.ping.buf = hasPrev ∧
        parsePong t.meas q.buf x.addr x.port =
          some (pongContent x.session (x.ghostAt r) (x.stampAt i) prev hasPrev) ∧
        ∀ h, q.ping.supplied = some h → x.ReadSince i h prev := by
  obtain ⟨r, hr, i, hi, hsentAt, prev, hasPrev, hping, hpong, hprev⟩ := h.pongs q hq
  cases hactive : t.meas.active with
  | false =>
      left
      refine ⟨rfl, ?_⟩
      unfold parsePong
      rw [hactive]
      rfl
  | true =>
      right
      refine ⟨r, hr, i, hi, hsentAt, prev, hasPrev, ?_, ?_, hprev⟩
      · rw [hping, carries_prev_encode]
      · rw [hpong, ← h.addr, ← h.port, parse_pong_encode hactive]

/-- The bound on the samples taken from a PONG that echoes no unsupplied ghost time. -/
theorem appended_accurate {r i k : Nat} {q : Pong} {prev : Int64} {hasPrev : Bool}
    {s : MeasState} (hi : i < r) (hr : r < k) (hk : x.time k < 2 ^ 60) (hlo : -2 ^ 60 ≤ x.offset)
    (hhi : x.offset < 2 ^ 60) (hsentAt : q.ping.sentAt = x.time i)
    (hcarries : carriesPrev q.ping.buf = hasPrev)
    (hprev : ∀ h, q.ping.supplied = some h → x.ReadSince i h prev)
    (hsupplied : hasPrev = true → q.ping.supplied.isSome = true) {v : Int64}
    (hv : v ∈ appended (x.stampAt k)
      (pongContent x.session (x.ghostAt r) (x.stampAt i) prev hasPrev) s) :
    |v.toInt - x.offset| ≤ (1 + (x.time k - q.ping.earliest) : Nat) := by
  have hir := x.time_mono hi.le
  have hrk := x.time_mono hr.le
  have hnow := stamp_at_toInt hk
  have hht := stamp_at_toInt (x := x) (i := i) (by omega)
  have hgt := ghost_at_toInt (x := x) (i := r) (by omega) hlo hhi
  have hearliest : q.ping.earliest ≤ x.time i := by
    unfold Ping.earliest
    split
    · split
      · exact (min_le_left _ _).trans hsentAt.le
      · exact hsentAt.le
    · exact hsentAt.le
  -- one sample spans this round trip, the other reaches back to the PONG before it
  rcases appended_cases hv with rfl | ⟨hhas, rfl⟩
  · have hfirst := first_sample hnow hht hgt (by omega) (by omega) (by omega) (by omega) hlo hhi
    refine hfirst.trans ?_
    omega
  · have hhas : hasPrev = true := hhas
    obtain ⟨h, hh⟩ := Option.isSome_iff_exists.mp (hsupplied hhas)
    obtain ⟨r', hr', hsince, hghost⟩ := hprev h hh
    have hri := x.time_mono hr'.le
    have hpgt : (if hasPrev then prev else 0).toInt = x.time r' + x.offset := by
      rw [if_pos hhas, hghost, ghost_at_toInt (by omega) hlo hhi]
    have hsecond := second_sample (n := x.time k) (s := h) hht hgt hpgt (by omega) (by omega)
      (by omega) (by omega) (by omega) (by omega) hlo hhi
    refine hsecond.trans ?_
    have hoften : q.ping.earliest ≤ h := by
      unfold Ping.earliest
      rw [hh]
      dsimp only
      rw [hcarries, if_pos hhas]
      exact min_le_right _ _
    omega

/-- Taking the samples of a PONG and noting its ghost time keeps the invariant. -/
theorem Inv.record (h : x.Inv t past) {ctx : PongCtx} {entry : Handled} {since : Nat}
    (hentry : entry.samples = appended (x.stampAt t.reads) ctx t.meas)
    (hage : entry.bound ≤ 1 + x.time t.reads)
    (haccurate : ∀ v ∈ entry.samples, |v.toInt - x.offset| ≤ entry.bound)
    (hghost : x.ReadSince t.reads since ctx.gt) :
    x.Inv
      { t with
        reads := t.reads + 1
        meas := recordSamples (x.stampAt t.reads) ctx t.meas
        supplier := some since }
      (past ++ [entry]) := by
  obtain ⟨haddr, hport, hsession, hprev⟩ := record_samples_target (x.stampAt t.reads) ctx t.meas
  have hnext := x.monotone t.reads
  refine ⟨haddr.trans h.addr, hport.trans h.port, hsession.trans h.session,
    fun p hp => (h.pings p hp).mono (Nat.le_succ _),
    fun q hq => (h.pongs q hq).mono (Nat.le_succ _), ?_, ?_, ?_⟩
  · intro since' hsince
    cases hsince
    exact hprev ▸ hghost.mono (Nat.le_succ _)
  · intro e he
    rcases List.mem_append.mp he with he | he
    · exact (h.age e he).trans (Nat.add_le_add_left hnext 1)
    · rw [List.mem_singleton.mp he]
      exact hage.trans (Nat.add_le_add_left hnext 1)
  · intro B hB v hv
    rcases mem_appended.mp hv with hv | hv
    · exact h.samples B (fun e he => hB e (List.mem_append_left _ he)) v hv
    · have hbound := hB entry (List.mem_append_right _ (List.mem_singleton_self _))
      refine (haccurate v (hentry ▸ hv)).trans ?_
      omega

/-- The median of the samples is no further off than the oldest PONG handled. -/
theorem Inv.median (h : x.Inv t past) (hk : x.time t.reads < 2 ^ 60) (hlo : -2 ^ 60 ≤ x.offset)
    (hhi : x.offset < 2 ^ 60) (hne : t.meas.samples.size ≠ 0) {B : Nat}
    (hB : ∀ e ∈ past, e.bound ≤ B) : |(medianI64 t.meas.samples).2.toInt - x.offset| ≤ B := by
  have hsamples := h.samples (min B (1 + x.time t.reads)) fun e he => le_min (hB e he) (h.age e he)
  have hmin := min_le_left B (1 + x.time t.reads)
  have hmin' := min_le_right B (1 + x.time t.reads)
  generalize min B (1 + x.time t.reads) = C at *
  have hmedian : x.offset - C ≤ (medianI64 t.meas.samples).2.toInt ∧
      (medianI64 t.meas.samples).2.toInt ≤ x.offset + C := by
    refine median_between hne (by omega) (by omega) ?_
    intro v hv
    have hv := abs_le.mp (hsamples v hv)
    omega
  rw [abs_le]
  omega

/-- What follows the recorded samples, the report of their median or the next PING, keeps the
invariant; the reported intercept is within the greatest bound so far. -/
theorem Inv.conclude (h : x.Inv t past) (hk : x.time t.reads < 2 ^ 60) (hlo : -2 ^ 60 ≤ x.offset)
    (hhi : x.offset < 2 ^ 60) {r : MeasResult}
    (hr : r = if linkSampleThreshold < t.meas.samples.size then
      finish (x.measurerClock t.reads) { t.meas with samples := (medianI64 t.meas.samples).1 } true
        (medianI64 t.meas.samples).2
      else sendPing (x.measurerClock t.reads) t.meas) :
    x.Inv (x.after t t.supplier r) past ∧ ∀ m, r.call = some (true, m) →
      ∀ B : Nat, (∀ e ∈ past, e.bound ≤ B) → |m.toInt - x.offset| ≤ B := by
  rw [hr]
  by_cases hmany : linkSampleThreshold < t.meas.samples.size
  · rw [if_pos hmany]
    constructor
    · rw [after_silent _ _ _ rfl]
      refine h.later (le_refl _) rfl rfl rfl rfl ?_
      intro v
      exact (median_perm t.meas.samples).mem_iff
    · intro m hm B hB
      have hmedian := h.median hk hlo hhi (Nat.ne_zero_of_lt hmany) hB
      unfold finish at hm
      dsimp only at hm
      cases hcompletion : t.meas.completion with
      | false => simp [hcompletion] at hm
      | true =>
          rw [hcompletion, if_pos rfl] at hm
          cases hm
          exact hmedian
  · rw [if_neg hmany]
    exact ⟨h.send, by simp [sendPing]⟩

/-- A delivered PONG that echoes no unsupplied ghost time keeps the invariant; its samples are
within its bound, and the intercept it reports, if any, within the greatest bound so far. -/
theorem Inv.deliver (h : x.Inv t past) {j : Nat} (hguard : x.Supplied t (.deliver j)) :
    x.Inv (x.step t (.deliver j)) (past ++ x.handled t (.deliver j)) ∧
      (∀ e ∈ x.handled t (.deliver j), ∀ v ∈ e.samples, |v.toInt - x.offset| ≤ e.bound) ∧
      ∀ m ∈ x.reported t (.deliver j), ∀ B : Nat,
        (∀ e ∈ past ++ x.handled t (.deliver j), e.bound ≤ B) → |m.toInt - x.offset| ≤ B := by
  obtain ⟨htime, hlo, hhi, hsupplied⟩ := hguard
  have hk := (x.time_mono (Nat.le_add_right t.reads 2)).trans_lt htime
  have hk1 := (x.time_mono (Nat.le_succ (t.reads + 1))).trans_lt htime
  unfold step handled reported
  dsimp only at hsupplied ⊢
  cases hpong : t.pongs[j]? with
  | none =>
      refine ⟨?_, by simp, by simp⟩
      rw [List.append_nil]
      exact h
  | some q =>
      dsimp only
      rcases h.parsed (List.mem_of_getElem? hpong) with ⟨_, hnone⟩ | hsome
      · have haccepted : x.accepted t.meas q.buf = none := by
          unfold accepted
          rw [hnone]
        rw [haccepted, measurement_handle_rx_none hnone]
        refine ⟨?_, by simp, by simp [MeasResult.idle]⟩
        rw [List.append_nil, after_silent _ _ _ rfl]
        exact h
      · obtain ⟨r, hr, i, hi, hsentAt, prev, hasPrev, hcarries, hparse, hprev⟩ := hsome
        set ctx := pongContent x.session (x.ghostAt r) (x.stampAt i) prev hasPrev with hctx
        have hsess : ctx.sess = t.meas.targetSession := h.session.symm
        have haccepted : x.accepted t.meas q.buf = some ctx := by
          unfold accepted
          rw [hparse]
          exact if_neg (not_not.mpr hsess)
        have haccurate : ∀ v ∈ appended (x.stampAt t.reads) ctx t.meas,
            |v.toInt - x.offset| ≤ (1 + (x.time t.reads - q.ping.earliest) : Nat) := by
          intro v hv
          refine appended_accurate hi hr hk hlo hhi hsentAt hcarries hprev ?_ hv
          intro hhas
          exact hsupplied q hpong (hcarries.trans hhas)
        have hghost : x.ReadSince t.reads q.ping.sentAt ctx.gt :=
          ⟨r, hr, hsentAt ▸ x.time_mono hi.le, rfl⟩
        let entry : Handled :=
          ⟨x.time t.reads, q.ping.earliest, appended (x.stampAt t.reads) ctx t.meas⟩
        have hsamples : entry.samples = appended (x.stampAt t.reads) ctx t.meas := rfl
        have hage : entry.bound ≤ 1 + x.time t.reads := Nat.add_le_add_left (Nat.sub_le _ _) 1
        have hentry : ∀ e ∈ [entry], ∀ v ∈ e.samples, |v.toInt - x.offset| ≤ e.bound := by
          intro e he
          rw [List.mem_singleton.mp he]
          exact haccurate
        -- the samples are taken first, and the median or the next PING comes after them
        have hrecorded := h.record hsamples hage haccurate hghost
        obtain ⟨hinv, hmedian⟩ := hrecorded.conclude hk1 hlo hhi
          (measurement_handle_rx_accepted hparse hsess (x.measurerClock t.reads))
        rw [haccepted]
        refine ⟨hinv, hentry, ?_⟩
        intro m hm
        refine hmedian m ?_
        split at hm
        · rename_i hcall
          rw [hcall, List.mem_singleton.mp hm]
        · cases hm

/-! ## Whole measurements -/

/-- The invariant holds once `measurement_start` has sent the first PING. -/
theorem begin_inv (x : Exchange) : x.Inv x.begin [] := by
  let started : MeasState :=
    { MeasState.zero with
      active := true
      targetAddr := x.addr
      targetPort := x.port
      targetSession := x.session
      completion := true }
  have hstarted : x.Inv ⟨0, started, [], [], none⟩ [] := by
    refine ⟨rfl, rfl, rfl, ?_, ?_, ?_, ?_, ?_⟩
    · intro p hp
      cases hp
    · intro q hq
      cases hq
    · intro h hsupplier
      cases hsupplier
    · intro e he
      cases he
    · intro B _ v hv
      simp [started, MeasState.zero] at hv
  exact hstarted.send

/-- Every action keeps the invariant. -/
theorem step_inv {a : Action} (h : x.Inv t past) (hguard : x.Supplied t a) :
    x.Inv (x.step t a) (past ++ x.handled t a) := by
  cases a with
  | tick =>
      rw [show x.handled t .tick = [] from rfl, List.append_nil]
      exact h.tick
  | answer i =>
      rw [show x.handled t (.answer i) = [] from rfl, List.append_nil]
      exact h.answer i
  | deliver j => exact (h.deliver hguard).1

theorem run_inv {as : List Action} (h : Guarded x.step x.Supplied x.begin as) :
    x.Inv (run x.step x.begin as) (log x.step x.handled x.begin as) :=
  run_log_induct (fun _ _ _ hinv hguard => step_inv hinv hguard) (begin_inv x) h

/-- In every measurement in which no handled PONG echoes an unsupplied ghost time, each sample
differs from the responder's offset by at most the age of the oldest PING it rests on, plus one,
and the reported median by no more than the largest such bound. -/
theorem samples_accurate (x : Exchange) (as : List Action)
    (h : Guarded x.step x.Supplied x.begin as) :
    (∀ e ∈ log x.step x.handled x.begin as, ∀ v ∈ e.samples,
      |v.toInt - x.offset| ≤ (1 + (e.now - e.earliest) : Nat)) ∧
    ∀ m ∈ log x.step x.reported x.begin as, ∀ B : Nat,
      (∀ e ∈ log x.step x.handled x.begin as, 1 + (e.now - e.earliest) ≤ B) →
      |m.toInt - x.offset| ≤ B := by
  constructor
  · intro e he
    obtain ⟨before, a, after, rfl, hat⟩ := mem_log he
    have hinv := run_inv h.initial
    have hguard := h.at_step
    cases a with
    | tick | answer => cases hat
    | deliver j => exact (hinv.deliver hguard).2.1 e hat
  · intro m hm B hB
    obtain ⟨before, a, after, rfl, hat⟩ := mem_log hm
    have hinv := run_inv h.initial
    have hguard := h.at_step
    cases a with
    | tick | answer => cases hat
    | deliver j =>
        refine (hinv.deliver hguard).2.2 m hat B ?_
        intro e he
        refine hB e ?_
        rw [log_append, log_cons, ← List.append_assoc]
        exact List.mem_append_left _ he

/-! ## A lost PING -/

/-- Clock readings 100 ms apart, and a responder that is five seconds ahead. -/
def distant : Exchange where
  time k := 1000 + 100000 * k
  monotone k := by omega
  skew := 5000000
  intercept := 0
  session := .zero
  addr := 1
  port := 2

/-- The first two PINGs are answered in turn. -/
theorem samples_accurate_distant :
    ∃ e ∈ log distant.step distant.handled distant.begin
      [.answer 0, .deliver 0, .answer 1, .deliver 1],
      e.samples.length = 2 ∧
        ∀ v ∈ e.samples, |v.toInt - distant.offset| ≤ (1 + (e.now - e.earliest) : Nat) := by
  have hguard : Guarded distant.step distant.Supplied distant.begin
      [.answer 0, .deliver 0, .answer 1, .deliver 1] := by
    decide +kernel
  have hentry : ∃ e ∈ log distant.step distant.handled distant.begin
      [.answer 0, .deliver 0, .answer 1, .deliver 1], e.samples.length = 2 := by
    decide +kernel
  obtain ⟨e, he, htwo⟩ := hentry
  exact ⟨e, he, htwo, (samples_accurate distant _ hguard).1 e he⟩

/-- The first PING is lost, and the timer's PING is answered: its PONG echoes a previous ghost
time of 0, and the second sample is off by more than two and a half seconds. -/
theorem unsupplied_sample :
    ¬ ∀ (x : Exchange) (as : List Action), ∀ e ∈ log x.step x.handled x.begin as,
      ∀ v ∈ e.samples, |v.toInt - x.offset| ≤ (1 + (e.now - e.earliest) : Nat) := by
  intro h
  have hwrong : ∃ e ∈ log distant.step distant.handled distant.begin [.tick, .answer 1, .deliver 0],
      ∃ v ∈ e.samples, ¬ |v.toInt - distant.offset| ≤ (1 + (e.now - e.earliest) : Nat) := by
    decide +kernel
  obtain ⟨e, he, v, hv, hfar⟩ := hwrong
  exact hfar (h distant _ e he v hv)

end Exchange

end LinkFPGA
