import Mathlib.Algebra.Order.Group.Abs
import Mathlib.Algebra.Order.Group.Int
import LinkFPGA.Proofs.SessionTracking

/-!
# Two nodes that measure each other

Each node decides alone, by the difference of the two ghost times as it has measured it, whether
to join the other's session. An `Election` is two nodes and the PONGs between them; a node that
has joined a session reports that session in the PONGs it sends from then on.

The two decisions exclude each other (`joins_exclusive`), which is why the nodes never swap
sessions, and one of them is to join unless the ghost times differ by `SESSION_EPS` exactly
(`joins_of_ne`). `election_agrees` carries both through every order of completions.
-/

namespace LinkFPGA

open Runs

/-! ## The comparison of identifiers -/

/-- On buffers of one length, `memcmp` compares lexicographically. -/
theorem memcmp_neg_iff {as bs : List UInt8} (h : as.length = bs.length) :
    memcmp as bs < 0 ↔ as < bs := by
  induction as generalizing bs with
  | nil =>
      cases bs with
      | nil => simp [memcmp]
      | cons b bs => cases h
  | cons a as ih =>
      cases bs with
      | nil => cases h
      | cons b bs =>
          rw [memcmp, List.cons_lt_cons_iff]
          by_cases hab : a = b
          · subst hab
            rw [if_pos rfl, ih (Nat.succ.inj h)]
            simp
          · rw [if_neg hab, UInt8.lt_iff_toNat_lt]
            constructor
            · intro hlt
              exact .inl (by omega)
            · rintro (hlt | ⟨heq, _⟩)
              · omega
              · exact absurd heq hab

/-- Swapping the buffers swaps the sign. -/
theorem memcmp_swap (as bs : List UInt8) : memcmp bs as = -memcmp as bs := by
  induction as generalizing bs with
  | nil => cases bs <;> rfl
  | cons a as ih =>
      cases bs with
      | nil => rfl
      | cons b bs =>
          rw [memcmp, memcmp]
          by_cases hab : a = b
          · rw [if_pos hab, if_pos hab.symm, ih]
          · rw [if_neg hab, if_neg (Ne.symm hab)]
            omega

/-- Only equal buffers compare equal. -/
theorem eq_of_memcmp {as bs : List UInt8} (hlen : as.length = bs.length)
    (h : memcmp as bs = 0) : as = bs := by
  induction as generalizing bs with
  | nil =>
      cases bs with
      | nil => rfl
      | cons b bs => cases hlen
  | cons a as ih =>
      cases bs with
      | nil => cases hlen
      | cons b bs =>
          rw [memcmp] at h
          by_cases hab : a = b
          · rw [if_pos hab] at h
            rw [hab, ih (Nat.succ.inj hlen) h]
          · rw [if_neg hab] at h
            exact absurd (UInt8.toNat_inj.mp (by omega)) hab

/-- Of two distinct identifiers one is lexicographically smaller, and the other is not. -/
theorem LinkId.lt_or_lt {a b : LinkId} (h : a ≠ b) : a.bytes < b.bytes ∨ b.bytes < a.bytes := by
  have hlen : a.bytes.length = b.bytes.length := by rw [a.length_bytes, b.length_bytes]
  rw [← memcmp_neg_iff hlen, ← memcmp_neg_iff hlen.symm, memcmp_swap a.bytes b.bytes]
  have hne : memcmp a.bytes b.bytes ≠ 0 := by
    intro hzero
    have hbytes := eq_of_memcmp hlen hzero
    rcases a with ⟨as, _⟩
    rcases b with ⟨bs, _⟩
    subst hbytes
    exact h rfl
  omega

theorem LinkId.lt_asymm {a b : LinkId} (h : a.bytes < b.bytes) : ¬ b.bytes < a.bytes := by
  have hlen : a.bytes.length = b.bytes.length := by rw [a.length_bytes, b.length_bytes]
  rw [← memcmp_neg_iff hlen] at h
  rw [← memcmp_neg_iff hlen.symm, memcmp_swap a.bytes b.bytes]
  omega

/-- The `SESSION_EPS` rule on a difference that has an absolute value. -/
theorem switch_to_new_iff {diff : Int64} (hmin : -2 ^ 63 < diff.toInt) (target self : LinkId) :
    switchToNew diff target self = true ↔
      500000 < diff.toInt ∨ (|diff.toInt| < 500000 ∧ target.bytes < self.bytes) := by
  have heps : linkSessionEpsUs.toInt = 500000 := rfl
  have habs : (llabs diff).toInt = |diff.toInt| := by
    have hmax := diff.toInt_lt
    unfold llabs
    by_cases hneg : diff < 0
    · have hneg' : diff.toInt < 0 := Int64.lt_iff_toInt_lt.mp hneg
      rw [if_pos hneg, Int64.toInt_neg, abs_of_neg hneg']
      exact Int.bmod_eq_of_le (by omega) (by omega)
    · have hpos : 0 ≤ diff.toInt := Int.not_lt.mp fun h => hneg (Int64.lt_iff_toInt_lt.mpr h)
      rw [if_neg hneg, abs_of_nonneg hpos]
  have hlen : target.bytes.length = self.bytes.length := by
    rw [target.length_bytes, self.length_bytes]
  unfold switchToNew
  by_cases hahead : linkSessionEpsUs < diff
  · rw [if_pos hahead]
    rw [Int64.lt_iff_toInt_lt, heps] at hahead
    exact iff_of_true rfl (.inl hahead)
  · rw [if_neg hahead]
    rw [Int64.lt_iff_toInt_lt, heps] at hahead
    by_cases hnear : llabs diff < linkSessionEpsUs
    · rw [if_pos hnear, decide_eq_true_iff, memcmp_neg_iff hlen]
      rw [Int64.lt_iff_toInt_lt, heps, habs] at hnear
      constructor
      · intro hsmaller
        exact .inr ⟨hnear, hsmaller⟩
      · rintro (h | ⟨_, hsmaller⟩)
        · exact absurd h hahead
        · exact hsmaller
    · rw [if_neg hnear]
      rw [Int64.lt_iff_toInt_lt, heps, habs] at hnear
      simp [hahead, hnear]

/-! ## What a measurement datagram does to a measurement -/

/-- A datagram that reports no success leaves the measurement running on its target, unless it
is a PONG of another session, which ends it. -/
theorem measurement_handle_rx_quiet {c : Clock} {s : MeasState} {buf : List UInt8}
    {srcAddr : UInt32} {srcPort : UInt16} (hcompletion : s.completion = true)
    (hquiet : ∀ intercept,
      (measurementHandleRx c s buf srcAddr srcPort).call ≠ some (true, intercept)) :
    let s' := (measurementHandleRx c s buf srcAddr srcPort).state
    (s'.active = s.active ∧ s'.targetSession = s.targetSession ∧ s'.completion = true) ∨
      ∃ ctx ∈ parsePong s buf srcAddr srcPort, ctx.sess ≠ s.targetSession := by
  cases hparse : parsePong s buf srcAddr srcPort with
  | none =>
      rw [measurement_handle_rx_none hparse]
      exact .inl ⟨rfl, rfl, hcompletion⟩
  | some ctx =>
      by_cases hsess : ctx.sess = s.targetSession
      · rw [measurement_handle_rx_accepted hparse hsess] at hquiet ⊢
        dsimp only at hquiet ⊢
        have hframe := record_samples_frame c.now.toInt64 ctx s
        have hflag := record_samples_completion c.now.toInt64 ctx s
        by_cases hfull : linkSampleThreshold < (recordSamples c.now.toInt64 ctx s).samples.size
        · -- a full measurement reports success, since it has a completion
          rw [if_pos hfull] at hquiet
          exact absurd (if_pos (hflag.trans hcompletion)) (hquiet _)
        · rw [if_neg hfull]
          exact .inl ⟨hframe.1, hframe.2, hflag.trans hcompletion⟩
      · exact .inr ⟨ctx, rfl, hsess⟩

/-- The measurement after a datagram that reports no success. -/
theorem pong_meas {w : World} {buf : List UInt8} {srcAddr : UInt32} {srcPort : UInt16}
    (hmagic : buf.take 8 = kProtoLink)
    (hnone : reports w (.udp buf srcAddr srcPort) = []) :
    (step w (.udp buf srcAddr srcPort)).meas =
        (measurementHandleRx w.clock w.meas buf srcAddr srcPort).state ∧
      ∀ intercept, (measurementHandleRx w.clock w.meas buf srcAddr srcPort).call ≠
        some (true, intercept) := by
  have hquiet : ∀ intercept,
      (measurementHandleRx w.clock w.meas buf srcAddr srcPort).call ≠ some (true, intercept) := by
    intro intercept hcall
    simp [reports, hmagic, hcall, successOf] at hnone
  refine ⟨?_, hquiet⟩
  rw [step_pong hmagic]
  exact congrArg View.meas (apply_meas_view (w := w) hquiet)

/-! ## Two nodes -/

/-- Two nodes, and the PONGs in flight: the node a PONG is addressed to, and the session it
carries. -/
structure Election where
  node : Bool → World
  pongs : List (Bool × LinkId)

/-- What happens next: node `i`'s peer answers one of its PINGs, or node `i` receives a
measurement datagram. -/
inductive Move where
  | answer (i : Bool)
  | receive (i : Bool) (buf : List UInt8) (srcAddr : UInt32) (srcPort : UInt16)

namespace Election

/-- The election after one move. -/
def step (e : Election) : Move → Election
  | .answer i => { e with pongs := e.pongs ++ [(i, (e.node !i).linkSelfSession)] }
  | .receive i buf srcAddr srcPort =>
      { e with
        node := Function.update e.node i (LinkFPGA.step (e.node i) (.udp buf srcAddr srcPort)) }

/-- The datagrams received are those of the measurement: a PONG a node reads carries the session
of a PONG sent to it, and a measurement that succeeds has the exact intercept. -/
def Exact (measured : Bool → Int64) (e : Election) : Move → Prop
  | .answer _ => True
  | .receive i buf srcAddr srcPort =>
      buf.take 8 = kProtoLink ∧
      (∀ ctx ∈ parsePong (e.node i).meas buf srcAddr srcPort, (i, ctx.sess) ∈ e.pongs) ∧
      ∀ r ∈ reports (e.node i) (.udp buf srcAddr srcPort), r.2 = measured i

instance decidableExact (measured : Bool → Int64) (e : Election) :
    DecidablePred (Exact measured e)
  | .answer _ => .isTrue trivial
  | .receive _ _ _ _ => inferInstanceAs (Decidable (_ ∧ _ ∧ _))

/-- Two nodes with distinct ids, each in its own session and measuring the other's. The measured
intercepts are exact: they move the ghost time of each node to that of the other. -/
structure Facing (e : Election) (ghost : Bool → Int) (measured : Bool → Int64) : Prop where
  distinct : (e.node true).linkSelfId ≠ (e.node false).linkSelfId
  own : ∀ i, (e.node i).linkSelfSession = (e.node i).linkSelfId
  active : ∀ i, (e.node i).meas.active = true
  completion : ∀ i, (e.node i).meas.completion = true
  target : ∀ i, (e.node i).meas.targetSession = (e.node !i).linkSelfId
  noted : ∀ i, (e.node i).sActiveTargetSession = (e.node !i).linkSelfId
  exact : ∀ i, (measured i - ghostTimeGetIntercept (e.node i)).toInt = ghost (!i) - ghost i
  pongs : ∀ p ∈ e.pongs, p.2 = (e.node !p.1).linkSelfId

/-- Node `i` is to join the other's session. -/
def Joins (ids : Bool → LinkId) (ghost : Bool → Int) (i : Bool) : Prop :=
  500000 < ghost (!i) - ghost i ∨
    (|ghost (!i) - ghost i| < 500000 ∧ (ids !i).bytes < (ids i).bytes)

/-- The node whose session wins: the one with the larger ghost time if they differ by more than
`SESSION_EPS`, else the one with the smaller id. -/
def winner (ids : Bool → LinkId) (ghost : Bool → Int) : Bool :=
  if 500000 < |ghost true - ghost false| then decide (ghost false < ghost true)
  else decide ((ids true).bytes < (ids false).bytes)

variable {ids : Bool → LinkId} {ghost : Bool → Int}

/-- The two nodes are not both to join. -/
theorem joins_exclusive {i : Bool} (h : Joins ids ghost i) : ¬ Joins ids ghost (!i) := by
  unfold Joins at h ⊢
  rw [Bool.not_not]
  have hflip : |ghost i - ghost (!i)| = |ghost (!i) - ghost i| := abs_sub_comm _ _
  have habs := le_abs_self (ghost (!i) - ghost i)
  have habs' := neg_abs_le (ghost (!i) - ghost i)
  rcases h with hahead | ⟨hnear, hsmaller⟩
  · rintro (h' | ⟨h', _⟩)
    · omega
    · omega
  · rintro (h' | ⟨_, h'⟩)
    · omega
    · exact LinkId.lt_asymm hsmaller h'

/-- Unless the ghost times differ by `SESSION_EPS` exactly, the loser is to join, and the winner
is not. -/
theorem joins_of_ne (hids : ids true ≠ ids false) (hne : |ghost true - ghost false| ≠ 500000) :
    Joins ids ghost (!winner ids ghost) ∧ ¬ Joins ids ghost (winner ids ghost) := by
  have hjoins : Joins ids ghost (!winner ids ghost) := by
    unfold Joins winner
    by_cases hfar : 500000 < |ghost true - ghost false|
    · rw [if_pos hfar]
      by_cases hlarger : ghost false < ghost true
      · rw [decide_eq_true hlarger]
        rw [abs_of_pos (by omega)] at hfar
        exact .inl hfar
      · rw [decide_eq_false hlarger]
        rw [abs_of_nonpos (by omega)] at hfar
        exact .inl (by show 500000 < ghost false - ghost true; omega)
    · rw [if_neg hfar]
      have hnear : |ghost true - ghost false| < 500000 := by omega
      by_cases hsmaller : (ids true).bytes < (ids false).bytes
      · rw [decide_eq_true hsmaller]
        exact .inr ⟨hnear, hsmaller⟩
      · rw [decide_eq_false hsmaller]
        have hother : (ids false).bytes < (ids true).bytes :=
          (LinkId.lt_or_lt hids).resolve_left hsmaller
        exact .inr ⟨abs_sub_comm (ghost true) (ghost false) ▸ hnear, hother⟩
  refine ⟨hjoins, ?_⟩
  have hnot := joins_exclusive hjoins
  rwa [Bool.not_not] at hnot

/-- Node `i` still measures the other one from its own session. -/
structure Measuring (ids : Bool → LinkId) (ghost : Bool → Int) (measured : Bool → Int64)
    (i : Bool) (w : World) : Prop where
  session : w.linkSelfSession = ids i
  target : w.meas.targetSession = ids !i
  noted : w.sActiveTargetSession = ids !i
  completion : w.meas.completion = true
  exact : (measured i - ghostTimeGetIntercept w).toInt = ghost (!i) - ghost i

/-- Node `i` has joined the other's session if it was to. -/
def Decided (ids : Bool → LinkId) (ghost : Bool → Int) (i : Bool) (w : World) : Prop :=
  (Joins ids ghost i → w.linkSelfSession = ids !i) ∧
    (¬ Joins ids ghost i → w.linkSelfSession = ids i)

/-- What holds of node `i` at any time. -/
def NodeInv (ids : Bool → LinkId) (ghost : Bool → Int) (measured : Bool → Int64) (i : Bool)
    (w : World) : Prop :=
  if w.meas.active then Measuring ids ghost measured i w else Decided ids ghost i w

variable {measured : Bool → Int64} {i : Bool} {w : World}

/-- The result of an exact measurement is what the node was to do. -/
theorem Measuring.outcome (h : Measuring ids ghost measured i w)
    (hbound : -2 ^ 63 < ghost (!i) - ghost i) {w' : World} (houtcome : Outcome w (measured i) w') :
    Decided ids ghost i w' := by
  have hrule := switch_to_new_iff (h.exact.symm ▸ hbound) (ids !i) (ids i)
  rw [h.exact] at hrule
  unfold Outcome at houtcome
  rw [h.noted, h.session] at houtcome
  split at houtcome
  · rename_i hswitch
    exact ⟨fun _ => houtcome.1, fun hnot => absurd (hrule.mp hswitch) hnot⟩
  · rename_i hstay
    exact ⟨fun hjoins => absurd (hrule.mpr hjoins) hstay, fun _ => houtcome.1⟩

/-- A measurement datagram keeps what holds of its receiver. -/
theorem NodeInv.receive (h : NodeInv ids ghost measured i w)
    (hbound : -2 ^ 63 < ghost (!i) - ghost i) {buf : List UInt8} {srcAddr : UInt32}
    {srcPort : UInt16} (hmagic : buf.take 8 = kProtoLink)
    (hsession : ∀ ctx ∈ parsePong w.meas buf srcAddr srcPort,
      ctx.sess = ids (!i) ∨ Joins ids ghost (!i))
    (hreport : ∀ r ∈ reports w (.udp buf srcAddr srcPort), r.2 = measured i) :
    NodeInv ids ghost measured i (LinkFPGA.step w (.udp buf srcAddr srcPort)) := by
  unfold NodeInv at h ⊢
  rcases @pong_cases buf srcAddr srcPort w hmagic with
    ⟨hnone, hordinary⟩ | ⟨intercept, hreports, hdone⟩
  · have hheader : headerAccepted w.linkSelfId buf = false := by
      simp [headerAccepted, hmagic, proto_link_ne_hdr]
    have hnoted : (LinkFPGA.step w (.udp buf srcAddr srcPort)).sActiveTargetSession =
        w.sActiveTargetSession := by
      rw [hordinary.activeTarget]
      simp [requested, hheader]
    obtain ⟨hmeas, hquiet⟩ := pong_meas hmagic hnone
    by_cases hactive : w.meas.active = true
    · rw [if_pos hactive] at h
      rcases measurement_handle_rx_quiet h.completion hquiet with
        ⟨hsame, htarget, hcompletion⟩ | ⟨ctx, hparse, hsess⟩
      · rw [hmeas, hsame, if_pos hactive]
        refine ⟨hordinary.selfSession.trans h.session, ?_, hnoted.trans h.noted, ?_, ?_⟩
        · rw [hmeas, htarget, h.target]
        · rw [hmeas, hcompletion]
        · rw [hordinary.intercept, h.exact]
      · -- the other node has joined, so this one was not to
        have hjoins : Joins ids ghost !i :=
          (hsession ctx hparse).resolve_left fun hsame => hsess (hsame.trans h.target.symm)
        have hnot : ¬ Joins ids ghost i := by
          have hexclusive := joins_exclusive hjoins
          rwa [Bool.not_not] at hexclusive
        have hfailed : (LinkFPGA.step w (.udp buf srcAddr srcPort)).meas.active = false := by
          rw [hmeas, measurement_handle_rx_other hparse hsess]
          rfl
        rw [if_neg (by simp [hfailed])]
        exact ⟨fun hjoin => absurd hjoin hnot, fun _ => hordinary.selfSession.trans h.session⟩
    · -- an idle machine ignores the datagram, and the decision stands
      rw [if_neg hactive] at h
      have hidle : ¬ (LinkFPGA.step w (.udp buf srcAddr srcPort)).meas.active = true := by
        rw [hmeas]
        exact fun hback => hactive ((measurement_handle_rx_frame _ _ _ _ _).2 hback)
      rw [if_neg hidle]
      exact ⟨fun hjoins => hordinary.selfSession.trans (h.1 hjoins),
        fun hnot => hordinary.selfSession.trans (h.2 hnot)⟩
  · have hmem : (w.meas.targetSession, intercept) ∈ reports w (.udp buf srcAddr srcPort) := by
      rw [hreports]
      exact List.mem_singleton_self _
    rw [if_pos (reports_active hmem).1] at h
    rw [if_neg (by simp [hdone.idle])]
    obtain rfl : intercept = measured i := hreport _ hmem
    exact h.outcome hbound hdone.outcome

/-- What holds of both nodes, and of the PONGs in flight: a PONG carries its sender's own session
unless the sender was to join. -/
structure Inv (ids : Bool → LinkId) (ghost : Bool → Int) (measured : Bool → Int64)
    (e : Election) : Prop where
  node : ∀ i, NodeInv ids ghost measured i (e.node i)
  pongs : ∀ p ∈ e.pongs, p.2 = ids !p.1 ∨ Joins ids ghost !p.1

/-- A node's session is its own unless the node was to join. -/
theorem NodeInv.session (h : NodeInv ids ghost measured i w) :
    w.linkSelfSession = ids i ∨ Joins ids ghost i ∧ w.linkSelfSession = ids !i := by
  unfold NodeInv at h
  split at h
  · exact .inl h.session
  · by_cases hjoins : Joins ids ghost i
    · exact .inr ⟨hjoins, h.1 hjoins⟩
    · exact .inl (h.2 hjoins)

/-- A move keeps the invariant. -/
theorem step_inv {e : Election} {m : Move} (hbound : ∀ i, -2 ^ 63 < ghost (!i) - ghost i)
    (h : Inv ids ghost measured e) (hexact : Exact measured e m) :
    Inv ids ghost measured (e.step m) := by
  cases m with
  | answer i =>
      refine ⟨h.node, ?_⟩
      intro p hp
      rcases List.mem_append.mp hp with hp | hp
      · exact h.pongs p hp
      · rw [List.mem_singleton] at hp
        subst hp
        rcases (h.node !i).session with hown | ⟨hjoins, _⟩
        · exact .inl hown
        · exact .inr hjoins
  | receive i buf srcAddr srcPort =>
      obtain ⟨hmagic, hsent, hreport⟩ := hexact
      refine ⟨?_, h.pongs⟩
      intro k
      show NodeInv ids ghost measured k (Function.update e.node i _ k)
      by_cases hk : k = i
      · subst hk
        rw [Function.update_self]
        exact (h.node k).receive (hbound k) hmagic (fun ctx hctx => h.pongs _ (hsent ctx hctx))
          hreport
      · rw [Function.update_of_ne hk]
        exact h.node k

/-- The invariant holds when the measurements start. -/
theorem Facing.inv {e : Election} (h : Facing e ghost measured) :
    Inv (fun i => (e.node i).linkSelfId) ghost measured e := by
  refine ⟨?_, fun p hp => .inl (h.pongs p hp)⟩
  intro i
  rw [NodeInv, if_pos (h.active i)]
  exact ⟨h.own i, h.target i, h.noted i, h.completion i, h.exact i⟩

/-- The difference of the ghost times has a sign and an absolute value. -/
theorem Facing.bound {e : Election} (h : Facing e ghost measured) (i : Bool) :
    -2 ^ 63 < ghost (!i) - ghost i := by
  have hother := h.exact !i
  have hmax := (measured (!i) - ghostTimeGetIntercept (e.node !i)).toInt_lt
  rw [Bool.not_not] at hother
  omega

end Election

open Election in
/-- Two nodes that measure each other exactly never swap sessions, whatever the order in which
their measurements complete; and once both are complete, the nodes are in the same session,
unless their ghost times differ by `SESSION_EPS` exactly: in that of the node with the larger
ghost time if they differ by more, else in that of the node with the smaller id. -/
theorem election_agrees (e : Election) (ghost : Bool → Int) (measured : Bool → Int64)
    (h : Facing e ghost measured) (ms : List Move)
    (hexact : Guarded Election.step (Exact measured) e ms) :
    let ids := fun i => (e.node i).linkSelfId
    let e' := run Election.step e ms
    ¬ ((e'.node true).linkSelfSession = ids false ∧ (e'.node false).linkSelfSession = ids true) ∧
    ((∀ i, (e'.node i).meas.active = false) → |ghost true - ghost false| ≠ 500000 →
      ∀ i, (e'.node i).linkSelfSession = ids (winner ids ghost)) := by
  intro ids e'
  have hinv : Inv ids ghost measured e' :=
    run_induct (fun _ _ hinv hguard => step_inv h.bound hinv hguard) h.inv hexact
  constructor
  · rintro ⟨hleft, hright⟩
    have hjoins : Joins ids ghost true := by
      rcases (hinv.node true).session with hown | ⟨hjoins, _⟩
      · exact absurd (hown.symm.trans hleft) h.distinct
      · exact hjoins
    rcases (hinv.node false).session with hown | ⟨hjoins', _⟩
    · exact absurd (hright.symm.trans hown) h.distinct
    · exact joins_exclusive hjoins hjoins'
  · intro hidle hne i
    have hdecision : Joins ids ghost (!winner ids ghost) ∧ ¬ Joins ids ghost (winner ids ghost) :=
      joins_of_ne h.distinct hne
    obtain ⟨hloser, hwinner⟩ := hdecision
    have hdecided (k : Bool) : Decided ids ghost k (e'.node k) := by
      have hnode := hinv.node k
      rwa [NodeInv, if_neg (by simp [hidle k])] at hnode
    rcases Bool.eq_or_eq_not i (winner ids ghost) with hi | hi
    · rw [hi]
      exact (hdecided _).2 hwinner
    · rw [hi]
      have hjoined := (hdecided _).1 hloser
      rwa [Bool.not_not] at hjoined

/-- Two nodes that have booted, the second one with a clock one second ahead. Both clocks stand
still while a PONG is handled. -/
def bootedApart (i : Bool) : World :=
  let start := if i then 60000000 else 61000000
  boot (fun n => start + 100 * .ofNat (n / 3)) (if i then 0x0A000002 else 0x0A000003)
    (List.replicate 16 0)

/-- The intercept that moves the ghost time of a node to that of the other. -/
def interceptApart (i : Bool) : Int64 := if i then 1000000 else -1000000

/-- Each of them has heard the other one and measures it, with two samples to go. The others lie
about the exact intercept. -/
def nodesApart : Election where
  node i :=
    let w := step (bootedApart i) (aliveFrom (bootedApart !i))
    let samples := Array.ofFn fun k : Fin 99 => interceptApart i - 49 + .ofNat k
    { w with meas := { w.meas with samples := samples } }
  pongs := []

/-- The PONG to the PING of a node, answered 50 us after it was sent. -/
def pongApart (i : Bool) : Move :=
  let sent : Int64 := if i then 60000100 else 61000100
  let ghost := sent + 50 + interceptApart i
  .receive i ((encodePong (bootedApart !i).linkSelfId ghost.toUInt64
    (encodePing sent (ghost - 100) true)).getD []) (bootedApart !i).localIpv4 linkDiscoveryPort

/-- Each of them answers the other one. -/
def movesApart : List Move := [.answer true, .answer false, pongApart true, pongApart false]

/-- Both measurements end: the first node has joined the second one, which has stayed in its
session. -/
theorem election_agrees_apart :
    let e' := run Election.step nodesApart movesApart
    (∀ i, (e'.node i).meas.active = false) ∧
    ¬ ((e'.node true).linkSelfSession = (nodesApart.node false).linkSelfId ∧
      (e'.node false).linkSelfSession = (nodesApart.node true).linkSelfId) ∧
    ∀ i, (e'.node i).linkSelfSession = (nodesApart.node false).linkSelfId := by
  intro e'
  have hfacing : Election.Facing nodesApart (fun i => if i then 60000000 else 61000000)
      interceptApart := by
    refine ⟨?_, ?_, ?_, ?_, ?_, ?_, ?_, ?_⟩ <;> decide +kernel
  have hexact : Guarded Election.step (Election.Exact interceptApart) nodesApart movesApart := by
    decide +kernel
  have hidle : ∀ i, (e'.node i).meas.active = false := by decide +kernel
  have hwinner : Election.winner (fun i => (nodesApart.node i).linkSelfId)
      (fun i => if i then 60000000 else 61000000) = false := by decide +kernel
  obtain ⟨hnot, hagree⟩ := election_agrees nodesApart _ _ hfacing movesApart hexact
  have hapart := hagree hidle (by decide)
  rw [hwinner] at hapart
  exact ⟨hidle, hnot, hapart⟩

end LinkFPGA
