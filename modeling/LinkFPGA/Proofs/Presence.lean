import LinkFPGA.Library.Heartbeat
import LinkFPGA.Proofs.BeatAgreement
import LinkFPGA.Proofs.PeerExpiry

/-!
# Nodes on one network list each other

Each node announces itself by its schedule, and forgets a node that it has not heard for six
seconds. `nodes_list_each_other` says what comes of the two together on a network that loses a
number of messages in a row at most and delays them by so much at most: from a few seconds after
the last node has booted, the peer table of each node lists exactly the other nodes, at every
moment, whatever the nodes do otherwise. Each node boots at a moment of its own, and the others
may have been running for long by then.

Read `Company` and `Timely` first.
-/

namespace LinkFPGA

open Runs Network Heartbeat SlotTable

/-! ## Nodes that live in one time -/

/-- The time in which nodes live. -/
structure Lan (ι : Type) where
  /-- The time of each reading of a host clock, whichever node makes it. -/
  time : ℕ → ℕ
  /-- What the host clock of a node is ahead of the time. -/
  offset : ι → ℕ
  /-- The number of readings made when a node has booted. -/
  start : ι → ℕ
  mono : ∀ m n, m ≤ n → time m ≤ time n
  bounded : ∀ i n, offset i + time n + 6000000 < 2 ^ 64

/-- The nodes, and what an observer notes of them. -/
structure Company (ι : Type) where
  nodes : ι → World
  /-- The number of readings made. -/
  reads : ℕ
  /-- When a node began its last tick, or had booted. -/
  ticked : ι → ℕ
  /-- When it sent its ALIVEs, the latest first. -/
  beats : ι → List ℕ
  /-- When it last heard from another node. -/
  heard : ι → ι → Option ℕ

section
variable {ι : Type} [DecidableEq ι]

namespace Lan

variable (x : Lan ι)

/-- One event at one node. The nodes take turns in reading the time, each from its start on. -/
def act (c : Company ι) (a : ι × Event) : Company ι :=
  let w := c.nodes a.1
  let w' := step w a.2
  let now := x.time c.reads
  { nodes := fun i => if i = a.1 then w' else (c.nodes i).upTo (max (x.start i) w'.clock.reads)
    reads := w'.clock.reads
    ticked := fun i => if i = a.1 ∧ a.2 = .linkTick then now else c.ticked i
    beats := fun i =>
      if i = a.1 then (alives w a.2).map (fun l => l.time.toNat - x.offset i) ++ c.beats i
      else c.beats i
    heard := fun i j =>
      if i = a.1 ∧ hears w a.2 (c.nodes j).linkSelfId = true then some now else c.heard i j }

/-- When a node has booted. -/
def startTime (i : ι) : ℕ := x.time (x.start i)

/-- The ALIVEs of a node that another one can hear, which are those sent since it has booted. -/
def audible (c : Company ι) (i j : ι) : List ℕ := (c.beats j).filter (x.startTime i ≤ ·)

/-- Every node has ticked lately, and of a number of ALIVEs in a row not all have been lost. -/
structure Timely (gap losses delay : ℕ) (c : Company ι) : Prop where
  prompt : ∀ i, x.time c.reads ≤ c.ticked i + gap
  delivered : ∀ i j, j ≠ i →
    Delivered losses delay (x.time c.reads) (c.heard i j) (x.audible c i j)

/-- An event meets a node that has booted, what comes in was sent, and the nodes and the network
are in time. -/
structure Admits (gap losses delay : ℕ) (c : Company ι) (a : ι × Event) : Prop where
  started : x.start a.1 ≤ c.reads
  network : FromNetwork World.datagrams Event.datagram c.nodes a
  addressed : a.2.Addressed
  timely : x.Timely gap losses delay (x.act c a)

instance decidableTimely [Fintype ι] (gap losses delay : ℕ) (c : Company ι) :
    Decidable (x.Timely gap losses delay c) :=
  decidable_of_iff ((∀ i, x.time c.reads ≤ c.ticked i + gap) ∧
      ∀ i j, j ≠ i → Delivered losses delay (x.time c.reads) (c.heard i j) (x.audible c i j))
    ⟨fun h => ⟨h.1, h.2⟩, fun h => ⟨h.prompt, h.delivered⟩⟩

instance decidableAdmits [Fintype ι] (gap losses delay : ℕ) (c : Company ι) :
    DecidablePred (x.Admits gap losses delay c) := fun a =>
  decidable_of_iff (x.start a.1 ≤ c.reads ∧
      (∀ buf ∈ a.2.datagram, ∃ j, buf ∈ (c.nodes j).datagrams) ∧ a.2.Addressed ∧
      x.Timely gap losses delay (x.act c a))
    ⟨fun h => ⟨h.1, h.2.1, h.2.2.1, h.2.2.2⟩,
      fun h => ⟨h.started, h.network, h.addressed, h.timely⟩⟩

/-- The clock of a node shows the time from now on. -/
structure InTime (i : ι) (reads : ℕ) (w : World) : Prop where
  made : w.clock.reads = reads
  reading : ∀ n, reads ≤ n → (w.clock.reading n).toNat = x.offset i + x.time n

/-- The node is one that has booted by its start, on a clock that does not go back. -/
def Booted (i : ι) (w : World) : Prop :=
  ∃ reading v4 v6, v6.length = 16 ∧ (∀ m n, m ≤ n → reading m ≤ reading n) ∧
    (∀ n, x.start i ≤ n → (reading n).toNat = x.offset i + x.time n) ∧
    (boot reading v4 v6).clock.reads ≤ x.start i ∧ w = (boot reading v4 v6).upTo (x.start i)

/-- The nodes before any of them has done anything. -/
def gathered (nodes : ι → World) (reads : ℕ) : Company ι where
  nodes := nodes
  reads := reads
  ticked := x.startTime
  beats _ := []
  heard _ _ := none

end Lan

end

/-! ## The messages of a node -/

/-- What a node sends as discovery messages is ALIVEs and RESPONSES of its own. -/
def Speaks (w : World) : Prop :=
  ∀ buf ∈ w.datagrams, buf.take 8 = kProtoHdr →
    (messageType buf = 1 ∨ messageType buf = 2) ∧ messageIdent buf = w.linkSelfId

theorem speaks_step {w : World} (h : Speaks w) (hv6 : w.localIpv6.length = 16) (e : Event) :
    Speaks (step w e) := by
  obtain ⟨ds, hsent, hds⟩ := step_sent w e
  intro buf hbuf hmagic
  obtain ⟨d, hd, rfl⟩ := List.mem_map.mp hbuf
  rw [step_self_id]
  rw [hsent, List.mem_append] at hd
  rcases hd with hold | hnew
  · exact h d.buf (List.mem_map.mpr ⟨d, hold, rfl⟩) hmagic
  · obtain ⟨htype, hident, -⟩ := describes_header (emitted_discovery (hds d hnew) hmagic) hv6
    exact ⟨htype, hident⟩

/-! ## The clock of a node -/

/-- Reading the time does nothing else. -/
theorem up_to_frame (w : World) (reads : ℕ) :
    (w.upTo reads).sent = w.sent ∧ (w.upTo reads).localIpv6 = w.localIpv6 ∧
      (w.upTo reads).linkPeers = w.linkPeers := ⟨rfl, rfl, rfl⟩

theorem up_to_clock (w : World) (reads : ℕ) :
    (w.upTo reads).clock = ⟨w.clock.reading, reads⟩ := rfl

theorem up_to_silent (w : World) {reads : ℕ} (h : w.clock.reads ≤ reads) :
    Silent w (w.upTo reads) := .of_frame ⟨rfl, h⟩ rfl rfl rfl rfl

namespace Lan

variable {ι : Type} {x : Lan ι} {i : ι} {reads : ℕ} {w : World}

theorem InTime.later (h : x.InTime i reads w) {w' : World}
    (hreading : w'.clock.reading = w.clock.reading) (hreads : reads ≤ w'.clock.reads) :
    x.InTime i w'.clock.reads w' := by
  refine ⟨rfl, fun n hn => ?_⟩
  rw [hreading]
  exact h.reading n (hreads.trans hn)

theorem InTime.now (h : x.InTime i reads w) : w.clock.now.toNat = x.offset i + x.time reads := by
  rw [Clock.now, h.made]
  exact h.reading reads le_rfl

/-- A time after another one on the clock of a node. -/
theorem InTime.add (h : x.InTime i reads w) {d : UInt64} (hd : d.toNat ≤ 6000000) :
    (w.clock.now + d).toNat = x.offset i + x.time reads + d.toNat := by
  have hbound := x.bounded i reads
  rw [UInt64.toNat_add, h.now]
  exact Nat.mod_eq_of_lt (by omega)

/-! ## The ALIVEs of a node -/

/-- The node has sent its ALIVEs by the schedule. -/
structure Beating (x : Lan ι) (gap base : ℕ) (i : ι) (ticked : ℕ) (beats : List ℕ) (w : World) :
    Prop where
  scheduled : ∃ past, Scheduled w past ∧ lastTime past = beats.head?.elim 0 (x.offset i + ·)
  regular : Paced (250000 + 2 * gap) base beats
  ticked : ticked < beats.headD base + 250000

variable {gap base ticked : ℕ} {beats : List ℕ}

/-- What sends no ALIVE and is no tick. -/
theorem Beating.silent (h : x.Beating gap base i ticked beats w) {w' : World}
    (hsilent : Silent w w') : x.Beating gap base i ticked beats w' := by
  obtain ⟨past, hscheduled, hlast⟩ := h.scheduled
  exact ⟨⟨past, hscheduled.silent hsilent, hlast⟩, h.regular, h.ticked⟩

/-- A tick is due once the period since the last ALIVE is over. -/
theorem due_of_long {past : List Alive} (h : Scheduled w past)
    (hlong : lastTime past + 250000 ≤ w.clock.now.toNat) : Due w := by
  refine h.due_iff.mpr ⟨?_, by omega⟩
  cases hdirty : w.sStateDirty with
  | true => exact .inl rfl
  | false =>
      obtain ⟨d, hd, hnext⟩ := h.period hdirty
      exact .inr (period_over hd hnext (h.last.symm ▸ hlong))

/-- A tick keeps the beat. -/
theorem Beating.tick (h : x.Beating gap base i ticked beats w) (htime : x.InTime i reads w)
    (hprompt : x.time reads ≤ ticked + gap)
    (hended : x.time (linkTick w).clock.reads ≤ x.time reads + gap) :
    x.Beating gap base i (x.time reads)
      ((alives w .linkTick).map (fun l => l.time.toNat - x.offset i) ++ beats) (linkTick w) := by
  obtain ⟨past, hscheduled, hlast⟩ := h.scheduled
  have hticked := h.ticked
  by_cases hdue : Due w
  · obtain ⟨halives, -, -, -, hclock⟩ := link_tick_sends hdue
    have hstamp : w.clock.advance.now.toNat = x.offset i + x.time (reads + 1) := by
      rw [Clock.now, Clock.advance_reading, Clock.advance_reads, htime.made]
      exact htime.reading _ (Nat.le_succ _)
    have hends : (linkTick w).clock.reads = reads + 1 + 1 := by
      rw [hclock, Clock.advance_reads, Clock.advance_reads, htime.made]
    have hbegun := x.mono reads (reads + 1) (Nat.le_succ _)
    have hstamped := x.mono (reads + 1) (reads + 1 + 1) (Nat.le_succ _)
    have hnext := hscheduled.sends hdue
    rw [hends] at hended
    rw [halives]
    show x.Beating gap base i (x.time reads)
      ((w.clock.advance.now.toNat - x.offset i) :: beats) (linkTick w)
    rw [hstamp, Nat.add_sub_cancel_left]
    refine ⟨⟨_, hnext, ?_⟩, ⟨by omega, h.regular⟩, ?_⟩
    · rw [lastTime, List.getLast?_concat]
      exact hstamp
    · rw [List.headD_cons]
      omega
  · obtain ⟨halives, -⟩ := link_tick_waits hdue
    have hshort : ¬ lastTime past + 250000 ≤ w.clock.now.toNat := fun hlong =>
      hdue (due_of_long hscheduled hlong)
    rw [halives]
    refine ⟨⟨past, hscheduled.waits hdue, hlast⟩, h.regular, ?_⟩
    rw [hlast, htime.now] at hshort
    cases beats with
    | nil =>
        show x.time reads < base + 250000
        have hzero : ¬ 0 + 250000 ≤ x.offset i + x.time reads := hshort
        omega
    | cons t older =>
        show x.time reads < t + 250000
        have hafter : ¬ x.offset i + t + 250000 ≤ x.offset i + x.time reads := hshort
        omega

/-! ## The table of a node -/

/-- The entries of the table are those of other nodes, each for the lifetime since the node was
last heard from. -/
structure Lists (x : Lan ι) (ids : ι → LinkId) (i : ι) (now : ℕ) (heard : ι → Option ℕ)
    (map : LinkId → Option Peer) : Prop where
  known : ∀ id t, expiry map id = some t → ∃ j h, j ≠ i ∧ ids j = id ∧ heard j = some h ∧
    h ≤ now ∧ t.toNat = x.offset i + h + 5000000
  kept : ∀ j h, j ≠ i → heard j = some h → now ≤ h + 6000000 → (expiry map (ids j)).isSome

variable {ids : ι → LinkId} {now : ℕ} {heard : ι → Option ℕ} {map : LinkId → Option Peer}

theorem Lists.later (h : x.Lists ids i now heard map) {later : ℕ} (hlater : now ≤ later) :
    x.Lists ids i later heard map :=
  ⟨fun id t ht => by
    obtain ⟨j, h, hj, hid, hheard, hnow, hexpires⟩ := h.known id t ht
    exact ⟨j, h, hj, hid, hheard, hnow.trans hlater, hexpires⟩,
  fun j t hj ht hkept => h.kept j t hj ht (hlater.trans hkept)⟩

/-- A sender that is new finds a slot where there are more slots than other nodes. -/
theorem Lists.room [Fintype ι] [DecidableEq ι] (h : x.Lists ids i now heard map)
    (hrep : Represents Peer.key w.linkPeers map)
    (hcard : Fintype.card ι ≤ w.linkPeers.length + 1) {j : ι} (hj : j ≠ i)
    (hnew : map (ids j) = none) : ∃ p ∈ w.linkPeers, p.inUse = false := by
  let others : Finset ι := (Finset.univ.erase i).erase j
  have hkeys : ∀ id, (map id).isSome → id ∈ others.image ids := by
    intro id hsome
    obtain ⟨p, hp⟩ := Option.isSome_iff_exists.mp hsome
    obtain ⟨k, -, hk, hid, -⟩ := h.known id p.expiresAtUs (by rw [expiry, hp]; rfl)
    refine Finset.mem_image.mpr ⟨k, ?_, hid⟩
    refine Finset.mem_erase.mpr ⟨?_, Finset.mem_erase.mpr ⟨hk, Finset.mem_univ k⟩⟩
    rintro rfl
    rw [hid, hp] at hnew
    cases hnew
  have hothers : others.card + 2 = Fintype.card ι := by
    have hfirst := Finset.card_erase_add_one (Finset.mem_univ i)
    have hsecond := Finset.card_erase_add_one
      (Finset.mem_erase.mpr ⟨hj, Finset.mem_univ j⟩ : j ∈ Finset.univ.erase i)
    rw [Finset.card_univ] at hfirst
    show ((Finset.univ.erase i).erase j).card + 2 = _
    omega
  have hfew : (others.image ids).card < w.linkPeers.length := by
    have hle := Finset.card_image_le (s := others) (f := ids)
    omega
  obtain ⟨p, hp, hfree⟩ := hrep.exists_free hkeys hfew
  exact ⟨p, hp, Peer.key_eq_none.mp hfree⟩

/-- The entry of a node that was heard from within its lifetime outlives a tick. -/
theorem Lists.outlives (h : x.Lists ids i (x.time reads) heard map) (htime : x.InTime i reads w)
    (hids : Function.Injective ids) {j : ι} {t : ℕ} (hj : j ≠ i) (ht : heard j = some t)
    (hkept : x.time reads ≤ t + 6000000) :
    ((expiry map (ids j)).filter (current w.clock.now)).isSome := by
  obtain ⟨expires, hentry⟩ := Option.isSome_iff_exists.mp (h.kept j t hj ht hkept)
  obtain ⟨j', h', -, hid, hsome, hpast, hexpires⟩ := h.known _ expires hentry
  obtain rfl := hids hid
  obtain rfl := Option.some.inj (hsome.symm.trans ht)
  have hbound := x.bounded i reads
  have hgrace : (expires + linkDiscoveryPruneGraceMs * 1000).toNat =
      x.offset i + h' + 6000000 := by
    have hms : (linkDiscoveryPruneGraceMs * 1000).toNat = 1000000 := rfl
    rw [UInt64.toNat_add, hexpires, hms]
    omega
  have hcurrent : current w.clock.now expires = true := by
    unfold current
    rw [Bool.not_eq_true', decide_eq_false_iff_not, UInt64.lt_iff_toNat_lt, hgrace, htime.now]
    omega
  rw [hentry, Option.filter_some, hcurrent]
  rfl

/-- The sender of a message that is accepted is another node. -/
theorem accepted_sender {e : Event} (hself : w.linkSelfId = ids i)
    (hfrom : ∀ buf ∈ e.datagram, buf.take 8 = kProtoHdr →
      (messageType buf = 1 ∨ messageType buf = 2) ∧ ∃ j, messageIdent buf = ids j)
    {buf : List UInt8} (hbuf : buf ∈ e.datagram)
    (hheader : headerAccepted w.linkSelfId buf = true) : ∃ j, j ≠ i ∧ messageIdent buf = ids j := by
  obtain ⟨-, j, hj⟩ := hfrom buf hbuf (header_magic hheader)
  refine ⟨j, ?_, hj⟩
  rintro rfl
  exact (of_decide_eq_true hheader).2.2.2 (hj.trans hself.symm)

/-- An event at the node keeps what its table says. -/
theorem Lists.step [Fintype ι] [DecidableEq ι] (h : x.Lists ids i (x.time reads) heard map)
    (hrep : Represents Peer.key w.linkPeers map) (htime : x.InTime i reads w)
    (hself : w.linkSelfId = ids i) (hids : Function.Injective ids)
    (hcard : Fintype.card ι ≤ w.linkPeers.length + 1) {e : Event}
    (hfrom : ∀ buf ∈ e.datagram, buf.take 8 = kProtoHdr →
      (messageType buf = 1 ∨ messageType buf = 2) ∧ ∃ j, messageIdent buf = ids j) :
    ∃ map', Represents Peer.key (LinkFPGA.step w e).linkPeers map' ∧
      x.Lists ids i (x.time reads)
        (fun j => if hears w e (ids j) = true then some (x.time reads) else heard j) map' := by
  have hstay : NoByebye w e := by
    intro buf hbuf hheader hbye
    rcases (hfrom buf hbuf (header_magic hheader)).1 with htype | htype <;>
      exact absurd (htype.symm.trans hbye) (by decide)
  have hroom : ∀ buf addr port, e = .udp buf addr port → HasRoom w (.handleRx buf addr port) := by
    rintro buf addr port rfl hheader - hnew
    obtain ⟨j, hj, hident⟩ := accepted_sender hself hfrom rfl hheader
    refine h.room hrep hcard hj ?_
    rw [← Option.not_isSome_iff_eq_none, hrep.isSome_iff, ← hident]
    rintro ⟨p, hp, hkey⟩
    exact hnew p hp hkey
  obtain ⟨map', hrep', hexpiry⟩ := step_expiries hrep hroom hstay
  refine ⟨map', hrep', fun id t ht => ?_, fun j t hj ht hkept => ?_⟩
  · rw [hexpiry, expiryAfter] at ht
    cases hheard : hears w e id with
    | true =>
        obtain ⟨buf, hbuf, hheader, -, rfl⟩ := hears_iff.mp hheard
        obtain ⟨j, hj, hident⟩ := accepted_sender hself hfrom hbuf hheader
        rw [if_pos hheard] at ht
        obtain rfl := Option.some.inj ht
        have hexpires := htime.add (d := linkDiscoveryTtlSec * 1000000) (by decide)
        have hsec : (linkDiscoveryTtlSec * 1000000).toNat = 5000000 := rfl
        rw [hsec] at hexpires
        refine ⟨j, x.time reads, hj, hident.symm, ?_, le_rfl, hexpires⟩
        rw [← hident, if_pos hheard]
    | false =>
        rw [hheard, if_neg (by decide)] at ht
        have hbefore : expiry map id = some t := by
          split at ht
          · exact (Option.filter_eq_some_iff.mp ht).1
          · exact ht
        obtain ⟨j, h', hj, rfl, hsome, hpast, hexpires⟩ := h.known id t hbefore
        refine ⟨j, h', hj, rfl, ?_, hpast, hexpires⟩
        rw [hheard, if_neg (by decide)]
        exact hsome
  · rw [hexpiry, expiryAfter]
    cases hheard : hears w e (ids j) with
    | true => rfl
    | false =>
        rw [hheard, if_neg (by decide)] at ht
        rw [if_neg (by decide)]
        split
        · exact h.outlives htime hids hj ht hkept
        · exact h.kept j t hj ht hkept

/-! ## A step of the network -/

/-- What holds of a node at every moment. -/
structure Attends (x : Lan ι) (ids : ι → LinkId) (gap : ℕ) (c : Company ι) (i : ι) : Prop where
  selfId : (c.nodes i).linkSelfId = ids i
  addressed : (c.nodes i).localIpv6.length = 16
  speaks : Speaks (c.nodes i)
  inTime : x.InTime i (max (x.start i) c.reads) (c.nodes i)
  beating : x.Beating gap (x.startTime i) i (c.ticked i) (c.beats i) (c.nodes i)
  slots : (c.nodes i).linkPeers.length = linkMaxPeers
  lists : ∃ map, Represents Peer.key (c.nodes i).linkPeers map ∧
    x.Lists ids i (x.time c.reads) (c.heard i) map

variable [DecidableEq ι] {c : Company ι} {losses delay : ℕ}

/-- An event at another node. -/
theorem Attends.elsewhere (h : x.Attends ids gap c i) {a : ι × Event} (hi : i ≠ a.1)
    (hreads : c.reads ≤ (x.act c a).reads) : x.Attends ids gap (x.act c a) i := by
  have hnode : (x.act c a).nodes i = (c.nodes i).upTo (max (x.start i) (x.act c a).reads) :=
    if_neg hi
  have hticked : (x.act c a).ticked i = c.ticked i := if_neg fun hboth => hi hboth.1
  have hbeats : (x.act c a).beats i = c.beats i := if_neg hi
  have hheard : (x.act c a).heard i = c.heard i := funext fun j => if_neg fun hboth => hi hboth.1
  obtain ⟨map, hrep, hlists⟩ := h.lists
  have hlater : max (x.start i) c.reads ≤ max (x.start i) (x.act c a).reads :=
    max_le_max_left _ hreads
  have hsilent := up_to_silent (c.nodes i) (h.inTime.made.symm ▸ hlater)
  refine ⟨?_, ?_, ?_, ?_, ?_, ?_, map, ?_, ?_⟩
  · rw [hnode]
    exact h.selfId
  · rw [hnode]
    exact h.addressed
  · rw [hnode]
    exact h.speaks
  · rw [hnode]
    show x.InTime i ((c.nodes i).upTo (max (x.start i) (x.act c a).reads)).clock.reads _
    exact h.inTime.later rfl hlater
  · rw [hnode, hticked, hbeats]
    exact h.beating.silent hsilent
  · rw [hnode]
    exact h.slots
  · rw [hnode]
    exact hrep
  · rw [hheard]
    exact hlists.later (x.mono _ _ hreads)

/-- An event at the node itself. -/
theorem Attends.here [Fintype ι] (h : ∀ j, x.Attends ids gap c j)
    (hids : Function.Injective ids) (hcard : Fintype.card ι ≤ linkMaxPeers + 1)
    (htimely : x.Timely gap losses delay c) {e : Event}
    (ha : x.Admits gap losses delay c (i, e)) (hreads : c.reads ≤ (x.act c (i, e)).reads) :
    x.Attends ids gap (x.act c (i, e)) i := by
  have hself := h i
  have hnow : max (x.start i) c.reads = c.reads := max_eq_right ha.started
  have htime : x.InTime i c.reads (c.nodes i) := hnow ▸ hself.inTime
  obtain ⟨map, hrep, hlists⟩ := hself.lists
  have hnode : (x.act c (i, e)).nodes i = step (c.nodes i) e := if_pos rfl
  have hbeats : (x.act c (i, e)).beats i =
      (alives (c.nodes i) e).map (fun l => l.time.toNat - x.offset i) ++ c.beats i := if_pos rfl
  have hheard : (x.act c (i, e)).heard i = fun j =>
      if hears (c.nodes i) e (ids j) = true then some (x.time c.reads) else c.heard i j := by
    funext j
    refine if_congr ?_ rfl rfl
    rw [(h j).selfId]
    exact and_iff_right rfl
  have hfrom : ∀ buf ∈ e.datagram, buf.take 8 = kProtoHdr →
      (messageType buf = 1 ∨ messageType buf = 2) ∧ ∃ j, messageIdent buf = ids j := by
    intro buf hbuf hmagic
    obtain ⟨j, hsent⟩ := ha.network buf hbuf
    obtain ⟨htype, hident⟩ := (h j).speaks buf hsent hmagic
    exact ⟨htype, j, hident.trans (h j).selfId⟩
  have hslots : Fintype.card ι ≤ (c.nodes i).linkPeers.length + 1 := hself.slots.symm ▸ hcard
  obtain ⟨map', hrep', hlists'⟩ :=
    hlists.step hrep htime hself.selfId hids hslots hfrom
  have hlater : (step (c.nodes i) e).clock.reading = (c.nodes i).clock.reading ∧
      (c.nodes i).clock.reads ≤ (step (c.nodes i) e).clock.reads :=
    (step_uniform e).later (c.nodes i)
  refine ⟨?_, ?_, ?_, ?_, ?_, ?_, map', ?_, ?_⟩
  · rw [hnode, step_self_id]
    exact hself.selfId
  · rw [hnode]
    exact step_addressed hself.addressed ha.addressed
  · rw [hnode]
    exact speaks_step hself.speaks hself.addressed e
  · rw [hnode]
    have hstarted : max (x.start i) (x.act c (i, e)).reads = (x.act c (i, e)).reads :=
      max_eq_right (ha.started.trans hreads)
    rw [hstarted]
    exact htime.later hlater.1 hreads
  · rw [hnode, hbeats]
    by_cases htick : e = .linkTick
    · subst htick
      have hticked : (x.act c (i, .linkTick)).ticked i = x.time c.reads := if_pos ⟨rfl, rfl⟩
      have hended := ha.timely.prompt i
      rw [hticked] at hended ⊢
      exact hself.beating.tick htime (htimely.prompt i) hended
    · have hticked : (x.act c (i, e)).ticked i = c.ticked i := if_neg fun hboth => htick hboth.2
      have hsilent := step_silent (w := c.nodes i) htick
      rw [hticked, hsilent.no_alives]
      exact hself.beating.silent hsilent
  · rw [hnode, step_table_length]
    exact hself.slots
  · rw [hnode]
    exact hrep'
  · rw [hheard]
    exact hlists'.later (x.mono _ _ hreads)

/-- One event somewhere. -/
theorem attends_act [Fintype ι] (h : ∀ i, x.Attends ids gap c i)
    (hids : Function.Injective ids) (hcard : Fintype.card ι ≤ linkMaxPeers + 1)
    (htimely : x.Timely gap losses delay c) {a : ι × Event}
    (ha : x.Admits gap losses delay c a) (i : ι) : x.Attends ids gap (x.act c a) i := by
  have hreads : c.reads ≤ (x.act c a).reads := by
    have hlater := ((step_uniform a.2).later (c.nodes a.1)).2
    rw [(h a.1).inTime.made] at hlater
    exact (le_max_right _ _).trans hlater
  by_cases hi : i = a.1
  · subst hi
    exact Attends.here h hids hcard htimely ha hreads
  · exact (h i).elsewhere hi hreads

/-! ## A run of the network -/

omit [DecidableEq ι] in
/-- A node that has booted. -/
theorem Booted.attends {nodes : ι → World} (h : x.Booted i (nodes i)) (hreads : reads ≤ x.start i) :
    x.Attends (fun j => (nodes j).linkSelfId) gap (gathered x nodes reads) i := by
  obtain ⟨reading, v4, v6, hv6, hmono, hreading, hbooted, hnode⟩ := h
  obtain ⟨hsame, haddress, htable⟩ := up_to_frame (boot reading v4 v6) (x.start i)
  have hpeers : (nodes i).linkPeers = List.replicate linkMaxPeers .zero := by
    rw [hnode, htable]
    exact congrArg View.linkPeers (link_init_view (beatPulseInit (powerOn reading v4 v6)))
  have hsent : (nodes i).sent = [] := by
    rw [hnode, hsame]
    exact (boot_sends reading v4 v6).1
  have hscheduled : Scheduled (nodes i) [] := by
    rw [hnode]
    have hboot : Scheduled (boot reading v4 v6) [] := run_scheduled hmono v4 v6 []
    exact hboot.silent (up_to_silent _ hbooted)
  have htime : x.InTime i (max (x.start i) reads) (nodes i) := by
    have hclock : (boot reading v4 v6).clock.reading = reading :=
      (link_init_later (beatPulseInit (powerOn reading v4 v6))).1
    have hnow := up_to_clock (boot reading v4 v6) (x.start i)
    rw [← hnode, hclock] at hnow
    rw [max_eq_left hreads]
    constructor
    · rw [hnow]
    · rw [hnow]
      exact hreading
  refine ⟨rfl, ?_, ?_, htime, ⟨⟨[], hscheduled, rfl⟩, trivial, ?_⟩, ?_, fun _ => none, ?_, ?_⟩
  · show (nodes i).localIpv6.length = 16
    rw [hnode, haddress, (boot_sends reading v4 v6).2]
    exact hv6
  · intro buf hbuf
    rw [World.datagrams, show ((gathered x nodes reads).nodes i).sent = [] from hsent] at hbuf
    cases hbuf
  · exact Nat.lt_add_of_pos_right (by decide)
  · show (nodes i).linkPeers.length = linkMaxPeers
    rw [hpeers, List.length_replicate]
  · show Represents Peer.key (nodes i).linkPeers _
    rw [hpeers]
    refine represents_free fun p hp => ?_
    rw [List.eq_of_mem_replicate hp]
    rfl
  · constructor
    · intro id t ht
      cases ht
    · intro j t _ ht
      cases ht

/-- In a network of at most seventeen nodes whose ticks, losses and delays leave less than the
lifetime of an entry between two messages that arrive, the table of each node lists exactly the
other nodes as soon as that time is over since the last node has booted. -/
theorem nodes_list_each_other [Fintype ι] (x : Lan ι) {nodes : ι → World} {reads : ℕ}
    (hbooted : ∀ i, x.Booted i (nodes i)) (hreads : ∀ i, reads ≤ x.start i)
    (hids : Function.Injective fun i => (nodes i).linkSelfId)
    (hcard : Fintype.card ι ≤ linkMaxPeers + 1) {gap losses delay : ℕ}
    (hlifetime : (losses + 1) * (250000 + 2 * gap) + delay ≤ 6000000) {as : List (ι × Event)}
    (h : Guarded x.act (x.Admits gap losses delay) (x.gathered nodes reads) as)
    (hwarm : ∀ i, x.startTime i + (losses + 1) * (250000 + 2 * gap) + delay ≤
      x.time (run x.act (x.gathered nodes reads) as).reads) (i : ι) :
    ∃ map, Represents Peer.key ((run x.act (x.gathered nodes reads) as).nodes i).linkPeers map ∧
      ∀ id, (map id).isSome ↔ ∃ j, j ≠ i ∧ (nodes j).linkSelfId = id := by
  have hinit : (∀ i, x.Attends (fun j => (nodes j).linkSelfId) gap (x.gathered nodes reads) i) ∧
      x.Timely gap losses delay (x.gathered nodes reads) :=
    ⟨fun i => (hbooted i).attends (hreads i),
      fun i => (x.mono _ _ (hreads i)).trans (Nat.le_add_right _ _), fun _ _ _ => trivial⟩
  obtain ⟨hattends, htimely⟩ := run_induct
    (motive := fun c => (∀ i, x.Attends (fun j => (nodes j).linkSelfId) gap c i) ∧
      x.Timely gap losses delay c)
    (fun c a hc ha => ⟨attends_act hc.1 hids hcard hc.2 ha, ha.timely⟩) hinit h
  set c := run x.act (x.gathered nodes reads) as
  obtain ⟨map, hrep, hlists⟩ := (hattends i).lists
  have hexpiry (id : LinkId) : (expiry map id).isSome = (map id).isSome := Option.isSome_map
  refine ⟨map, hrep, fun id => ?_⟩
  rw [← hexpiry]
  constructor
  · intro hsome
    obtain ⟨t, ht⟩ := Option.isSome_iff_exists.mp hsome
    obtain ⟨j, -, hj, hid, -⟩ := hlists.known id t ht
    exact ⟨j, hj, hid⟩
  · rintro ⟨j, hj, rfl⟩
    -- the other node has been heard within the lifetime of its entry
    have hbeating := (hattends j).beating
    have hlatest : x.time c.reads < (x.audible c i j).headD (max (x.startTime i) (x.startTime j)) +
        (250000 + 2 * gap) + delay := by
      have hprompt := htimely.prompt j
      have hticked := hbeating.ticked
      have hsince : (c.beats j).headD (x.startTime j) ≤
          (x.audible c i j).headD (max (x.startTime i) (x.startTime j)) :=
        headD_le_since (x.startTime i) (x.startTime j) (c.beats j)
      omega
    have hboth : max (x.startTime i) (x.startTime j) + (losses + 1) * (250000 + 2 * gap) + delay ≤
        x.time c.reads := by
      have hmine := hwarm i
      have htheirs := hwarm j
      omega
    obtain ⟨t, ht, hrecent⟩ :=
      heard_recently hbeating.regular.since (htimely.delivered i j hj) hlatest hboth
    exact hlists.kept j t hj ht (by omega)

end Lan

/-- Two nodes, with a reading each quarter of a second. The second one starts when the first has
been running for some time. -/
def pair : Lan Bool where
  time n := 1000000 + 250000 * min n 1000
  offset i := if i then 0 else 7000000
  start i := if i then 12 else 20
  mono m n h := by omega
  bounded i n := by split <;> omega

def pairReading (i : Bool) (n : ℕ) : UInt64 := .ofNat (pair.offset i + pair.time n)

def pairAddress (i : Bool) : UInt32 := if i then 0x0A000002 else 0x0A000003

def pairNodes (i : Bool) : World :=
  (boot (pairReading i) (pairAddress i) (List.replicate 16 0)).upTo (pair.start i)

def pairRound : List (Bool × Event) :=
  [(true, .linkTick), (false, aliveFrom (pairNodes true)), (false, .linkTick),
    (true, aliveFrom (pairNodes false))]

def pairAlone : List (Bool × Event) := List.replicate 4 (true, .linkTick)

def pairRun : List (Bool × Event) :=
  pairAlone ++ pairRound ++ pairRound ++ pairRound ++ [(true, .linkTick)]

theorem pair_booted (i : Bool) : pair.Booted i (pairNodes i) := by
  have hreading (n : ℕ) : (pairReading i n).toNat = pair.offset i + pair.time n := by
    have hbound := pair.bounded i n
    have hsize : UInt64.size = 2 ^ 64 := rfl
    exact UInt64.toNat_ofNat_of_lt' (by omega)
  refine ⟨pairReading i, pairAddress i, List.replicate 16 0, rfl, fun m n hmn => ?_,
    fun n _ => hreading n, ?_, rfl⟩
  · rw [UInt64.le_iff_toNat_le, hreading, hreading]
    exact Nat.add_le_add_left (pair.mono m n hmn) _
  · cases i <;> decide +kernel

/-- After three rounds each of the two nodes lists the other one. -/
theorem nodes_list_each_other_pair :
    (∃ p ∈ ((run pair.act (pair.gathered pairNodes 12) pairRun).nodes true).linkPeers,
      p.inUse = true ∧ p.nodeId = (pairNodes false).linkSelfId) ∧
    ∃ p ∈ ((run pair.act (pair.gathered pairNodes 12) pairRun).nodes false).linkPeers,
      p.inUse = true ∧ p.nodeId = (pairNodes true).linkSelfId := by
  have hids : Function.Injective fun i => (pairNodes i).linkSelfId := by decide +kernel
  have hstarts : ∀ i, 12 ≤ pair.start i := by decide
  have hrun : Guarded pair.act (pair.Admits 2500000 0 300000) (pair.gathered pairNodes 12)
      pairRun := by decide +kernel
  have hwarm : ∀ i, pair.startTime i + (0 + 1) * (250000 + 2 * 2500000) + 300000 ≤
      pair.time (run pair.act (pair.gathered pairNodes 12) pairRun).reads := by decide +kernel
  have hlists (i j : Bool) (hj : j ≠ i) :
      ∃ p ∈ ((run pair.act (pair.gathered pairNodes 12) pairRun).nodes i).linkPeers,
        p.inUse = true ∧ p.nodeId = (pairNodes j).linkSelfId := by
    obtain ⟨map, hrep, hlisted⟩ := Lan.nodes_list_each_other pair pair_booted hstarts hids
      (by decide) (by decide) hrun hwarm i
    obtain ⟨p, hp, hkey⟩ := hrep.isSome_iff.mp ((hlisted _).mpr ⟨j, hj, rfl⟩)
    exact ⟨p, hp, Peer.key_eq_some.mp hkey⟩
  exact ⟨hlists true false (by decide), hlists false true (by decide)⟩

end LinkFPGA
