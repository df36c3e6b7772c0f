import Mathlib.Data.List.Induction
import LinkFPGA.Proofs.JitterRing

/-!
# Which AudioBuffers are accepted

Section 9.8 of the protocol has a parser compare the sum of the chunks' frames with `numBytes`.
`handle_audio_buffer` adds the frames up in 16 bits, so it compares the sum modulo 2^16:
`handle_audio_buffer_delivers_mod`. `acceptance_exact_iff` says on which bodies that makes a
difference.
-/

namespace LinkFPGA

open RingQueue

/-! ## Acceptance for a number of frames -/

/-- The body's fields behind the chunks and its sample bytes are all there, and describe this many
frames. -/
abbrev Accepts (mem : UInt32 → UInt8) (n : UInt32) (frames : Nat) : Prop :=
  Describes mem n (trailerOffset mem) frames

/-- The subscription that a body is for: of its channel, while we are in its session. -/
def addressee (mem : UInt32 → UInt8) (w : AudioWorld) : Option Nat :=
  if LinkId.ofBytes (bytesAt mem 8 8) = w.core.linkSelfSession then
    findSubForChannel w (.ofBytes (bytesAt mem 0 8))
  else none

/-- A subscription before and after a body with these samples of channel 0. -/
structure AppendsFrames (numChan : UInt8) (samples : List UInt16) (sub sub' : AudioSub) : Prop where
  /-- Only the ring, the number of channels and the count of buffers change. -/
  frame : sub' = { sub with
    jbuf := sub'.jbuf
    jbufW := sub'.jbufW
    jbufR := sub'.jbufR
    numChanRemote := numChan
    lastCount := sub.lastCount + 1 }
  /-- As many samples are written as there are. -/
  written : sub'.jbufW = sub.jbufW + .ofNat samples.length
  /-- The newest of them are in the ring, each in the cell of its place. -/
  cells : ∀ f (hf : f < samples.length), samples.length ≤ f + 1024 →
    cellAt sub'.jbuf (sub.jbufW.toNat + f) = samples[f]
  /-- A ring that holds at most 1024 samples appends them, and drops its oldest ones. -/
  queue : sub.ring.count ≤ 1024 →
    sub'.ring.queue = samples.foldl (enqueue 1024) sub.ring.queue

/-- A body accepted for this many frames appends them to its subscription; frame `f` is the sample
at index `f * numChannels`. Any other body changes nothing. -/
structure DeliversFrames (mem : UInt32 → UInt8) (n : UInt32) (frames : Nat) (w w' : AudioWorld) :
    Prop where
  accepted : Accepts mem n frames → ∀ j, addressee mem w = some j →
    ∃ sub sub', w.linkAudioSubs[j]? = some sub ∧ w' = w.setSub j sub' ∧
      AppendsFrames (numChanAt mem (.ofNat (trailerOffset mem)))
        (frameSamples mem (trailerOffset mem + 8)
          (numChanAt mem (.ofNat (trailerOffset mem))).toNat frames) sub sub'
  ignored : ¬ Accepts mem n frames ∨ addressee mem w = none → w' = w

/-! ## What a delivery does to a subscription -/

/-- Pushing samples changes the ring only. -/
theorem push_loop_frame (sub : AudioSub) (samples : List UInt16) :
    samples.foldl AudioSub.push sub = { sub with
      jbuf := (samples.foldl AudioSub.push sub).jbuf
      jbufW := sub.jbufW + .ofNat samples.length
      jbufR := (samples.foldl AudioSub.push sub).jbufR } := by
  induction samples generalizing sub with
  | nil => simp
  | cons v samples ih =>
      have hone : ∃ r, sub.push v = { sub with
          jbuf := (sub.push v).jbuf
          jbufW := sub.jbufW + 1
          jbufR := r } := by
        unfold AudioSub.push
        dsimp only
        split
        · exact ⟨_, rfl⟩
        · exact ⟨_, rfl⟩
      obtain ⟨r, hr⟩ := hone
      have hlen : sub.jbufW + 1 + .ofNat samples.length =
          sub.jbufW + .ofNat (samples.length + 1) := by
        rw [UInt32.ofNat_add, UInt32.add_assoc, UInt32.add_comm 1]
        rfl
      rw [List.foldl_cons, ih, hr, List.length_cons, ← hlen]

/-- The cells of the newest samples that were pushed. -/
theorem push_loop_cells (sub : AudioSub) (samples : List UInt16) (f : Nat)
    (hf : f < samples.length) (hnew : samples.length ≤ f + 1024) :
    cellAt (samples.foldl AudioSub.push sub).jbuf (sub.jbufW.toNat + f) = samples[f] := by
  induction samples using List.reverseRecOn with
  | nil => exact absurd hf (Nat.not_lt_zero f)
  | append_singleton samples v ih =>
      rw [List.length_append, List.length_singleton] at hf hnew
      generalize hstart : samples.foldl AudioSub.push sub = start at ih
      have hw : start.jbufW = sub.jbufW + .ofNat samples.length := by
        rw [← hstart, push_loop_frame]
      have hcell : (start.jbufW % linkAudioJbufLen).toNat =
          (sub.jbufW.toNat + samples.length) % linkAudioJbufLen.toNat := by
        rw [UInt32.toNat_mod, hw, counter_residue, UInt32.toNat_ofNat', jbuf_len_toNat]
        omega
      have hlast : (samples.foldl AudioSub.push sub |>.push v).jbuf =
          start.jbuf.set (start.jbufW % linkAudioJbufLen).toNat v
            (UInt32.lt_iff_toNat_lt.mp (UInt32.mod_lt _ (by decide))) := by
        rw [hstart]
        unfold AudioSub.push
        dsimp only
        split <;> rfl
      rw [List.foldl_append, List.foldl_cons, List.foldl_nil, hlast, cell_at_set, hcell]
      by_cases hv : f = samples.length
      · subst hv
        rw [if_pos rfl]
        simp
      · have hother : (sub.jbufW.toNat + samples.length) % linkAudioJbufLen.toNat ≠
            (sub.jbufW.toNat + f) % linkAudioJbufLen.toNat := by
          rw [jbuf_len_toNat]
          omega
        rw [if_neg hother, ih (by omega) (by omega), List.getElem_append_left]

/-- A delivery appends its samples. -/
theorem deliver_appends (sub : AudioSub) (numChan : UInt8) (samples : List UInt16) :
    AppendsFrames numChan samples sub (sub.deliver numChan samples) where
  frame := by
    unfold AudioSub.deliver
    dsimp only
    rw [push_loop_frame]
  written := by
    unfold AudioSub.deliver
    dsimp only
    rw [push_loop_frame]
  cells f hf hnew := push_loop_cells { sub with numChanRemote := numChan } samples f hf hnew
  queue hcount := (ring_deliver sub numChan samples hcount).2

/-! ## What the code accepts -/

variable {mem : UInt32 → UInt8} {n : UInt32}

/-- Chunks that fit are where the product says. -/
theorem trailer_at_eq (hfit : trailerOffset mem ≤ n.toNat) : trailerAt mem = trailerOffset mem := by
  have hsize := n.toNat_lt
  unfold trailerAt trailerOffset at *
  omega

/-- A body whose chunks fit is accepted for the sum of the frames modulo 2^16. -/
theorem accepted_iff_accepts (hsome : chunkCountAt mem ≠ 0) (hfit : trailerOffset mem ≤ n.toNat) :
    AcceptedBody mem n ↔ Accepts mem n (totalFrameSum mem % 65536) := by
  have hcount : 0 < (chunkCountAt mem).toNat :=
    Nat.pos_of_ne_zero fun hzero => hsome (UInt32.toNat_inj.mp hzero)
  have hsame := trailer_at_eq hfit
  constructor
  · rintro ⟨-, -, hfields⟩
    rwa [hsame] at hfields
  · intro hfields
    have hroom := hfields.trailer
    refine ⟨?_, hsome, by rwa [hsame]⟩
    unfold trailerOffset at hroom
    omega

/-- `handle_audio_buffer` delivers a body whose chunks fit as one of the sum of the frames modulo
2^16. -/
theorem handle_audio_buffer_delivers_mod (hsome : chunkCountAt mem ≠ 0)
    (hfit : trailerOffset mem ≤ n.toNat) (w : AudioWorld) :
    DeliversFrames mem n (totalFrameSum mem % 65536) w (handleAudioBuffer mem n w).1 := by
  have hiff := accepted_iff_accepts hsome hfit
  refine ⟨fun haccept j hj => ?_, fun hnot => handle_refused fun haccept => ?_⟩
  · unfold addressee at hj
    split at hj
    · rename_i hsession
      obtain ⟨sub, hsub, _⟩ := find_sub_some hj
      have hdeliver := handle_accepted (hiff.mpr haccept) hsession hj hsub
      unfold bodySamples at hdeliver
      rw [trailer_at_eq hfit] at hdeliver
      exact ⟨sub, _, hsub, hdeliver, deliver_appends _ _ _⟩
    · cases hj
  · rcases hnot with hreject | hnone
    · exact absurd (hiff.mp haccept) hreject
    · by_cases hsession : LinkId.ofBytes (bytesAt mem 8 8) = w.core.linkSelfSession
      · unfold addressee at hnone
        rw [if_pos hsession] at hnone
        exact .inr hnone
      · exact .inl hsession

/-! ## Where that differs from the exact sum -/

/-- A delivery shows in the state. -/
theorem appends_changes {w : AudioWorld} {j : Nat} {sub sub' : AudioSub} {numChan : UInt8}
    {samples : List UInt16} (hsub : w.linkAudioSubs[j]? = some sub)
    (h : AppendsFrames numChan samples sub sub') : w.setSub j sub' ≠ w := by
  intro hsame
  have hlt : j < w.linkAudioSubs.length := (List.getElem?_eq_some_iff.mp hsub).1
  have hsubs : w.linkAudioSubs.set j sub' = w.linkAudioSubs :=
    congrArg AudioWorld.linkAudioSubs hsame
  have hslot : (w.linkAudioSubs.set j sub')[j]? = some sub' := List.getElem?_set_self hlt
  rw [hsubs, hsub] at hslot
  have hcount := congrArg AudioSub.lastCount (Option.some.inj hslot)
  rw [h.frame] at hcount
  have hcount : sub.lastCount = sub.lastCount + 1 := hcount
  have hone : (1 : UInt64) = 0 := by
    have hdist : sub.lastCount + 1 - sub.lastCount = 0 := by rw [← hcount, UInt64.sub_self]
    rw [← hdist]
    grind
  exact absurd hone (by decide)

/-- The exact sum does not fit in 16 bits, and what is left of it in 16 bits passes every check of
a body that has a subscription. -/
def FrameSumWraps (mem : UInt32 → UInt8) (n : UInt32) (w : AudioWorld) : Prop :=
  65536 ≤ totalFrameSum mem ∧ Accepts mem n (totalFrameSum mem % 65536) ∧
    (addressee mem w).isSome

/-- No body has sample bytes for 2^16 frames. -/
theorem frames_lt_of_accepts {frames : Nat} (h : Accepts mem n frames) : frames < 65536 := by
  have hbytes := (numBytesAt mem (.ofNat (trailerOffset mem))).toNat_lt
  have hframes := h.frames
  have hone : 0 < (numChanAt mem (.ofNat (trailerOffset mem))).toNat :=
    Nat.pos_of_ne_zero fun hzero => h.numChan (UInt8.toNat_inj.mp hzero)
  have hle := Nat.le_mul_of_pos_right frames hone
  omega

/-- Where the sum wraps to one that is accepted, the code delivers a body that it must reject. -/
theorem frame_sum_wrap_delivers (hsome : chunkCountAt mem ≠ 0)
    (hfit : trailerOffset mem ≤ n.toNat) {w : AudioWorld} (hwrap : FrameSumWraps mem n w) :
    ¬ DeliversFrames mem n (totalFrameSum mem) w (handleAudioBuffer mem n w).1 := by
  intro hexact
  obtain ⟨hbig, haccept, hsub⟩ := hwrap
  obtain ⟨j, hj⟩ := Option.isSome_iff_exists.mp hsub
  have hreject : ¬ Accepts mem n (totalFrameSum mem) := fun h =>
    absurd (frames_lt_of_accepts h) (by omega)
  obtain ⟨sub, sub', hentry, hset, happends⟩ :=
    (handle_audio_buffer_delivers_mod hsome hfit w).accepted haccept j hj
  have hsame := hexact.ignored (.inl hreject)
  rw [hset] at hsame
  exact appends_changes hentry happends hsame

/-- A body whose chunks fit is delivered exactly when the exact sum of its frames matches
`numBytes`, unless that sum wraps to one that is accepted. -/
theorem acceptance_exact_iff (mem : UInt32 → UInt8) (n : UInt32) (w : AudioWorld)
    (hsome : chunkCountAt mem ≠ 0) (hfit : 20 + 26 * (chunkCountAt mem).toNat ≤ n.toNat) :
    DeliversFrames mem n (totalFrameSum mem) w (handleAudioBuffer mem n w).1 ↔
      ¬ FrameSumWraps mem n w := by
  constructor
  · exact fun hexact hwrap => frame_sum_wrap_delivers hsome hfit hwrap hexact
  · intro hwrap
    have hmod := handle_audio_buffer_delivers_mod hsome hfit w
    by_cases hbig : totalFrameSum mem < 65536
    · rwa [Nat.mod_eq_of_lt hbig] at hmod
    · -- the exact sum is too large for any body
      have hreject : ¬ Accepts mem n (totalFrameSum mem) := fun h =>
        absurd (frames_lt_of_accepts h) hbig
      refine ⟨fun haccept => absurd haccept hreject, fun _ => hmod.ignored ?_⟩
      by_cases haccept : Accepts mem n (totalFrameSum mem % 65536)
      · cases hsub : addressee mem w with
        | none => exact .inr rfl
        | some j => exact absurd ⟨by omega, haccept, by rw [hsub]; rfl⟩ hwrap
      · exact .inl haccept

/-- A body with one 26-byte chunk per entry of `frames`, `numBytes` 2, and one mono sample. -/
def monoBody (frames : List UInt16) : List UInt8 :=
  List.replicate 16 0 ++ putBe32 (.ofNat frames.length) ++
    frames.flatMap (fun f => putBe64 0 ++ putBe16 f ++ putBe64 0 ++ putBe64 0) ++
    [1] ++ putBe32 48000 ++ [1] ++ putBe16 2 ++ putBe16 7

/-- A node in session 0 that has subscribed to channel 0. -/
def listener : AudioWorld :=
  { audioPowerOn (powerOn (fun _ => 0) 0 []) 1 with
    linkAudioSubs := [{ AudioSub.zero with inUse := true }] }

/-- One frame is appended, the sample 7. -/
theorem acceptance_exact_iff_one_frame :
    ∃ sub', (handleAudioBuffer (memOf (monoBody [1])) 56 listener).1 = listener.setSub 0 sub' ∧
      sub'.jbufW = 1 ∧ cellAt sub'.jbuf 0 = 7 := by
  have hexact := (acceptance_exact_iff (memOf (monoBody [1])) 56 listener (by decide)
    (by decide)).mpr fun hwrap => absurd hwrap.1 (by decide)
  obtain ⟨sub, sub', hsub, hset, happends⟩ := hexact.accepted (by decide) 0 (by decide)
  obtain rfl := Option.some.inj hsub
  exact ⟨sub', hset, happends.written, happends.cells 0 (by decide) (by decide)⟩

/-- Chunks of 65535 and 2 frames with the bytes of one sample: the sum wraps to 1. -/
theorem wrapped_sum_delivered :
    ¬ DeliversFrames (memOf (monoBody [65535, 2])) 82 (totalFrameSum (memOf (monoBody [65535, 2])))
      listener (handleAudioBuffer (memOf (monoBody [65535, 2])) 82 listener).1 :=
  frame_sum_wrap_delivers (by decide) (by decide) ⟨by decide, by decide, by decide⟩

end LinkFPGA
