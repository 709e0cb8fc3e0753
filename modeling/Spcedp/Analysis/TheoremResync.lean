import Spcedp.Analysis.TheoremAccounting

/-!
# Resynchronisation

A stream of bursts: garbage in which no plausible header begins, then the wire bytes of a
frame. On such a stream the splitter is always at a byte of garbage or at the start of a
frame (`Track`), so it drops the garbage byte by byte and takes the frames, unless some
garbage is longer than the drop budget. The frames are short enough for the decoder never
to give up waiting for one, so the same holds of the decoder, in any chunking
(`feedUntil_bursts`).
-/

set_option autoImplicit false

namespace Spcedp.Wire

open Lib.Stream

/-- Garbage, and a frame behind it that is encoded under the key. -/
structure Burst (aes : AesEcb) (key : Option Bytes) where
  garbage : Bytes
  frame : Frame
  wire : Bytes
  encoded : Frame
  encode_eq : frame.encode aes key = .ok (wire, encoded)
  flag_clear : Frame.encryptedBit frame.srcFlag = false
  length_le : wire.length ≤ resyncLimit + headerLen
  quiet : ∀ o < garbage.length, ¬FrameDecoder.looksValid ((garbage ++ wire).drop o)

/-- The frame that the receiver reads. -/
def Burst.read {aes : AesEcb} {key : Option Bytes} (b : Burst aes key) : Frame :=
  b.encoded.onWire

/-- The bytes of a row of bursts. -/
def burstStream {aes : AesEcb} {key : Option Bytes} (bursts : List (Burst aes key)) : Bytes :=
  (bursts.map fun b => b.garbage ++ b.wire).flatten

section Bursts

variable {aes : AesEcb} {key : Option Bytes}

/-- No bursts have no bytes. -/
@[simp] theorem burstStream_nil : burstStream ([] : List (Burst aes key)) = [] := rfl

/-- The bytes of the first burst come first, its garbage in front. -/
@[simp] theorem burstStream_cons (b : Burst aes key) (bursts : List (Burst aes key)) :
    burstStream (b :: bursts) = b.garbage ++ (b.wire ++ burstStream bursts) := by
  unfold burstStream
  rw [List.map_cons, List.flatten_cons, List.append_assoc]

/-- A key that something was encoded under has 16 bytes. -/
theorem encode_ok_key {f : Frame} {out : Bytes × Frame} (h : f.encode aes key = .ok out) :
    ∀ k ∈ key, k.length = 16 := by
  rintro k rfl
  unfold Frame.encode at h
  simp only [guard_ok_iff, bind_ok_iff] at h
  obtain ⟨-, c, -, structBytes, henc, -⟩ := h
  by_contra hk
  unfold encryptPayload at henc
  rw [if_pos hk] at henc
  cases henc

/-- The wire bytes of a burst are one whole frame. -/
theorem Burst.whole (b : Burst aes key) : WholeFrame aes key b.wire b.read := by
  have hkey := encode_ok_key b.encode_eq
  have hle : b.frame.payload.length ≤ 65514 := by
    by_contra hlt
    obtain ⟨e, he, -⟩ := encode_too_large b.frame aes key hkey (by omega)
    have hok := b.encode_eq
    rw [he] at hok
    cases hok
  obtain ⟨w, hw, -, hwhole⟩ := decode_encode aes b.frame key hkey b.flag_clear hle
  have heq := hw.symm.trans b.encode_eq
  obtain ⟨rfl, hread⟩ := Prod.mk.inj (Except.ok.inj heq)
  unfold Burst.read
  rw [← hread]
  exact hwhole

/-- At the start of its frame a burst decodes. -/
theorem Burst.front_wire (b : Burst aes key) (more : Bytes) :
    front aes key (b.wire ++ more) = .frame b.wire.length b.read := by
  have hw := b.whole
  have hmax : b.wire.length ≤ maxPlausibleFrame := b.length_le.trans (by decide)
  have hle := hw.header_le
  have hlen : headerLen ≤ (b.wire ++ more).length := by
    rw [List.length_append]
    exact Nat.le_add_right_of_le hle
  obtain ⟨hvalid, htotal⟩ :=
    FrameDecoder.header_of_wholeFrame hw hmax hlen (.inr (List.prefix_append _ _))
  have hclaimed : claimed (b.wire ++ more) = b.wire.length := htotal
  unfold front
  rw [if_neg (not_lt.mpr hlen), if_neg (not_not.mpr hvalid), hclaimed,
    if_neg (by rw [List.length_append]; omega), List.take_left' rfl, hw.decode]

/-- Garbage does not look like a header. -/
theorem Burst.not_looksValid (b : Burst aes key) {g : Bytes} (hg : g <:+ b.garbage) (hne : g ≠ [])
    (more : Bytes) : headerLen ≤ (g ++ (b.wire ++ more)).length ∧
      ¬FrameDecoder.looksValid (g ++ (b.wire ++ more)) := by
  obtain ⟨skipped, hskip⟩ := hg
  have hle := b.whole.header_le
  have hlen : headerLen ≤ (g ++ b.wire).length := by
    rw [List.length_append]
    omega
  have hquiet : ¬FrameDecoder.looksValid (g ++ b.wire) := by
    have hpos := List.length_pos_iff.mpr hne
    have h := b.quiet skipped.length (by rw [← hskip, List.length_append]; omega)
    rwa [← hskip, List.append_assoc, List.drop_left' rfl] at h
  rw [← List.append_assoc]
  refine ⟨?_, mt (looksValid_append hlen more).mp hquiet⟩
  rw [List.length_append]
  exact Nat.le_add_right_of_le hlen

/-- A byte of garbage is junk. -/
theorem Burst.front_garbage (b : Burst aes key) {g : Bytes} (hg : g <:+ b.garbage) (hne : g ≠ [])
    (more : Bytes) : front aes key (g ++ (b.wire ++ more)) = .junk := by
  obtain ⟨hlen, hquiet⟩ := b.not_looksValid hg hne more
  unfold front
  rw [if_neg (not_lt.mpr hlen), if_pos hquiet]

/-! ## On track -/

/-- Where the splitter stands in a stream of bursts, with the pieces it has taken: at the
end, or in a burst whose garbage is left to `g`. The garbage before was within budget. -/
inductive Track (bursts : List (Burst aes key)) : List (Piece UInt8 Frame) → Splitter → Prop
  | atEnd {ps : List (Piece UInt8 Frame)} (n : ℕ) : items ps = bursts.map Burst.read →
      (∀ b ∈ bursts, b.garbage.length ≤ resyncLimit) → Track bursts ps ⟨key, [], n⟩
  | within {ps : List (Piece UInt8 Frame)} (before : List (Burst aes key)) (b : Burst aes key)
      (more : List (Burst aes key)) (g : Bytes) (n : ℕ) : bursts = before ++ b :: more →
      items ps = before.map Burst.read → (∀ b' ∈ before, b'.garbage.length ≤ resyncLimit) →
      g <:+ b.garbage → n + g.length = b.garbage.length → n ≤ resyncLimit →
      Track bursts ps ⟨key, g ++ (b.wire ++ burstStream more), n⟩

variable {bursts : List (Burst aes key)} {ps : List (Piece UInt8 Frame)} {s s' : Splitter}
  {item : Option Frame} {e : WireError}

/-- Behind some bursts the splitter is on track. -/
theorem track_start (before more : List (Burst aes key)) (hsplit : bursts = before ++ more)
    (hitems : items ps = before.map Burst.read)
    (hbudget : ∀ b ∈ before, b.garbage.length ≤ resyncLimit) :
    Track bursts ps ⟨key, burstStream more, 0⟩ := by
  cases more with
  | nil =>
      rw [List.append_nil] at hsplit
      subst hsplit
      exact .atEnd 0 hitems hbudget
  | cons b more =>
      rw [burstStream_cons]
      exact .within before b more b.garbage 0 hsplit hitems hbudget List.suffix_rfl
        (Nat.zero_add _) (Nat.zero_le _)

/-- In an empty buffer there is less than a header. -/
theorem front_nil : front aes key [] = .short := by
  unfold front
  rw [if_pos (by simp)]

/-- **A turn stays on track.** -/
theorem Track.take (h : Track bursts ps s) (hturn : s.turn aes = .take s' item) {p : Bytes} :
    Track bursts (ps ++ [⟨p, item⟩]) s' := by
  cases h with
  | atEnd n hitems hbudget =>
      obtain ⟨hfront, -⟩ | ⟨total, f, hfront, -⟩ := Splitter.turn_take hturn
      · rw [front_nil] at hfront
        cases hfront
      · rw [front_nil] at hfront
        cases hfront
  | within before b more g n hsplit hitems hbudget hg hcount hn =>
      cases g with
      | nil =>
          -- the frame of the burst
          have hread := b.front_wire (burstStream more)
          rw [List.nil_append] at hturn
          obtain ⟨hfront, -⟩ | ⟨total, f, hfront, rfl, rfl⟩ := Splitter.turn_take hturn
          · rw [hread] at hfront
            cases hfront
          · rw [hread] at hfront
            obtain ⟨rfl, rfl⟩ := Front.frame.inj hfront
            dsimp only
            rw [List.drop_left' rfl]
            apply track_start (before ++ [b]) more (by simp [hsplit]) (by simp [hitems])
            intro b' hb'
            obtain hb' | hb' := List.mem_append.mp hb'
            · exact hbudget b' hb'
            · rw [List.mem_singleton.mp hb', ← hcount]
              exact hn
      | cons x g =>
          -- a byte of its garbage
          have hjunk := b.front_garbage hg (List.cons_ne_nil x g) (burstStream more)
          obtain ⟨-, rfl, hlt, rfl⟩ | ⟨total, f, hfront, -⟩ := Splitter.turn_take hturn
          · refine .within before b more g (n + 1) hsplit ?_ hbudget ?_ ?_ hlt
            · rw [items_append, hitems]
              exact List.append_nil _
            · exact (List.suffix_cons x g).trans hg
            · rw [← hcount, List.length_cons]
              omega
          · rw [hjunk] at hfront
            cases hfront

/-- On track, the splitter waits at the end only. -/
theorem Track.wait (h : Track bursts ps s) (hturn : s.turn aes = .wait s') :
    s.buf = [] ∧ items ps = bursts.map Burst.read ∧
      ∀ b ∈ bursts, b.garbage.length ≤ resyncLimit := by
  cases h with
  | atEnd n hitems hbudget => exact ⟨rfl, hitems, hbudget⟩
  | within before b more g n hsplit hitems hbudget hg hcount hn =>
      obtain ⟨-, hfront⟩ := Splitter.turn_wait hturn
      cases g with
      | nil =>
          have hread := b.front_wire (burstStream more)
          rw [List.nil_append, hread] at hfront
          simp at hfront
      | cons x g =>
          rw [b.front_garbage hg (List.cons_ne_nil x g) (burstStream more)] at hfront
          simp at hfront

/-- On track, the splitter fails in garbage that is too long. -/
theorem Track.fail (h : Track bursts ps s) (hturn : s.turn aes = .fail s' e) :
    e.cls = .frameDecodeError ∧ ∃ b ∈ bursts, resyncLimit < b.garbage.length := by
  cases h with
  | atEnd n hitems hbudget =>
      obtain ⟨hfront, -⟩ | hfront := Splitter.turn_fail hturn
      · rw [front_nil] at hfront
        cases hfront
      · rw [front_nil] at hfront
        cases hfront
  | within before b more g n hsplit hitems hbudget hg hcount hn =>
      cases g with
      | nil =>
          have hread := b.front_wire (burstStream more)
          rw [List.nil_append] at hturn
          obtain ⟨hfront, -⟩ | hfront := Splitter.turn_fail hturn
          · rw [hread] at hfront
            cases hfront
          · rw [hread] at hfront
            cases hfront
      | cons x g =>
          have hjunk := b.front_garbage hg (List.cons_ne_nil x g) (burstStream more)
          obtain ⟨-, hle, rfl⟩ | hfront := Splitter.turn_fail hturn
          · refine ⟨rfl, b, by simp [hsplit], ?_⟩
            dsimp only at hle
            rw [← hcount, List.length_cons]
            omega
          · rw [hjunk] at hfront
            cases hfront

/-- On track, what looks like a header claims a frame that may come in any way. -/
theorem Track.claimed_le (h : Track bursts ps s) (hvalid : FrameDecoder.looksValid s.buf) :
    claimed s.buf ≤ resyncLimit + headerLen := by
  cases h with
  | atEnd n hitems hbudget =>
      have hproto := hvalid.2.2.2.1
      simp at hproto
  | within before b more g n hsplit hitems hbudget hg hcount hn =>
      cases g with
      | nil =>
          have hread := b.front_wire (burstStream more)
          rw [List.nil_append] at hvalid ⊢
          obtain ⟨-, -, htotal, -⟩ := front_frame hread
          rw [← htotal]
          exact b.length_le
      | cons x g =>
          have hquiet := (b.not_looksValid hg (List.cons_ne_nil x g) (burstStream more)).2
          exact absurd hvalid hquiet

/-- Turns on a stream of bursts stay on track. -/
theorem track_of_takes
    (h : Takes (Splitter.reader aes) ⟨key, burstStream bursts, 0⟩ ps s) : Track bursts ps s := by
  have hstart : Track bursts [] ⟨key, burstStream bursts, 0⟩ :=
    track_start [] bursts rfl rfl (by simp)
  exact h.invariant (I := Track bursts) (fun _ _ _ _ _ htrack hturn _ => htrack.take hturn)
    [] hstart

end Bursts

namespace FrameDecoder

section Bursts

variable {aes : AesEcb} {key : Option Bytes} {bursts : List (Burst aes key)} {chunks : List Bytes}

/-- A new splitter holds the bytes that it is fed. -/
theorem splitter_push_fresh (aes : AesEcb) (key : Option Bytes) (data : Bytes) :
    (Splitter.reader aes).push (splitter (fresh key)) data = ⟨key, data, 0⟩ := rfl

/-- The decoder never gives up waiting in a stream of bursts. -/
theorem bursts_not_givesUpWaiting (hcut : chunks.flatten = burstStream bursts) :
    ¬GivesUpWaiting aes (fresh key) chunks := by
  intro hgives
  obtain ⟨before, x, after, ps, qs, d, rfl, ⟨d₀, hruns, htakes⟩, hvisits, hexpired⟩ :=
    (splitter_simulates aes).strays (strays_iff.mpr hgives)
  rw [not_not] at hexpired
  obtain ⟨hlen, hvalid, hlt, hgt⟩ := hexpired
  -- what is waited for is the frame of a burst
  have hpath := (Splitter.reader_stable aes).visits_takes hvisits after
  rw [splitter_push_fresh, hcut] at hpath
  have hclaim := (track_of_takes hpath).claimed_le
    ((looksValid_append hlen after.flatten).mpr hvalid)
  have hsame : claimed (d.buf ++ after.flatten) = claimed d.buf := claimed_append hlen _
  have hle : claimed d.buf ≤ resyncLimit + headerLen := hsame ▸ hclaim
  -- and the wait for it began behind its header
  have hanchors : Anchors d := by
    have hrun := hruns.invariant (I := fun _ => Anchors) (fun _ _ x h => h.push x)
      (fun _ _ _ _ _ _ hturn _ =>
        anchors_of_none (pass_again_front (reader_take_iff.mp hturn)).2.1)
      (fun _ _ _ h hturn => (h.done (reader_wait_iff.mp hturn)).1) [] (anchors_of_none rfl)
    exact htakes.invariant (I := fun _ => Anchors)
      (fun _ _ _ _ _ _ hturn _ =>
        anchors_of_none (pass_again_front (reader_take_iff.mp hturn)).2.1)
      [] (hrun.push x)
  have hstart := (hanchors.anchorWait hlen (claimed d.buf)).2.1
  omega

/-- **Resynchronisation recovers every frame.** Garbage within the drop budget in front of
each frame: in any chunking nothing is raised, the frames are returned and the buffer is
empty at the end. Some garbage beyond the budget: the run raises. -/
theorem feedUntil_bursts (aes : AesEcb) (key : Option Bytes) (bursts : List (Burst aes key))
    (chunks : List Bytes) (hcut : chunks.flatten = burstStream bursts) :
    ((∀ b ∈ bursts, b.garbage.length ≤ resyncLimit) →
      (feedUntil aes (fresh key) chunks).raised = none ∧
      (feedUntil aes (fresh key) chunks).frames = bursts.map Burst.read ∧
      (feedUntil aes (fresh key) chunks).decoder.buf = []) ∧
    ((∃ b ∈ bursts, resyncLimit < b.garbage.length) →
      ∃ e, (feedUntil aes (fresh key) chunks).raised = some e ∧ e.cls = .frameDecodeError) := by
  have hwait := bursts_not_givesUpWaiting hcut
  have hstable := Splitter.reader_stable aes
  cases hraised : (feedUntil aes (fresh key) chunks).raised with
  | none =>
      obtain ⟨ps, hruns, hitems⟩ := splitter_runs hwait hraised
      have hpath := hstable.runs_takes hruns
      rw [splitter_push_fresh, hcut] at hpath
      obtain ⟨hbuf, hframes, hbudget⟩ :=
        (track_of_takes hpath).wait (hstable.runs_wait hruns (splitter_fresh_waits aes key))
      refine ⟨fun _ => ⟨rfl, hitems.symm.trans hframes, hbuf⟩, ?_⟩
      rintro ⟨b, hb, hlong⟩
      exact absurd (hbudget b hb) (not_le.mpr hlong)
  | some e =>
      obtain ⟨ps, qs, hfails, -⟩ := splitter_fails hwait hraised
      obtain ⟨s, s', hpath, hturn⟩ := hstable.fails_failsAfter hfails
      rw [splitter_push_fresh, hcut] at hpath
      obtain ⟨hcls, b, hb, hlong⟩ := (track_of_takes hpath).fail hturn
      refine ⟨?_, fun _ => ⟨e, rfl, hcls⟩⟩
      intro hbudget
      exact absurd (hbudget b hb) (not_le.mpr hlong)

end Bursts

/-- A byte of garbage and a captured frame. -/
def pollBurst : Burst pollAes none where
  garbage := [0x00]
  frame := capturedFrame
  wire := capturedPoll
  encoded := capturedFrame
  encode_eq := by decide +kernel
  flag_clear := by decide
  length_le := by decide
  quiet := by decide +kernel

/-- Garbage in front of two POLLs, below the limit and above it. -/
theorem feedUntil_bursts_poll :
    ((∀ b ∈ [pollBurst, pollBurst], b.garbage.length ≤ resyncLimit) →
      (feedUntil pollAes (fresh none) [burstStream [pollBurst, pollBurst]]).raised = none ∧
      (feedUntil pollAes (fresh none) [burstStream [pollBurst, pollBurst]]).frames =
        [pollBurst, pollBurst].map Burst.read ∧
      (feedUntil pollAes (fresh none) [burstStream [pollBurst, pollBurst]]).decoder.buf = []) ∧
    ((∃ b ∈ [pollBurst, pollBurst], resyncLimit < b.garbage.length) →
      ∃ e, (feedUntil pollAes (fresh none) [burstStream [pollBurst, pollBurst]]).raised = some e ∧
        e.cls = .frameDecodeError) :=
  feedUntil_bursts pollAes none [pollBurst, pollBurst] [burstStream [pollBurst, pollBurst]]
    (List.flatten_singleton)

end FrameDecoder

end Spcedp.Wire
