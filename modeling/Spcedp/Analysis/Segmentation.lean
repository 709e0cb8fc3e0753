import Spcedp.Analysis.Codec
import Spcedp.Model.Decoder

/-!
# Segmentation of the byte stream

The decoder gets the wire bytes of whole frames in arbitrary chunks. Between two calls
of `feed` it is `InStep` with the stream: its buffer is what arrived behind the frames it
has returned, less than the next frame, and a wait for that frame is anchored where a
chunk ended. `loop_inStep` restores this after each chunk, as long as no frame has been
waited for over more than `resyncLimit` bytes (`WaitsBounded`).
-/

set_option autoImplicit false

namespace Spcedp.Wire

open Lib.LittleEndian

namespace FrameDecoder

section Loop

variable {aes : AesEcb} {d d' : FrameDecoder} (out : List Frame)

/-- The loop ends where a pass does. -/
theorem loop_done (h : d.pass aes = .done d') : loop aes d out = (d', .ok out) := by
  rw [loop]
  split <;> simp_all

/-- The loop goes round with the frame of the pass. -/
theorem loop_again {frame : Option Frame} (h : d.pass aes = .again d' frame) :
    loop aes d out = loop aes d' (out ++ frame.toList) := by
  rw [loop]
  split <;> simp_all

/-- The loop raises where a pass does. -/
theorem loop_raised {e : WireError} (h : d.pass aes = .raised d' e) :
    loop aes d out = (d', .error e) := by
  rw [loop]
  split <;> simp_all

/-- The loop adds frames that were decoded. -/
theorem loop_fromWire {frames : List Frame} (h : loop aes d out = (d', .ok frames))
    (hout : ∀ f ∈ out, FromWire f) : ∀ f ∈ frames, FromWire f := by
  induction d, out using loop.induct aes with
  | case1 d out d₁ hpass =>
      rw [loop_done out hpass] at h
      cases h
      exact hout
  | case2 d out d₁ frame hpass ih =>
      rw [loop_again out hpass] at h
      apply ih h
      intro f hf
      rcases List.mem_append.mp hf with hf | hf
      · exact hout f hf
      · obtain ⟨-, ⟨rfl, -⟩ | ⟨f', rfl, -, hdec, -⟩⟩ := pass_again_cases hpass
        · simp at hf
        · rw [Option.toList_some, List.mem_singleton] at hf
          rw [hf]
          exact decode_fromWire hdec
  | case3 d out d₁ e hpass =>
      rw [loop_raised out hpass] at h
      cases h

/-- **`feed` returns frames that fit the wire.** -/
theorem feed_fromWire {data : Bytes} {frames : List Frame}
    (h : d.feed aes data = (d', .ok frames)) : ∀ f ∈ frames, FromWire f :=
  loop_fromWire [] h nofun

end Loop

/-! ## One pass over a stream of whole frames -/

section Pass

variable {aes : AesEcb} {key : Option Bytes} {w : Bytes} {f : Frame} (d : FrameDecoder)

/-- A header with the magic and a plausible length looks valid. -/
theorem looksValid_head (h : Head) (x : Bytes) (hproto : h.proto = protocolByte)
    (hver : h.ver = protocolVersion) (hmin : headerLen ≤ h.rem + 2)
    (hmax : h.rem + 2 ≤ maxPlausibleFrame) : looksValid (h.bytes ++ x) := by
  have hrem : ofBytes ((h.bytes ++ x).take 2) = h.rem := by
    rw [Head.bytes, List.append_assoc, List.take_left' (length_toBytes 2 h.rem), ofBytes_toBytes,
      Nat.mod_eq_of_lt h.rem_lt]
  unfold looksValid
  rw [hrem]
  refine ⟨hmin, hmax, ?_, hproto, hver⟩
  simp only [maxPlausibleFrame, maxFrameLen] at hmax ⊢
  omega

/-- A buffer that holds the header of a whole frame looks valid and claims its length. -/
theorem header_of_wholeFrame (hw : WholeFrame aes key w f) (hmax : w.length ≤ maxPlausibleFrame)
    {buf : Bytes} (hlen : headerLen ≤ buf.length) (hbuf : buf <+: w ∨ w <+: buf) :
    looksValid buf ∧ ofBytes (buf.take 2) + 2 = w.length := by
  obtain ⟨h, tail, hlay, hrem, hproto, hver⟩ := hw.layout
  have hle := hw.header_le
  simp only [headerLen] at hlen hle
  obtain ⟨x, rfl⟩ : h.bytes <+: buf := by
    obtain hbuf | hbuf := hbuf
    · exact List.prefix_of_prefix_length_le ⟨tail, hlay.symm⟩ hbuf (by simp; omega)
    · exact List.IsPrefix.trans ⟨tail, hlay.symm⟩ hbuf
  refine ⟨looksValid_head h x hproto hver (by simp only [headerLen]; omega) (by omega), ?_⟩
  rw [Head.bytes, List.append_assoc, List.take_left' (length_toBytes 2 h.rem), ofBytes_toBytes,
    Nat.mod_eq_of_lt h.rem_lt, hrem]

/-- Too few bytes for a header: `feed` returns. -/
theorem pass_short (hlen : d.buf.length < headerLen) : d.pass aes = .done d := by
  unfold pass
  rw [if_pos hlen]

/-- A whole frame at the front of the buffer is taken off and returned. -/
theorem pass_whole (hw : WholeFrame aes key w f) (hmax : w.length ≤ maxPlausibleFrame)
    (hkey : d.key = key) {more : Bytes} (hbuf : d.buf = w ++ more) :
    d.pass aes = .again { d.resetWait with buf := more, dropped := 0 } (some f) := by
  have hlen : headerLen ≤ d.buf.length := by
    rw [hbuf, List.length_append]
    exact Nat.le_add_right_of_le hw.header_le
  obtain ⟨hvalid, htotal⟩ := header_of_wholeFrame hw hmax hlen (.inr ⟨more, hbuf.symm⟩)
  have hdecode : Frame.decode aes (d.buf.take w.length) d.resetWait.key = .ok f := by
    rw [hbuf, List.take_left' rfl]
    exact hkey ▸ hw.decode
  have hdrop : d.buf.drop w.length = more := by rw [hbuf, List.drop_left' rfl]
  have hge : ¬d.buf.length < w.length := by
    rw [hbuf, List.length_append]
    omega
  unfold pass
  dsimp only
  rw [if_neg (by omega), if_neg (not_not.mpr hvalid), htotal, if_neg hge]
  simp only [resetWait_buf, hdecode, hdrop]

/-- **One whole frame, in one chunk**, to a new decoder. -/
theorem feed_whole (hw : WholeFrame aes key w f) (hmax : w.length ≤ maxPlausibleFrame) :
    FrameDecoder.feed aes { key := key } w = ({ key := key }, .ok [f]) := by
  unfold FrameDecoder.feed
  dsimp only
  rw [List.nil_append, loop_again [] (pass_whole _ hw hmax rfl (List.append_nil w).symm),
    loop_done _ (pass_short _ (by simp))]
  rfl

/-- The header of a frame that is not complete yet: `feed` waits, or gives up on it. -/
theorem pass_cut (hw : WholeFrame aes key w f) (hmax : w.length ≤ maxPlausibleFrame)
    (hlen : headerLen ≤ d.buf.length) (hbuf : d.buf <+: w) (hlt : d.buf.length < w.length) :
    d.pass aes =
      if d.buf.length - (d.anchorWait w.length).waitStartLen > resyncLimit then
        (d.anchorWait w.length).resetWait.resync
      else .done (d.anchorWait w.length) := by
  obtain ⟨hvalid, htotal⟩ := header_of_wholeFrame hw hmax hlen (.inl hbuf)
  unfold pass
  dsimp only
  rw [if_neg (by omega), if_neg (not_not.mpr hvalid), htotal, if_pos hlt]
  simp only [anchorWait_buf]

end Pass

/-! ## The stream and its chunks -/

/-- A frame as it went over the wire: its bytes, and what its receiver reads. -/
structure Sent (aes : AesEcb) (key : Option Bytes) where
  wire : Bytes
  frame : Frame
  whole : WholeFrame aes key wire frame
  length_le : wire.length ≤ maxPlausibleFrame

/-- The bytes of a list of frames, one behind the other. -/
def stream {aes : AesEcb} {key : Option Bytes} (sent : List (Sent aes key)) : Bytes :=
  (sent.map Sent.wire).flatten

/-- One of the chunks ends at position `p` of the stream, or the stream starts there. -/
def Boundary (chunks : List Bytes) (p : ℕ) : Prop :=
  ∃ seen, seen <+: chunks ∧ seen.flatten.length = p

/-- No frame is cut at two places more than `resyncLimit` apart with its header, of
`headerLen` bytes, complete at the first one. -/
def WaitsBounded (wires chunks : List Bytes) : Prop :=
  ∀ pre w post, wires = pre ++ w :: post → ∀ p q, Boundary chunks p → Boundary chunks q →
    pre.flatten.length + headerLen ≤ p → q < pre.flatten.length + w.length →
    q ≤ p + resyncLimit

section Stream

variable {aes : AesEcb} {key : Option Bytes}

/-- No frames have no bytes. -/
@[simp] theorem stream_nil : stream ([] : List (Sent aes key)) = [] := rfl

/-- The bytes of the first frame come first. -/
@[simp] theorem stream_cons (s : Sent aes key) (sent : List (Sent aes key)) :
    stream (s :: sent) = s.wire ++ stream sent := rfl

/-- The bytes of two rows of frames are in a row. -/
@[simp] theorem stream_append (a b : List (Sent aes key)) :
    stream (a ++ b) = stream a ++ stream b := by
  simp [stream]

/-- The wait anchor, where it is set, is a boundary behind the header of the next frame. -/
def Anchored (chunks : List Bytes) (d : FrameDecoder) (start : ℕ) (rest : List (Sent aes key)) :
    Prop :=
  ∀ total, d.waitTotal = some total → ∃ s more, rest = s :: more ∧ total = s.wire.length ∧
    headerLen ≤ d.waitStartLen ∧ Boundary chunks (start + d.waitStartLen)

/-- After the bytes `seen` the decoder has returned the frames `past` and is reading the
next one. -/
structure InStep (chunks : List Bytes) (seen : Bytes) (d : FrameDecoder)
    (past rest : List (Sent aes key)) : Prop where
  key : d.key = key
  seen : seen = stream past ++ d.buf
  partly : ∀ s more, rest = s :: more → d.buf.length < s.wire.length
  anchored : Anchored chunks d (stream past).length rest

/-- The anchor that waiting for a frame leaves behind. -/
theorem anchored_anchorWait {chunks : List Bytes} {d : FrameDecoder} {start : ℕ} {s : Sent aes key}
    {more : List (Sent aes key)} (hanch : Anchored chunks d start (s :: more))
    (hlen : headerLen ≤ d.buf.length) (hbound : Boundary chunks (start + d.buf.length)) :
    headerLen ≤ (d.anchorWait s.wire.length).waitStartLen ∧
    Boundary chunks (start + (d.anchorWait s.wire.length).waitStartLen) ∧
    (d.anchorWait s.wire.length).waitTotal = some s.wire.length := by
  unfold anchorWait
  split
  · exact ⟨hlen, hbound, rfl⟩
  · rename_i hset
    rw [not_not] at hset
    obtain ⟨s', more', heq, -, hle, hb⟩ := hanch _ hset
    exact ⟨hle, hb, hset⟩

/-- **The loop of `feed` stays in step.** Started on a buffer of frames to come, it
returns the complete ones and keeps the rest. -/
theorem loop_inStep (chunks : List Bytes) (rest : List (Sent aes key)) :
    ∀ (past : List (Sent aes key)) (seen : Bytes) (d : FrameDecoder) (out : List Frame),
      WaitsBounded ((past ++ rest).map Sent.wire) chunks → Boundary chunks seen.length →
      d.key = key → seen = stream past ++ d.buf → d.buf <+: stream rest →
      Anchored chunks d (stream past).length rest →
      ∃ (d' : FrameDecoder) (now rest' : List (Sent aes key)), rest = now ++ rest' ∧
        loop aes d out = (d', .ok (out ++ now.map Sent.frame)) ∧
        InStep chunks seen d' (past ++ now) rest' := by
  induction rest with
  | nil =>
      intro past seen d out _ _ hkey hseen hbuf hanch
      rw [stream_nil, List.prefix_nil] at hbuf
      refine ⟨d, [], [], rfl, ?_, ?_⟩
      · rw [loop_done out (pass_short d (by simp [hbuf]))]
        simp
      · rw [List.append_nil]
        exact ⟨hkey, hseen, by simp, hanch⟩
  | cons s more ih =>
      intro past seen d out hwait hbound hkey hseen hbuf hanch
      rw [stream_cons] at hbuf
      by_cases hwhole : s.wire.length ≤ d.buf.length
      · -- the next frame is complete
        obtain ⟨buf', hbuf'⟩ : s.wire <+: d.buf :=
          List.prefix_of_prefix_length_le (List.prefix_append _ _) hbuf hwhole
        rw [loop_again out (pass_whole d s.whole s.length_le hkey hbuf'.symm)]
        obtain ⟨d', now, rest', hsplit, hloop, hstep⟩ := ih (past ++ [s]) seen
          { d.resetWait with buf := buf', dropped := 0 } (out ++ [s.frame])
          (by simpa using hwait) hbound hkey (by simp [hseen, ← hbuf'])
          (by rwa [← hbuf', List.prefix_append_right_inj] at hbuf)
          (by intro total htotal; cases htotal)
        refine ⟨d', s :: now, rest', by rw [hsplit, List.cons_append], ?_, ?_⟩
        · simpa using hloop
        · simpa using hstep
      · -- the next frame is cut
        rw [not_le] at hwhole
        have hpre : d.buf <+: s.wire :=
          List.prefix_of_prefix_length_le hbuf (List.prefix_append _ _) hwhole.le
        have hpartly : ∀ s' more', s :: more = s' :: more' → d.buf.length < s'.wire.length := by
          rintro s' more' ⟨⟩
          exact hwhole
        by_cases hlen : d.buf.length < headerLen
        · refine ⟨d, [], s :: more, rfl, ?_, ?_⟩
          · rw [loop_done out (pass_short d hlen)]
            simp
          · rw [List.append_nil]
            exact ⟨hkey, hseen, hpartly, hanch⟩
        · rw [not_lt] at hlen
          rw [hseen, List.length_append] at hbound
          obtain ⟨hle, hb, htotal⟩ := anchored_anchorWait hanch hlen hbound
          have hfire := hwait (past.map Sent.wire) s.wire (more.map Sent.wire) (by simp) _ _ hb
            hbound (Nat.add_le_add_left hle _) (Nat.add_lt_add_left hwhole _)
          refine ⟨d.anchorWait s.wire.length, [], s :: more, rfl, ?_, ?_⟩
          · have hpass := pass_cut d s.whole s.length_le hlen hpre hwhole
            rw [if_neg (by omega)] at hpass
            rw [loop_done out hpass]
            simp
          · rw [List.append_nil]
            refine ⟨?_, by rw [anchorWait_buf]; exact hseen, by rwa [anchorWait_buf], ?_⟩
            · unfold anchorWait
              split <;> exact hkey
            · intro total ht
              rw [htotal] at ht
              cases ht
              exact ⟨s, more, rfl, rfl, hle, hb⟩

/-- **A run stays in step.** Feeding the chunks to come returns the frames that they
complete. -/
theorem feedAll_inStep {chunks : List Bytes} (togo : List Bytes) :
    ∀ (before : List Bytes) (d : FrameDecoder) (past rest : List (Sent aes key)),
      chunks = before ++ togo → chunks.flatten = stream (past ++ rest) →
      WaitsBounded ((past ++ rest).map Sent.wire) chunks →
      InStep chunks before.flatten d past rest →
      ∃ (d' : FrameDecoder) (outs : List (List Frame)) (now rest' : List (Sent aes key)),
        rest = now ++ rest' ∧ feedAll aes d togo = (d', outs.map .ok) ∧
        outs.flatten = now.map Sent.frame ∧
        InStep chunks chunks.flatten d' (past ++ now) rest' := by
  induction togo with
  | nil =>
      intro before d past rest hsplit _ _ hstep
      rw [List.append_nil] at hsplit
      exact ⟨d, [], [], rest, rfl, rfl, rfl, by rw [List.append_nil, ← hsplit] at *; exact hstep⟩
  | cons c togo ih =>
      intro before d past rest hsplit hall hwait hstep
      have hseen : (before ++ [c]).flatten = stream past ++ (d.buf ++ c) := by
        rw [List.flatten_concat, hstep.seen, List.append_assoc]
      have hpre : d.buf ++ c <+: stream rest := by
        rw [hsplit, List.append_cons, List.flatten_append, hseen, stream_append,
          List.append_assoc] at hall
        exact ⟨togo.flatten, List.append_cancel_left hall⟩
      obtain ⟨d₁, now₁, rest₁, hrest, hloop, hstep₁⟩ := loop_inStep chunks rest past
        (before ++ [c]).flatten { d with buf := d.buf ++ c } [] hwait
        ⟨before ++ [c], ⟨togo, by simp [hsplit]⟩, rfl⟩ hstep.key hseen hpre hstep.anchored
      have hcat : past ++ rest = past ++ now₁ ++ rest₁ := by rw [hrest, List.append_assoc]
      obtain ⟨d₂, outs, now₂, rest₂, hrest', hfeed, houts, hstep₂⟩ := ih (before ++ [c]) d₁
        (past ++ now₁) rest₁ (by simp [hsplit]) (by rwa [← hcat]) (by rwa [← hcat]) hstep₁
      refine ⟨d₂, now₁.map Sent.frame :: outs, now₁ ++ now₂, rest₂, ?_, ?_, ?_, ?_⟩
      · rw [hrest, hrest', List.append_assoc]
      · have hfeed₁ : d.feed aes c = (d₁, .ok (now₁.map Sent.frame)) := by
          simpa [feed] using hloop
        simp only [feedAll, hfeed₁, hfeed, List.map_cons]
      · rw [List.flatten_cons, houts, List.map_append]
      · rwa [← List.append_assoc]

/-- Nothing is left over when the stream ends with a frame. -/
theorem InStep.finished {chunks : List Bytes} {d : FrameDecoder} {past rest : List (Sent aes key)}
    (hstep : InStep chunks (stream (past ++ rest)) d past rest) : rest = [] ∧ d.buf = [] := by
  have hbuf : d.buf = stream rest := by
    have hseen := hstep.seen
    rw [stream_append] at hseen
    exact (List.append_cancel_left hseen).symm
  cases rest with
  | nil => exact ⟨rfl, hbuf⟩
  | cons s more =>
      have hlt := hstep.partly s more rfl
      rw [hbuf, stream_cons, List.length_append] at hlt
      omega

end Stream

end FrameDecoder

end Spcedp.Wire
