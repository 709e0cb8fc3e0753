import Spcedp.Analysis.Segmentation
import Spcedp.Analysis.TheoremCodec

/-!
# Segmentation does not matter, up to the bounded wait

`feedAll_sent`: chunks that cut no frame over more than `resyncLimit` bytes after its
header give back exactly the frames that were sent. A frame of at most 8216 wire bytes
cannot be cut otherwise (`waitsBounded_of_short`). For longer frames the condition is
needed: `slow_frame_lost` is a frame that arrives slowly and is given up.
-/

set_option autoImplicit false

namespace Spcedp.Wire

open Lib.LittleEndian Lib.BlockCipher

namespace FrameDecoder

/-! ## What was sent comes back -/

section Transparent

variable {aes : AesEcb} {key : Option Bytes}

/-- Encoded frames of plausible length, as the decoder will see them. -/
theorem exists_sent (hkey : ∀ k ∈ key, k.length = 16) {frames : List Frame}
    {sent : List (Bytes × Frame)}
    (henc : List.Forall₂ (fun f s => f.encode aes key = .ok s) frames sent)
    (hflag : ∀ f ∈ frames, Frame.encryptedBit f.srcFlag = false)
    (hmax : ∀ s ∈ sent, s.1.length ≤ maxPlausibleFrame) :
    ∃ ss : List (Sent aes key), ss.map Sent.wire = sent.map Prod.fst ∧
      ss.map Sent.frame = sent.map fun s => s.2.onWire := by
  induction henc with
  | nil => exact ⟨[], rfl, rfl⟩
  | @cons f s frames sent hf _ ih =>
      obtain ⟨ss, hwires, hframes⟩ := ih (fun f hf => hflag f (List.mem_cons_of_mem _ hf))
        (fun s hs => hmax s (List.mem_cons_of_mem _ hs))
      have hle : f.payload.length ≤ 65514 := by
        by_contra hlt
        obtain ⟨e, he, -⟩ := encode_too_large f aes key hkey (by omega)
        rw [he] at hf
        cases hf
      obtain ⟨w, hw, -, hwhole⟩ := decode_encode aes f key hkey (hflag f List.mem_cons_self) hle
      obtain rfl : (w, f.encoded key) = s := by
        rw [hw] at hf
        exact Except.ok.inj hf
      refine ⟨⟨w, _, hwhole, hmax _ List.mem_cons_self⟩ :: ss, ?_, ?_⟩
      · rw [List.map_cons, List.map_cons, hwires]
      · rw [List.map_cons, List.map_cons, hframes]

/-- **Segmentation transparency.** However the wire bytes of encoded frames are cut,
short of a wait that is too long, feeding the chunks raises nothing, returns exactly the
frames and leaves the buffer empty. -/
theorem feedAll_sent (hkey : ∀ k ∈ key, k.length = 16) (frames : List Frame)
    (sent : List (Bytes × Frame))
    (henc : List.Forall₂ (fun f s => f.encode aes key = .ok s) frames sent)
    (hflag : ∀ f ∈ frames, Frame.encryptedBit f.srcFlag = false)
    (hmax : ∀ s ∈ sent, s.1.length ≤ maxPlausibleFrame)
    (chunks : List Bytes) (hcut : chunks.flatten = (sent.map Prod.fst).flatten)
    (hwait : WaitsBounded (sent.map Prod.fst) chunks) :
    ∃ outs : List (List Frame),
      (feedAll aes { key := key } chunks).2 = outs.map .ok ∧
      outs.flatten = sent.map (fun s => s.2.onWire) ∧
      (feedAll aes { key := key } chunks).1.buf = [] := by
  obtain ⟨ss, hwires, hframes⟩ := exists_sent hkey henc hflag hmax
  have hstream : chunks.flatten = stream ss := by rw [hcut, ← hwires]; rfl
  have hinit : InStep chunks ([] : List Bytes).flatten { key := key } [] ss := by
    refine ⟨rfl, rfl, ?_, by intro total htotal; cases htotal⟩
    intro s more _
    exact lt_of_lt_of_le (by simp [headerLen]) s.whole.header_le
  obtain ⟨d', outs, now, rest', hsplit, hfeed, houts, hstep⟩ := feedAll_inStep chunks [] _ [] ss
    rfl hstream (by rwa [List.nil_append, hwires]) hinit
  rw [List.nil_append] at hstep
  rw [hstream, hsplit] at hstep
  obtain ⟨rfl, hbuf⟩ := hstep.finished
  rw [List.append_nil] at hsplit
  exact ⟨outs, by rw [hfeed], by rw [houts, ← hsplit, hframes], by rw [hfeed]; exact hbuf⟩

end Transparent

/-- Frames that are not longer than the limit on waiting, header included, may be cut in
any way. -/
theorem waitsBounded_of_short (wires chunks : List Bytes)
    (hshort : ∀ w ∈ wires, w.length ≤ headerLen + resyncLimit + 1) :
    WaitsBounded wires chunks := by
  rintro pre w post rfl p q - - hp hq
  have := hshort w (by simp)
  omega

/-- Two captured frames, cut inside the length prefix of the second one. -/
theorem feedAll_two_polls :
    ∃ outs : List (List Frame),
      (feedAll pollAes { key := none } [capturedPoll ++ [0x1d], capturedPoll.drop 1]).2 =
        outs.map .ok ∧
      outs.flatten = [(capturedPoll, capturedFrame), (capturedPoll, capturedFrame)].map
        (fun s => s.2.onWire) ∧
      (feedAll pollAes { key := none } [capturedPoll ++ [0x1d], capturedPoll.drop 1]).1.buf = [] :=
  feedAll_sent (by simp) [capturedFrame, capturedFrame] _
    (.cons (by decide +kernel) (.cons (by decide +kernel) .nil)) (by decide) (by decide) _
    (by decide) (waitsBounded_of_short _ _ (by decide))

/-! ## Bytes and frames -/

section Consumption

variable {aes : AesEcb}

/-- The wire bytes that a frame takes at least. -/
def wireCost (frames : List Frame) : ℕ := (frames.map fun f => headerLen + f.payload.length).sum

/-- No frames cost nothing. -/
@[simp] theorem wireCost_nil : wireCost [] = 0 := rfl

/-- A frame costs its header and its payload. -/
@[simp] theorem wireCost_singleton (f : Frame) :
    wireCost [f] = headerLen + f.payload.length := by
  simp [wireCost]

/-- The costs of two rows of frames add up. -/
@[simp] theorem wireCost_append (a b : List Frame) :
    wireCost (a ++ b) = wireCost a + wireCost b := by
  simp [wireCost]

/-- A decoded payload lies within the frame. -/
theorem decode_cost {buf : Bytes} {key : Option Bytes} {f : Frame}
    (hdec : Frame.decode aes buf key = .ok f) :
    headerLen + f.payload.length ≤ ofBytes (buf.take 2) + 2 := by
  have hrem (h : Head) (x : Bytes) : ofBytes ((h.bytes ++ x).take 2) = h.rem := by
    rw [Head.bytes, List.append_assoc, List.take_left' (length_toBytes 2 h.rem), ofBytes_toBytes,
      Nat.mod_eq_of_lt h.rem_lt]
  obtain ⟨h, n, body, hl, rfl⟩ | ⟨k, h, ct, more, n, body, rfl, hl, rfl⟩ := decode_ok_cases hdec
  · obtain rfl := hl.bytes
    have hle := hl.dlen_le
    rw [hrem]
    simp only [frameOf, List.length_take]
    omega
  · obtain rfl := hl.bytes
    have hle := hl.dlen_le
    rw [hrem]
    simp only [frameOf, List.length_take]
    omega

/-- A pass takes at least the bytes of the frame it returns. -/
theorem pass_consumes {d d' : FrameDecoder} {frame : Option Frame}
    (h : d.pass aes = .again d' frame) :
    wireCost frame.toList + d'.buf.length ≤ d.buf.length := by
  obtain ⟨-, ⟨rfl, hbuf⟩ | ⟨f, rfl, hle, hdec, hbuf⟩⟩ := pass_again_cases h
  · rw [hbuf, List.length_drop, Option.toList_none, wireCost_nil]
    omega
  · have hcost := decode_cost hdec
    rw [List.take_take, min_eq_left (by omega)] at hcost
    rw [hbuf, List.length_drop, Option.toList_some, wireCost_singleton]
    omega

/-- The loop takes at least the bytes of the frames it adds. -/
theorem loop_consumes {d d' : FrameDecoder} {out frames : List Frame}
    (h : loop aes d out = (d', .ok frames)) :
    wireCost frames + d'.buf.length ≤ wireCost out + d.buf.length := by
  induction d, out using loop.induct aes with
  | case1 d out d₁ hpass =>
      rw [loop_done out hpass] at h
      cases h
      rw [pass_done hpass]
  | case2 d out d₁ frame hpass ih =>
      rw [loop_again out hpass] at h
      have hstep := pass_consumes hpass
      have hloop := ih h
      rw [wireCost_append] at hloop
      omega
  | case3 d out d₁ e hpass =>
      rw [loop_raised out hpass] at h
      cases h

end Consumption

/-! ## A frame that arrives too slowly -/

section SlowFrame

variable {aes : AesEcb} {key : Option Bytes}

/-- Once a wait has grown too long, its frame cannot be returned any more. -/
theorem feedAll_slow {w : Bytes} {f : Frame} (hw : WholeFrame aes key w f)
    (hmax : w.length ≤ maxPlausibleFrame) (hcost : headerLen + f.payload.length = w.length)
    (a b c : Bytes) (hcut : w = a ++ (b ++ c)) (ha : a.length = headerLen)
    (hb : resyncLimit < b.length) (hc : 0 < c.length) (outs : List (List Frame))
    (h : (feedAll aes { key := key } [a, b, c]).2 = outs.map .ok) : outs.flatten ≠ [f] := by
  have hlenw : w.length = a.length + (b.length + c.length) := by
    rw [hcut, List.length_append, List.length_append]
  -- the first chunk anchors the wait
  set d₀ : FrameDecoder := { buf := [] ++ a, key := key } with hd₀
  have hpass₀ : d₀.pass aes = .done (d₀.anchorWait w.length) := by
    rw [pass_cut d₀ hw hmax (by simp [d₀, ha]) ⟨b ++ c, by simp [d₀, hcut]⟩
      (by simp [d₀]; omega), if_neg]
    have : (d₀.anchorWait w.length).waitStartLen = d₀.buf.length := rfl
    omega
  -- the second one makes it too long
  set d₁ : FrameDecoder := { d₀.anchorWait w.length with buf := a ++ b } with hd₁
  have hanch : d₁.anchorWait w.length = d₁ := by
    have htotal : d₁.waitTotal = some w.length := rfl
    unfold anchorWait
    rw [htotal, if_neg (by simp)]
  have hpass₁ : ∃ d₂, d₁.pass aes = .again d₂ none ∧ d₂.buf = (a ++ b).drop 1 := by
    rw [pass_cut d₁ hw hmax (by simp [d₁, ha]) ⟨c, by simp [d₁, hcut]⟩
      (by simp [d₁]; omega), hanch, if_pos]
    · exact ⟨_, rfl, rfl⟩
    · have : d₁.waitStartLen = a.length := rfl
      have : d₁.buf.length = a.length + b.length := List.length_append
      omega
  obtain ⟨d₂, hpass₁, hbuf₂⟩ := hpass₁
  have hfeed₀ : feed aes { key := key } a = (d₀.anchorWait w.length, .ok []) := loop_done [] hpass₀
  have hfeed₁ : feed aes (d₀.anchorWait w.length) b = loop aes d₂ [] := loop_again [] hpass₁
  -- what is left in the buffer is a byte too short for the frame
  cases hloop : loop aes d₂ [] with
  | mk d₃ result =>
      cases hlast : feed aes d₃ c with
      | mk d₄ result' =>
          simp only [feedAll, hfeed₀, hfeed₁, hloop, hlast] at h
          have hlen : outs.length = 3 := by simpa using (congrArg List.length h).symm
          obtain ⟨out₀, out₁, out₂, rfl⟩ := List.length_eq_three.mp hlen
          simp only [List.map_cons, List.cons.injEq, Except.ok.injEq, List.map_nil] at h
          obtain ⟨rfl, rfl, rfl, -⟩ := h
          have hhead := loop_consumes hloop
          have htail := loop_consumes hlast
          intro hout
          have hwire := congrArg wireCost hout
          rw [hbuf₂] at hhead
          simp only [List.flatten_cons, List.flatten_nil, List.nil_append, List.append_nil,
            wireCost_append, wireCost_nil, wireCost_singleton, List.length_drop,
            List.length_append] at hwire hhead htail
          omega

end SlowFrame

/-- A cleartext frame of 16384 wire bytes, all of its payload zero. -/
def longFrame : Frame where
  srcId := 0
  dstId := 0
  sequence := 0
  major := 0
  minor := 0
  payload := List.replicate 16361 0

/-- `longFrame` in three chunks of 23, 8193 and 8168 bytes: the second chunk exhausts the
wait, and the frame is never returned. -/
theorem slow_frame_lost :
    ¬ ∀ (aes : AesEcb) (key : Option Bytes), (∀ k ∈ key, k.length = 16) →
      ∀ (frames : List Frame) (sent : List (Bytes × Frame)),
      List.Forall₂ (fun f s => f.encode aes key = .ok s) frames sent →
      (∀ f ∈ frames, Frame.encryptedBit f.srcFlag = false) →
      (∀ s ∈ sent, s.1.length ≤ maxPlausibleFrame) →
      ∀ chunks : List Bytes, chunks.flatten = (sent.map Prod.fst).flatten →
      ∃ outs : List (List Frame),
        (feedAll aes { key := key } chunks).2 = outs.map .ok ∧
        outs.flatten = sent.map (fun s => s.2.onWire) ∧
        (feedAll aes { key := key } chunks).1.buf = [] := by
  intro hall
  have hpay : longFrame.payload.length = 16361 := List.length_replicate
  obtain ⟨w, henc, hlen, hw⟩ := decode_encode_clear pollAes longFrame (by decide) (by omega)
  rw [hpay] at hlen
  have hmax : w.length ≤ maxPlausibleFrame := by simp only [maxPlausibleFrame]; omega
  have hcut : w = w.take 23 ++ ((w.drop 23).take 8193 ++ (w.drop 23).drop 8193) := by
    rw [List.take_append_drop, List.take_append_drop]
  obtain ⟨outs, hresults, hframes, -⟩ := hall pollAes none (by simp) [longFrame]
    [(w, longFrame.encoded none)] (.cons henc .nil) (by decide) (by simpa using hmax)
    [w.take 23, (w.drop 23).take 8193, (w.drop 23).drop 8193]
    (by simpa only [List.flatten_cons, List.flatten_nil, List.append_nil, List.map_cons,
      List.map_nil] using hcut.symm)
  refine feedAll_slow hw hmax ?_ _ _ _ hcut ?_ ?_ ?_ outs hresults hframes
  · have : (longFrame.encoded none).onWire.payload = longFrame.payload := rfl
    rw [this, hpay, hlen]
  · rw [List.length_take, hlen]
    rfl
  · rw [List.length_take, List.length_drop, hlen]
    decide
  · rw [List.length_drop, List.length_drop, hlen]
    decide

end FrameDecoder

end Spcedp.Wire
