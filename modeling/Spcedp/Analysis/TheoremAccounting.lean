import Mathlib.Data.List.DropRight
import Spcedp.Analysis.TheoremCodec
import Spcedp.Interface.Decoder

/-!
# What becomes of every byte

Fed without an exception, the decoder has turned the stream into pieces, each a dropped
byte or the wire bytes of one returned frame, and its buffer (`feedUntil_accounts`). The
drop count is the number of bytes dropped since the last frame, so no gap between two
frames is longer than `resyncLimit`; with what the decoder may hold while it waits, this
bounds the bytes behind the last frame (`feed_no_wedge`).
-/

set_option autoImplicit false

namespace Spcedp.Wire

open Lib.LittleEndian Lib.Stream

/-! ## What decoding raises -/

section DecodeErrors

variable {aes : AesEcb} {key : Option Bytes} {buf : Bytes} {e : WireError}

/-- **Decoding a whole frame** under no key or one of 16 bytes raises nothing but
`FrameDecodeError`, or `EncryptionRequired`. -/
theorem decode_error_cls (hkey : ∀ k ∈ key, k.length = 16)
    (hvalid : FrameDecoder.looksValid buf) (hwhole : buf.length = claimed buf)
    (herr : Frame.decode aes buf key = .error e) :
    e.cls = .frameDecodeError ∨ e.cls = .encryptionRequired := by
  obtain ⟨hmin, -, -, hproto, hver⟩ := hvalid
  have hlen : headerLen ≤ buf.length := by rw [hwhole]; exact hmin
  simp only [headerLen] at hlen
  obtain ⟨h, tail, rfl⟩ := exists_head buf (by omega)
  have hrem : claimed (h.bytes ++ tail) = h.rem + 2 := by
    unfold claimed
    rw [rem_of_bytes]
  rw [hrem, List.length_append, Head.length_bytes] at hwhole
  rw [List.length_append, Head.length_bytes] at hlen
  replace hproto : h.proto = protocolByte := hproto
  replace hver : h.ver = protocolVersion := hver
  cases hflag : Frame.encryptedBit h.flag with
  | false =>
      obtain ⟨n, body, rfl⟩ := exists_inner tail (by omega)
      rw [List.length_append, Inner.length_bytes] at hwhole
      rw [decode_clear aes h n body key hproto hver hflag
        (by simp only [headerLen]; omega)] at herr
      exact .inl (verdict_error_cls rfl herr)
  | true =>
      cases key with
      | none => exact decode_none_error_cls herr
      | some k =>
          left
          have hk := hkey k rfl
          by_cases hblocks : 16 ∣ tail.length
          · have hpt := aes.length_decrypt k tail hk hblocks
            obtain ⟨n, body, hplain⟩ := exists_inner (aes.decrypt k tail) (by omega)
            have hdec := decode_encrypted aes h tail [] n body k hproto hver hflag hk (by omega)
              hblocks hplain
            rw [List.append_nil] at hdec
            exact verdict_error_cls rfl (hdec.symm.trans herr)
          · have htake : (h.bytes ++ tail).take (h.rem + 2) = h.bytes ++ tail :=
              List.take_of_length_le (by simp; omega)
            rw [decode_head aes h (some k) (by omega), if_neg (by omega),
              if_neg (by simp [hproto, hver]), if_pos hflag, Option.elim_some, htake,
              decryptInBuf_odd aes h hk hblocks] at herr
            cases herr
            rfl

/-- What the decoder passes on from decoding is `EncryptionRequired`. -/
theorem front_fatal_cls (hkey : ∀ k ∈ key, k.length = 16) (h : front aes key buf = .fatal e) :
    e.cls = .encryptionRequired := by
  obtain ⟨hvalid, hle, herr, hcls⟩ := front_fatal h
  have hmin := (claimed_bounds hvalid).1
  have htake := List.take_append_drop (claimed buf) buf
  have hlen : (buf.take (claimed buf)).length = claimed buf := List.length_take_of_le hle
  have hclaimed : claimed (buf.take (claimed buf)) = claimed buf := by
    conv_rhs => rw [← htake, claimed_append (by omega)]
  have hvalid' : FrameDecoder.looksValid (buf.take (claimed buf)) := by
    rw [← htake] at hvalid
    exact (looksValid_append (by omega) _).mp hvalid
  exact (decode_error_cls hkey hvalid' (hlen.trans hclaimed.symm) herr).resolve_left hcls

end DecodeErrors

namespace FrameDecoder

/-! ## The ledger -/

/-- A piece that is a dropped byte. -/
def Dropped (p : Piece UInt8 Frame) : Prop := p.item = none ∧ p.symbols.length = 1

/-- A piece that is the wire bytes of a frame. -/
def Whole (aes : AesEcb) (key : Option Bytes) (p : Piece UInt8 Frame) : Prop :=
  ∃ f, p.item = some f ∧ p.symbols.length = 2 + ofBytes (p.symbols.take 2) ∧
    p.symbols.length ≤ maxPlausibleFrame ∧ Frame.decode aes p.symbols key = .ok f

/-- The pieces behind the last frame. -/
def sinceFrame (ps : List (Piece UInt8 Frame)) : List (Piece UInt8 Frame) :=
  ps.rtakeWhile fun p => p.item.isNone

/-- What the pieces so far and the decoder's drop count tell of each other. -/
structure Ledger (aes : AesEcb) (key : Option Bytes) (ps : List (Piece UInt8 Frame))
    (d : FrameDecoder) : Prop where
  sameKey : d.key = key
  pieces : ∀ p ∈ ps, Dropped p ∨ Whole aes key p
  gaps : ∀ gap, gap <:+: ps → (∀ p ∈ gap, p.item = none) → gap.length ≤ resyncLimit
  last : (sinceFrame ps).length = d.dropped

section Ledger

variable {aes : AesEcb} {key : Option Bytes} {ps : List (Piece UInt8 Frame)} {d d' : FrameDecoder}
  {p : Bytes} {item : Option Frame} {chunks : List Bytes}

/-- A piece without a frame is added to those since the last one. -/
theorem sinceFrame_concat_none (ps : List (Piece UInt8 Frame)) (p : Bytes) :
    sinceFrame (ps ++ [⟨p, none⟩]) = sinceFrame ps ++ [⟨p, none⟩] :=
  List.rtakeWhile_concat_pos _ _ _ rfl

/-- Behind a frame the count starts again. -/
theorem sinceFrame_concat_some (ps : List (Piece UInt8 Frame)) (p : Bytes) (f : Frame) :
    sinceFrame (ps ++ [⟨p, some f⟩]) = [] :=
  List.rtakeWhile_concat_neg _ _ _ (by simp)

/-- The pieces since the last frame carry none. -/
theorem mem_sinceFrame {q : Piece UInt8 Frame} (hq : q ∈ sinceFrame ps) :
    q ∈ ps ∧ q.item = none := by
  have hnone := List.mem_rtakeWhile_imp (p := fun q : Piece UInt8 Frame => q.item.isNone) hq
  exact ⟨(List.rtakeWhile_suffix _ ps).subset hq, Option.isNone_iff_eq_none.mp hnone⟩

/-- Dropped pieces at the end lie behind the last frame. -/
theorem length_le_sinceFrame {gap : List (Piece UInt8 Frame)} (hgap : gap <:+ ps)
    (hnone : ∀ p ∈ gap, p.item = none) : gap.length ≤ (sinceFrame ps).length := by
  induction gap using List.reverseRecOn generalizing ps with
  | nil => exact Nat.zero_le _
  | append_singleton gap q ih =>
      obtain ⟨pre, rfl⟩ := hgap
      have hq : q = ⟨q.symbols, none⟩ := by
        rw [← hnone q (by simp)]
      rw [← List.append_assoc, hq, sinceFrame_concat_none, List.length_append, List.length_append]
      exact Nat.add_le_add_right
        (ih (List.suffix_append _ _) fun p hp => hnone p (List.mem_append_left _ hp)) 1

/-- A gap is one of the pieces before the last, or ends with it. -/
theorem gaps_concat {q : Piece UInt8 Frame} {n : ℕ}
    (hgaps : ∀ gap, gap <:+: ps → (∀ p ∈ gap, p.item = none) → gap.length ≤ n)
    (hlast : (sinceFrame (ps ++ [q])).length ≤ n) :
    ∀ gap, gap <:+: ps ++ [q] → (∀ p ∈ gap, p.item = none) → gap.length ≤ n := by
  intro gap hgap hnone
  obtain hsuffix | hinfix := List.infix_concat_iff.mp hgap
  · exact (length_le_sinceFrame hsuffix hnone).trans hlast
  · exact hgaps gap hinfix hnone

/-- **A pass that takes a piece keeps the ledger.** -/
theorem Ledger.take (h : Ledger aes key ps d) (hpass : d.pass aes = .again d' item)
    (hbuf : d.buf = p ++ d'.buf) : Ledger aes key (ps ++ [⟨p, item⟩]) d' := by
  obtain ⟨hkey, -, ⟨rfl, hbuf', hdropped, hlt, hlen, -⟩ |
    ⟨total, f, hfront, rfl, hbuf', hdropped⟩⟩ := pass_again_front hpass
  · -- a dropped byte
    simp only [headerLen] at hlen
    have hp : p = d.buf.take 1 := by
      refine List.append_cancel_right (?_ : p ++ d'.buf = d.buf.take 1 ++ d'.buf)
      rw [← hbuf, hbuf', List.take_append_drop]
    have hlast : (sinceFrame (ps ++ [⟨p, none⟩])).length = d'.dropped := by
      rw [sinceFrame_concat_none, List.length_append, h.last, hdropped]
      rfl
    refine ⟨hkey.trans h.sameKey, ?_, gaps_concat h.gaps ?_, hlast⟩
    case refine_2 =>
      rw [hlast, hdropped]
      exact hlt
    intro q hq
    obtain hq | hq := List.mem_append.mp hq
    · exact h.pieces q hq
    · rw [List.mem_singleton.mp hq]
      refine .inl ⟨rfl, ?_⟩
      show p.length = 1
      rw [hp, List.length_take]
      omega
  · -- a frame
    obtain ⟨hlen, hvalid, rfl, hle, hdec⟩ := front_frame hfront
    simp only [headerLen] at hlen
    have hp : p = d.buf.take (claimed d.buf) := by
      refine List.append_cancel_right (?_ : p ++ d'.buf = d.buf.take (claimed d.buf) ++ d'.buf)
      rw [← hbuf, hbuf', List.take_append_drop]
    have hplen : p.length = claimed d.buf := by
      rw [hp]
      exact List.length_take_of_le hle
    have hlast : sinceFrame (ps ++ [⟨p, some f⟩]) = [] := sinceFrame_concat_some ps p f
    refine ⟨hkey.trans h.sameKey, ?_, gaps_concat h.gaps (by rw [hlast]; exact Nat.zero_le _), ?_⟩
    · intro q hq
      obtain hq | hq := List.mem_append.mp hq
      · exact h.pieces q hq
      · rw [List.mem_singleton.mp hq]
        refine .inr ⟨f, rfl, ?_, ?_, ?_⟩
        · show p.length = 2 + ofBytes (p.take 2)
          have hmin := (claimed_bounds hvalid).1
          simp only [headerLen] at hmin
          rw [hplen, hp, List.take_take, min_eq_left (by omega), claimed, Nat.add_comm]
        · show p.length ≤ maxPlausibleFrame
          rw [hplen]
          exact (claimed_bounds hvalid).2
        · show Frame.decode aes p key = .ok f
          rw [hp, ← h.sameKey]
          exact hdec
    · rw [hlast, hdropped]
      rfl

/-- **A run keeps the ledger.** -/
theorem Ledger.runs (hruns : Runs (reader aes) (fresh key) chunks ps d) :
    Ledger aes key ps d := by
  have hfresh : Ledger aes key [] (fresh key) := by
    refine ⟨rfl, by simp, ?_, rfl⟩
    intro gap hgap _
    rw [List.infix_nil.mp hgap]
    exact Nat.zero_le _
  rw [← List.nil_append ps]
  refine hruns.invariant (I := Ledger aes key) ?_ ?_ ?_ [] hfresh
  · intro past c x h
    exact ⟨h.sameKey, h.pieces, h.gaps, h.last⟩
  · intro past c c' p item h hturn hheld
    exact h.take (reader_take_iff.mp hturn) hheld
  · intro past c c' h hturn
    obtain ⟨-, rfl⟩ | ⟨total, -, rfl, -⟩ := pass_done_cases (reader_wait_iff.mp hturn)
    · exact h
    · exact ⟨by rw [anchorWait_key, h.sameKey], h.pieces, h.gaps,
        by rw [anchorWait_dropped, h.last]⟩

end Ledger

/-- An account of the bytes fed: the pieces, each a dropped byte or the wire bytes of a
frame, followed by the buffer. -/
structure Accounts (aes : AesEcb) (key : Option Bytes) (fed : Bytes)
    (ps : List (Piece UInt8 Frame)) (result : Outcome) : Prop where
  bytes : fed = symbols ps ++ result.decoder.buf
  frames : items ps = result.frames
  pieces : ∀ p ∈ ps, Dropped p ∨ Whole aes key p
  gaps : ∀ gap, gap <:+: ps → (∀ p ∈ gap, p.item = none) → gap.length ≤ resyncLimit
  last : (sinceFrame ps).length = result.decoder.dropped

/-- **Stream accounting.** As long as nothing is raised, the bytes fed are dropped bytes and
the wire bytes of the frames returned, in order, followed by the buffer. -/
theorem feedUntil_accounts (aes : AesEcb) (key : Option Bytes) (chunks : List Bytes)
    (h : (feedUntil aes (fresh key) chunks).raised = none) :
    ∃ ps, Accounts aes key chunks.flatten ps (feedUntil aes (fresh key) chunks) := by
  obtain ⟨ps, hruns, hitems⟩ := feedUntil_none h
  have hledger := Ledger.runs hruns
  exact ⟨ps, hruns.held, hitems, hledger.pieces, hledger.gaps, hledger.last⟩

/-- A byte of garbage, then a captured frame. -/
theorem feedUntil_garbage :
    feedUntil pollAes (fresh none) [[0x00], capturedPoll] =
      ⟨fresh none, [capturedFrame], none⟩ := by
  have hshort : front pollAes ((fresh none).push [0x00]).key ((fresh none).push [0x00]).buf =
      .short := by decide
  have hfeed₁ : (fresh none).feed pollAes [0x00] = ((fresh none).push [0x00], .ok []) :=
    loop_done [] (pass_of_short hshort)
  have hjunk : front pollAes (((fresh none).push [0x00]).push capturedPoll).key
      (((fresh none).push [0x00]).push capturedPoll).buf = .junk := by decide +kernel
  have hdrop : (((fresh none).push [0x00]).push capturedPoll).pass pollAes =
      .again { buf := capturedPoll, dropped := 1 } none := pass_of_junk hjunk (by decide)
  have hframe : front pollAes ({ buf := capturedPoll, dropped := 1 } : FrameDecoder).key
      ({ buf := capturedPoll, dropped := 1 } : FrameDecoder).buf = .frame 31 capturedFrame := by
    decide +kernel
  have htake : ({ buf := capturedPoll, dropped := 1 } : FrameDecoder).pass pollAes =
      .again (fresh none) (some capturedFrame) := pass_of_frame hframe
  have hempty : front pollAes (fresh none).key (fresh none).buf = .short := by decide
  have hfeed₂ : ((fresh none).push [0x00]).feed pollAes capturedPoll =
      (fresh none, .ok [capturedFrame]) :=
    (loop_again [] hdrop).trans <|
      (loop_again _ htake).trans (loop_done _ (pass_of_short hempty))
  rw [feedUntil, hfeed₁]
  simp only [feedUntil, hfeed₂, List.append_nil, List.nil_append]

/-- A byte in front of a captured POLL is dropped and accounted for. -/
theorem feedUntil_accounts_garbage :
    ∃ ps, Accounts pollAes none [[0x00], capturedPoll].flatten ps
      (feedUntil pollAes (fresh none) [[0x00], capturedPoll]) :=
  feedUntil_accounts pollAes none [[0x00], capturedPoll] (by rw [feedUntil_garbage])

/-! ## The wait -/

/-- The wait, where it is armed, is for the frame at the front of the buffer, and began
behind its header. -/
def Anchors (d : FrameDecoder) : Prop :=
  ∀ total, d.waitTotal = some total → looksValid d.buf ∧ total = claimed d.buf ∧
    headerLen ≤ d.waitStartLen ∧ d.waitStartLen ≤ d.buf.length

/-- How `feed` leaves the decoder when it returns: short of a header and not waiting, or
waiting, not for too long, for a plausible frame whose header is at the front. -/
def Settled (d : FrameDecoder) : Prop :=
  (d.buf.length < headerLen ∧ d.waitTotal = none) ∨
    headerLen ≤ d.buf.length ∧ looksValid d.buf ∧ d.waitTotal = some (claimed d.buf) ∧
      claimed d.buf ≤ maxPlausibleFrame ∧
      d.waitStartLen ≤ d.buf.length ∧ d.buf.length < claimed d.buf ∧
      d.buf.length - d.waitStartLen ≤ resyncLimit

section Wait

variable {aes : AesEcb} {key : Option Bytes} {d d' : FrameDecoder} {item : Option Frame}
  {e : WireError} {chunks : List Bytes}

/-- Without a wait there is nothing to anchor. -/
theorem anchors_of_none (h : d.waitTotal = none) : Anchors d := by
  intro total htotal
  rw [h] at htotal
  cases htotal

/-- The anchor stays where it is when more comes in. -/
theorem Anchors.push (h : Anchors d) (data : Bytes) : Anchors (d.push data) := by
  intro total htotal
  obtain ⟨hvalid, rfl, hmin, hle⟩ := h total htotal
  have hlen : headerLen ≤ d.buf.length := hmin.trans hle
  refine ⟨(looksValid_append hlen data).mpr hvalid, (claimed_append hlen data).symm, hmin, ?_⟩
  show d.waitStartLen ≤ (d.buf ++ data).length
  rw [List.length_append]
  exact Nat.le_add_right_of_le hle

/-- Waiting for the frame at the front leaves an anchor behind its header. -/
theorem Anchors.anchorWait (h : Anchors d) (hlen : headerLen ≤ d.buf.length) (total : ℕ) :
    (d.anchorWait total).waitTotal = some total ∧ headerLen ≤ (d.anchorWait total).waitStartLen ∧
      (d.anchorWait total).waitStartLen ≤ d.buf.length := by
  unfold FrameDecoder.anchorWait
  split
  · exact ⟨rfl, hlen, le_rfl⟩
  · rename_i hset
    rw [not_not] at hset
    obtain ⟨-, -, hmin, hle⟩ := h _ hset
    exact ⟨hset, hmin, hle⟩

/-- **Where a pass returns, the wait is settled.** -/
theorem Anchors.done (h : Anchors d) (hpass : d.pass aes = .done d') :
    Anchors d' ∧ Settled d' := by
  obtain ⟨hfront, rfl⟩ | ⟨total, hfront, rfl, hle⟩ := pass_done_cases hpass
  · have hlen : d'.buf.length < headerLen := by
      by_contra hlen
      unfold front at hfront
      rw [if_neg hlen] at hfront
      split at hfront
      · cases hfront
      split at hfront
      · cases hfront
      split at hfront
      · cases hfront
      split at hfront <;> cases hfront
    refine ⟨h, .inl ⟨hlen, ?_⟩⟩
    cases htotal : d'.waitTotal with
    | none => rfl
    | some total =>
        obtain ⟨-, -, hmin, hle⟩ := h total htotal
        omega
  · obtain ⟨hlen, hvalid, hlt, rfl⟩ := front_cut_iff.mp hfront
    obtain ⟨htotal, hmin, hle'⟩ := h.anchorWait hlen (claimed d.buf)
    constructor
    · intro total ht
      rw [htotal] at ht
      rw [anchorWait_buf]
      exact ⟨hvalid, (Option.some.inj ht).symm, hmin, hle'⟩
    · right
      rw [anchorWait_buf]
      exact ⟨hlen, hvalid, htotal, (claimed_bounds hvalid).2, hle', hlt, hle⟩

/-- **What a call of `feed` does to the wait**: it leaves it settled when it returns, and
disarmed when it raises. -/
theorem Anchors.feed (h : Anchors d) (data : Bytes) :
    Anchors (d.feed aes data).1 ∧
      (∀ frames, (d.feed aes data).2 = .ok frames → Settled (d.feed aes data).1) := by
  obtain ⟨ps, d₁, htakes, d₂, hend⟩ := loop_takes aes (d.push data) []
  have hanchors : Anchors d₁ := by
    refine htakes.invariant (I := fun _ => Anchors) ?_ [] (h.push data)
    intro past c c' p item _ hturn _
    exact anchors_of_none (pass_again_front (reader_take_iff.mp hturn)).2.1
  have hfeed : d.feed aes data = loop aes (d.push data) [] := rfl
  rw [hfeed]
  obtain ⟨hpass, hloop⟩ | ⟨e, hpass, hloop⟩ := hend
  · rw [hloop]
    exact ⟨(hanchors.done hpass).1, fun _ _ => (hanchors.done hpass).2⟩
  · rw [hloop]
    refine ⟨anchors_of_none (pass_raised_front hpass).2.1, ?_⟩
    intro frames hok
    cases hok

/-- `feed` keeps the key. -/
theorem feed_key (d : FrameDecoder) (data : Bytes) : (d.feed aes data).1.key = d.key := by
  obtain ⟨ps, d₁, htakes, d₂, hend⟩ := loop_takes aes (d.push data) []
  have hkey : d₁.key = d.key := by
    refine htakes.invariant (I := fun _ c => c.key = d.key) ?_ [] rfl
    intro past c c' p item hI hturn _
    exact (pass_again_front (reader_take_iff.mp hturn)).1.trans hI
  have hfeed : d.feed aes data = loop aes (d.push data) [] := rfl
  rw [hfeed]
  obtain ⟨hpass, hloop⟩ | ⟨e, hpass, hloop⟩ := hend
  · rw [hloop, ← hkey]
    obtain ⟨-, rfl⟩ | ⟨total, -, rfl, -⟩ := pass_done_cases hpass
    · rfl
    · exact anchorWait_key _ _
  · rw [hloop, ← hkey]
    exact (pass_raised_front hpass).1

/-- **What `feed` raises.** -/
theorem feed_error_cls (hkey : ∀ k ∈ d.key, k.length = 16) {data : Bytes}
    (h : (d.feed aes data).2 = .error e) :
    e.cls = .frameDecodeError ∨ e.cls = .encryptionRequired := by
  obtain ⟨ps, d₁, d₂, htakes, hturn⟩ := feed_error (Prod.ext rfl h)
  have hkey₁ : d₁.key = d.key := by
    refine htakes.invariant (I := fun _ c => c.key = d.key) ?_ [] rfl
    intro past c c' p item hI hturn _
    exact (pass_again_front (reader_take_iff.mp hturn)).1.trans hI
  obtain ⟨-, -, ⟨rfl, -⟩ | hfront⟩ := pass_raised_front (reader_fail_iff.mp hturn)
  · exact .inl rfl
  · rw [hkey₁] at hfront
    exact .inr (front_fatal_cls hkey hfront)

/-- A new decoder is settled. -/
theorem settled_fresh (key : Option Bytes) : Settled (fresh key) :=
  .inl ⟨by simp, rfl⟩

/-- A settled decoder holds less than a plausible frame. -/
theorem Settled.length_lt (h : Settled d) : d.buf.length < maxPlausibleFrame := by
  obtain ⟨hlt, -⟩ | ⟨-, -, -, hmax, -, hlt, -⟩ := h
  · exact hlt.trans (by decide)
  · exact lt_of_lt_of_le hlt hmax

/-- A run that ends waiting leaves the decoder settled. -/
theorem settled_of_runs {ps : List (Piece UInt8 Frame)} (hruns : Runs (reader aes) d chunks ps d')
    (hanchors : Anchors d) (hsettled : Settled d) : Settled d' := by
  induction hruns with
  | nil d => exact hsettled
  | cons htakes hwait _ ih =>
      have hbefore := htakes.invariant (I := fun _ => Anchors)
        (fun _ _ _ _ _ _ hturn _ =>
          anchors_of_none (pass_again_front (reader_take_iff.mp hturn)).2.1)
        [] (hanchors.push _)
      have hafter := hbefore.done (reader_wait_iff.mp hwait)
      exact ih hafter.1 hafter.2

/-- **The only exceptions** of `feed` are the two that the read loop catches. -/
theorem feedAll_error_cls (chunks : List Bytes) : ∀ d : FrameDecoder,
    (∀ k ∈ d.key, k.length = 16) → ∀ r ∈ (feedAll aes d chunks).2, ∀ e, r = .error e →
      e.cls = .frameDecodeError ∨ e.cls = .encryptionRequired := by
  induction chunks with
  | nil =>
      intro d _ r hr
      cases hr
  | cons x xs ih =>
      intro d hkey r hr e he
      obtain rfl | hr := List.mem_cons.mp hr
      · exact feed_error_cls hkey he
      · have hkey' : ∀ k ∈ (d.feed aes x).1.key, k.length = 16 := by
          rw [feed_key]
          exact hkey
        exact ih _ hkey' r hr e he

/-- After a call that returns, the decoder is settled. -/
theorem feedAll_settled (chunks : List Bytes) : ∀ d : FrameDecoder, Anchors d →
    ∀ frames, (feedAll aes d chunks).2.getLast? = some (.ok frames) →
      Settled (feedAll aes d chunks).1 := by
  induction chunks with
  | nil =>
      intro d _ frames hlast
      cases hlast
  | cons x xs ih =>
      intro d hanchors frames hlast
      have hfeed : Anchors (d.feed aes x).1 ∧ _ := hanchors.feed x
      cases xs with
      | nil => exact hfeed.2 frames (Option.some.inj hlast)
      | cons y ys =>
          apply ih _ hfeed.1 frames
          rw [← hlast]
          exact (List.getLast?_cons_cons).symm

/-- What was dropped since the last frame is one byte for each piece. -/
theorem length_symbols_sinceFrame {ps : List (Piece UInt8 Frame)} (h : Ledger aes key ps d) :
    (symbols (sinceFrame ps)).length = d.dropped := by
  have hone : ∀ p ∈ sinceFrame ps, (List.length ∘ Piece.symbols) p = 1 := by
    intro p hp
    obtain ⟨hmem, hnone⟩ := mem_sinceFrame hp
    obtain ⟨-, hlen⟩ | ⟨f, hf, -⟩ := h.pieces p hmem
    · exact hlen
    · rw [hf] at hnone
      cases hnone
  rw [← h.last]
  unfold symbols
  rw [List.length_flatten, List.map_map, List.map_congr_left hone, List.map_const',
    List.sum_replicate, smul_eq_mul, mul_one]

/-- A decoder that has not raised has dropped no more than the limit. -/
theorem Ledger.dropped_le {ps : List (Piece UInt8 Frame)} (h : Ledger aes key ps d) :
    d.dropped ≤ resyncLimit := by
  rw [← h.last]
  exact h.gaps _ (List.rtakeWhile_suffix _ ps).isInfix fun p hp => (mem_sinceFrame hp).2

/-- The bytes that may follow the last frame while nothing is raised. -/
theorem length_since_le {ps : List (Piece UInt8 Frame)}
    (hruns : Runs (reader aes) (fresh key) chunks ps d) :
    (symbols (sinceFrame ps) ++ d.buf).length ≤ resyncLimit + maxPlausibleFrame - 1 := by
  have hledger := Ledger.runs hruns
  have hbuf := (settled_of_runs hruns (anchors_of_none rfl) (settled_fresh key)).length_lt
  have hdropped := hledger.dropped_le
  rw [List.length_append, length_symbols_sinceFrame hledger]
  simp only [resyncLimit, maxPlausibleFrame] at *
  omega

/-- **No wedge, bounded memory, narrow failures.** A call of `feed` raises nothing but
`FrameDecodeError` and `EncryptionRequired`, and when it returns the wait is settled. As long
as nothing has been raised, the bytes behind the last frame are bounded; so a stream that
gives no frame raises within that bound. -/
theorem feed_no_wedge (aes : AesEcb) (key : Option Bytes) (hkey : ∀ k ∈ key, k.length = 16)
    (chunks : List Bytes) :
    (∀ r ∈ (feedAll aes (fresh key) chunks).2, ∀ e, r = .error e →
      e.cls = .frameDecodeError ∨ e.cls = .encryptionRequired) ∧
    (∀ frames, (feedAll aes (fresh key) chunks).2.getLast? = some (.ok frames) →
      Settled (feedAll aes (fresh key) chunks).1) ∧
    ((feedUntil aes (fresh key) chunks).raised = none →
      ∃ ps, Runs (reader aes) (fresh key) chunks ps (feedUntil aes (fresh key) chunks).decoder ∧
        items ps = (feedUntil aes (fresh key) chunks).frames ∧
        (symbols (sinceFrame ps) ++ (feedUntil aes (fresh key) chunks).decoder.buf).length ≤
          resyncLimit + maxPlausibleFrame - 1) ∧
    ((feedUntil aes (fresh key) chunks).frames = [] →
      resyncLimit + maxPlausibleFrame - 1 < chunks.flatten.length →
      (feedUntil aes (fresh key) chunks).raised.isSome) := by
  refine ⟨feedAll_error_cls chunks _ hkey, feedAll_settled chunks _ (anchors_of_none rfl), ?_, ?_⟩
  · intro hnone
    obtain ⟨ps, hruns, hitems⟩ := feedUntil_none hnone
    exact ⟨ps, hruns, hitems, length_since_le hruns⟩
  · intro hframes hlong
    by_contra hraised
    rw [Option.not_isSome_iff_eq_none] at hraised
    obtain ⟨ps, hruns, hitems⟩ := feedUntil_none hraised
    have hall : sinceFrame ps = ps := by
      rw [hframes] at hitems
      apply List.rtakeWhile_eq_self_iff.mpr
      intro p hp
      rw [Option.isNone_iff_eq_none]
      exact List.filterMap_eq_nil_iff.mp hitems p hp
    have hle := length_since_le hruns
    have hheld := hruns.held
    rw [hall] at hle
    have hfed : chunks.flatten = symbols ps ++ (feedUntil aes (fresh key) chunks).decoder.buf :=
      hheld
    rw [hfed] at hlong
    omega

end Wait

/-- `pollFrame` on the wire under `pollKey`, as `tests/test_encryption.py` has it. -/
def sealedPoll : Bytes :=
  [0x1f, 0x00, 0x45, 0x02, 0x01, 0xab, 0x2a, 0xe9, 0xa1, 0xe8, 0x03, 0x00, 0x00, 0xe9, 0x03, 0x00,
    0x00, 0x28, 0x9b, 0x21, 0x3c, 0xf9, 0xf1, 0xd7, 0x28, 0x05, 0xd9, 0x09, 0x00, 0xcf, 0x74, 0x40,
    0x13]

/-- That frame and the first half of another one. -/
def twoChunks : List Bytes := [sealedPoll, sealedPoll.take 16]

/-- The law for a decoder with a key that is fed these chunks. -/
theorem feed_no_wedge_poll :
    (∀ r ∈ (feedAll pollAes (fresh (some pollKey)) twoChunks).2, ∀ e, r = .error e →
      e.cls = .frameDecodeError ∨ e.cls = .encryptionRequired) ∧
    (∀ frames, (feedAll pollAes (fresh (some pollKey)) twoChunks).2.getLast? = some (.ok frames) →
      Settled (feedAll pollAes (fresh (some pollKey)) twoChunks).1) ∧
    ((feedUntil pollAes (fresh (some pollKey)) twoChunks).raised = none →
      ∃ ps, Runs (reader pollAes) (fresh (some pollKey)) twoChunks ps
          (feedUntil pollAes (fresh (some pollKey)) twoChunks).decoder ∧
        items ps = (feedUntil pollAes (fresh (some pollKey)) twoChunks).frames ∧
        (symbols (sinceFrame ps) ++
          (feedUntil pollAes (fresh (some pollKey)) twoChunks).decoder.buf).length ≤
          resyncLimit + maxPlausibleFrame - 1) ∧
    ((feedUntil pollAes (fresh (some pollKey)) twoChunks).frames = [] →
      resyncLimit + maxPlausibleFrame - 1 < twoChunks.flatten.length →
      (feedUntil pollAes (fresh (some pollKey)) twoChunks).raised.isSome) :=
  feed_no_wedge pollAes (some pollKey) (by rintro k ⟨⟩; rfl) twoChunks

end FrameDecoder

end Spcedp.Wire
