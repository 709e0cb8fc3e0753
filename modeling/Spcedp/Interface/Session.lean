import Spcedp.Interface.Layout
import Spcedp.Model.Session

/-!
# What the calls on a session do

One equation or case lemma for each method; the analysis does not unfold them again.
`dispatch` has four ends (`dispatch_cases`): a reply completes a future, a frame is
acknowledged, its acknowledgement cannot be encoded, or nothing happens.
-/

set_option autoImplicit false

namespace Spcedp.Client

open Lib.FairLock Lib.LittleEndian Spcedp.Wire Spcedp.Events

/-! ## Futures and dictionaries -/

section Futures

variable {futures : List Future} {n m : ℕ} {outcome : FutureState} {r : Future}

/-- Completing a future adds none. -/
@[simp] theorem length_complete : (complete futures n outcome).length = futures.length :=
  List.length_modify _ _ _

/-- Completing a future leaves the others alone. -/
theorem complete_getElem? : (complete futures n outcome)[m]? =
    futures[m]?.map fun r =>
      if m = n ∧ r.state = .pending then { r with state := outcome } else r := by
  unfold complete
  rw [List.getElem?_modify]
  by_cases h : n = m
  · subst h
    simp
  · simp [h, Ne.symm h]

/-- The futures that a loop over `values` fails. -/
theorem foldl_complete (values : List ℕ) (e : SpcError) :
    (values.foldl (fun fs n => complete fs n (.failed e)) futures)[m]? =
      futures[m]?.map fun r =>
        if m ∈ values ∧ r.state = .pending then { r with state := .failed e } else r := by
  induction values generalizing futures with
  | nil => simp
  | cons n values ih =>
      rw [List.foldl_cons, ih, complete_getElem?, Option.map_map]
      congr 1
      funext r
      by_cases hm : m = n <;> by_cases hr : r.state = .pending <;> simp [hm, hr]

/-- A future is among the values of a dictionary that maps some number to it. -/
theorem mem_values_iff {pending : Pending} :
    n ∈ pending.values ↔ ∃ q, pending.lookup q = some n := by
  unfold Pending.values
  rw [List.mem_map]
  constructor
  · rintro ⟨⟨q, v⟩, hmem, rfl⟩
    exact ⟨q, AList.mem_lookup_iff.mpr hmem⟩
  · rintro ⟨q, hq⟩
    exact ⟨⟨q, n⟩, AList.mem_lookup_iff.mp hq, rfl⟩

/-- A dictionary that maps nothing is empty. -/
theorem eq_empty_of_lookup {pending : Pending} (h : ∀ q n, pending.lookup q ≠ some n) :
    pending = ∅ := by
  apply AList.ext
  rw [AList.empty_entries, List.eq_nil_iff_forall_not_mem]
  rintro ⟨q, n⟩ hmem
  exact h q n (AList.mem_lookup_iff.mpr hmem)

end Futures

namespace Session

variable {aes : AesEcb} {s s' : Session} {f : Frame} {c : Channel}

/-- A dictionary that is set is the one that was set. -/
@[simp] theorem pendingOf_setPending (pending : Pending) :
    (s.setPending c pending).pendingOf c = pending := by
  cases c <;> rfl

/-- The other dictionary is not touched. -/
theorem pendingOf_setPending_ne {c' : Channel} (hne : c' ≠ c) (pending : Pending) :
    (s.setPending c pending).pendingOf c' = s.pendingOf c' := by
  cases c <;> cases c' <;> first | rfl | exact absurd rfl hne

/-- Setting a dictionary leaves the counter. -/
@[simp] theorem setPending_nextSeq (pending : Pending) :
    (s.setPending c pending).nextSeq = s.nextSeq := by
  cases c <;> rfl

/-! ## Fail pending -/

/-- Every pending future of either dictionary fails. -/
theorem failPending_futures (e : SpcError) (n : ℕ) : (s.failPending e).futures[n]? =
    s.futures[n]?.map fun r =>
      if (n ∈ s.pendingXml.values ∨ n ∈ s.pendingBin.values) ∧ r.state = .pending then
        { r with state := .failed e }
      else r := by
  unfold failPending failAll
  rw [foldl_complete, foldl_complete, Option.map_map]
  congr 1
  funext r
  rw [Function.comp_apply]
  by_cases hx : n ∈ s.pendingXml.values <;> by_cases hr : r.state = .pending <;> simp [hx, hr]

/-- Failing the pending requests leaves nothing pending. -/
@[simp] theorem failPending_pendingOf (e : SpcError) (c : Channel) :
    (s.failPending e).pendingOf c = ∅ := by
  cases c <;> rfl

/-! ## Sending -/

/-- **A frame is queued, or a full queue tears the session down.** -/
theorem send_cases (h : s.send aes f = .ok s') :
    ∃ data f', f.encode aes s.key = .ok (data, f') ∧
      (writeQueueMaxsize ≤ s.writeQueue.length ∧ s' = s.requestTeardown ∨
        s.writeQueue.length < writeQueueMaxsize ∧ ∃ warned, s' = { s with
          writeQueue := s.writeQueue ++ [data]
          log := s.log ++ [.queued f' data s.closed s.commandLock.inside]
          writeWarned := warned }) := by
  unfold send at h
  cases henc : f.encode aes s.key with
  | error e =>
      rw [henc] at h
      cases h
  | ok p =>
      obtain ⟨data, f'⟩ := p
      rw [henc] at h
      refine ⟨data, f', rfl, ?_⟩
      simp only [bind, Except.bind, pure, Except.pure] at h
      split at h
      · rename_i hfull
        exact .inl ⟨hfull, (Except.ok.inj h).symm⟩
      · rename_i hroom
        rw [ge_iff_le, not_le] at hroom
        refine .inr ⟨hroom, ?_⟩
        split at h
        · exact ⟨true, (Except.ok.inj h).symm⟩
        · exact ⟨false, (Except.ok.inj h).symm⟩

/-- `send` raises only what `encode` raises. -/
theorem send_error {e : WireError} (h : s.send aes f = .error e) :
    f.encode aes s.key = .error e := by
  unfold send at h
  cases henc : f.encode aes s.key with
  | error e' =>
      rw [henc] at h
      cases h
      rfl
  | ok p =>
      rw [henc] at h
      simp only [bind, Except.bind, pure, Except.pure] at h
      split at h
      · cases h
      · split at h <;> cases h

/-! ## Dispatch -/

/-- The session once a frame is received, before anything else is done about it. -/
def received (s : Session) (now : ℚ) (f : Frame) : Session :=
  { s with
    lastReceived := now
    nextSeq := max s.nextSeq f.sequence
    log := s.log ++ [.dispatched f] }

end Session

/-- Is `f` a reply to a request of channel `c`? -/
def IsReply (c : Channel) (f : Frame) : Prop := f.major = c.major ∧ f.minor = c.replyMinor

instance (c : Channel) (f : Frame) : Decidable (IsReply c f) := by unfold IsReply; infer_instance

/-- The minor code of the acknowledgement of a frame, for those that get one. -/
def ackMinor (f : Frame) : Option MinorCode :=
  if f.major = MajorCode.session.value then
    if f.minor = MinorCode.poll.value then some .pollAck
    else if f.minor = MinorCode.hello.value then some .helloAck
    else none
  else if f.major = MajorCode.event.value ∧ f.minor = MinorCode.eventPush.value then
    some .eventAck
  else none

/-- A reply is not acknowledged. -/
theorem ackMinor_of_isReply {c : Channel} {f : Frame} (h : IsReply c f) : ackMinor f = none := by
  unfold IsReply at h
  unfold ackMinor
  cases c <;> simp [Channel.major] at h <;> simp [h.1]

namespace Session

variable {aes : AesEcb} {s s' : Session} {f : Frame} {c : Channel} {now : ℚ}

/-- Emitting an event changes the stream only. -/
theorem emitEvent_eq (s : Session) (event : SiaEvent) :
    s.emitEvent event = { s with events := (s.emitEvent event).events } := by
  unfold emitEvent
  split <;> rfl

/-- A dispatched reply is looked up and its future completed. -/
theorem dispatch_reply (h : IsReply c f) :
    s.dispatch aes now f = ((s.received now f).dispatchReply c f, none) := by
  unfold dispatch
  dsimp only
  cases c with
  | xml =>
      have hxml : f.major = MajorCode.xmlCmd.value ∧ f.minor = MinorCode.reply.value := h
      rw [if_pos hxml]
      rfl
  | bin =>
      have hbin : f.major = MajorCode.binaryCmd.value ∧ f.minor = MinorCode.binaryReply.value := h
      rw [if_neg, if_pos hbin]
      · rfl
      · simp [hbin.1]

/-- **The ends of `dispatch`.** An acknowledged frame that leaves `ready` clear is no poll. -/
theorem dispatch_cases (aes : AesEcb) (s : Session) (now : ℚ) (f : Frame) :
    (∃ c, IsReply c f ∧ s.dispatch aes now f = ((s.received now f).dispatchReply c f, none)) ∨
    (∃ m s₁, ackMinor f = some m ∧ (s.received now f).replyEcho aes f m.value = .ok s₁ ∧
      ∃ polls ready events, (ready = false → s₁.ready = false ∧ polls = s₁.pollCount) ∧
        s.dispatch aes now f =
          ({ s₁ with pollCount := polls, ready := ready, events := events }, none)) ∨
    (∃ m e, ackMinor f = some m ∧ (s.received now f).replyEcho aes f m.value = .error e ∧
      s.dispatch aes now f = (s.received now f, some e)) ∨
    ((∀ c, ¬IsReply c f) ∧ ackMinor f = none ∧
      s.dispatch aes now f = (s.received now f, none)) := by
  by_cases hx : IsReply .xml f
  · exact .inl ⟨.xml, hx, dispatch_reply hx⟩
  by_cases hb : IsReply .bin f
  · exact .inl ⟨.bin, hb, dispatch_reply hb⟩
  right
  have hnone : ∀ c, ¬IsReply c f := by
    intro c
    cases c
    · exact hx
    · exact hb
  generalize hd : s.dispatch aes now f = d
  -- the acknowledged kinds differ in what they do after the echo
  have hack (m : MinorCode) (hm : ackMinor f = some m)
      (hok : ∀ s₁, (s.received now f).replyEcho aes f m.value = .ok s₁ →
        ∃ polls ready events, (ready = false → s₁.ready = false ∧ polls = s₁.pollCount) ∧
          d = ({ s₁ with pollCount := polls, ready := ready, events := events }, none))
      (herror : ∀ e, (s.received now f).replyEcho aes f m.value = .error e →
        d = (s.received now f, some e)) :
      (∃ m s₁, ackMinor f = some m ∧ (s.received now f).replyEcho aes f m.value = .ok s₁ ∧
        ∃ polls ready events, (ready = false → s₁.ready = false ∧ polls = s₁.pollCount) ∧
          d = ({ s₁ with pollCount := polls, ready := ready, events := events }, none)) ∨
      (∃ m e, ackMinor f = some m ∧ (s.received now f).replyEcho aes f m.value = .error e ∧
        d = (s.received now f, some e)) := by
    cases hecho : (s.received now f).replyEcho aes f m.value with
    | ok s₁ => exact .inl ⟨m, s₁, hm, hecho, hok s₁ hecho⟩
    | error e => exact .inr ⟨m, e, hm, hecho, herror e hecho⟩
  unfold dispatch at hd
  dsimp only at hd
  have hreceived : { s with
      lastReceived := now
      nextSeq := max s.nextSeq f.sequence
      log := s.log ++ [.dispatched f] } = s.received now f := rfl
  rw [hreceived] at hd
  have hx' : ¬(f.major = MajorCode.xmlCmd.value ∧ f.minor = MinorCode.reply.value) := hx
  have hb' : ¬(f.major = MajorCode.binaryCmd.value ∧ f.minor = MinorCode.binaryReply.value) := hb
  rw [if_neg hx', if_neg hb'] at hd
  split at hd
  · rename_i hmajor
    split at hd
    · rename_i hminor
      have hm : ackMinor f = some .pollAck := by unfold ackMinor; rw [if_pos hmajor, if_pos hminor]
      refine Or.imp_right Or.inl <| hack .pollAck hm
        (fun s₁ hecho => ⟨s₁.pollCount + 1, true, s₁.events, by simp, ?_⟩) fun e hecho => ?_
      · rw [hecho] at hd
        exact hd.symm
      · rw [hecho] at hd
        exact hd.symm
    · rename_i hpoll
      split at hd
      · rename_i hminor
        have hm : ackMinor f = some .helloAck := by
          unfold ackMinor
          rw [if_pos hmajor, if_neg hpoll, if_pos hminor]
        refine Or.imp_right Or.inl <| hack .helloAck hm
          (fun s₁ hecho => ⟨s₁.pollCount, s₁.ready, s₁.events, fun h => ⟨h, rfl⟩, ?_⟩)
          fun e hecho => ?_
        · rw [hecho] at hd
          exact hd.symm
        · rw [hecho] at hd
          exact hd.symm
      · rename_i hminor
        have hm : ackMinor f = none := by
          unfold ackMinor
          rw [if_pos hmajor, if_neg hpoll, if_neg hminor]
        exact .inr (.inr ⟨hnone, hm, hd.symm⟩)
  · rename_i hmajor
    split at hd
    · rename_i hevent
      have hm : ackMinor f = some .eventAck := by
        unfold ackMinor
        rw [if_neg hmajor, if_pos hevent]
      refine Or.imp_right Or.inl <| hack .eventAck hm (fun s₁ hecho => ?_) fun e hecho => ?_
      · rw [hecho] at hd
        dsimp only at hd
        cases hparse : SiaEvent.parseBytes f.payload with
        | ok event =>
            rw [hparse] at hd
            refine ⟨s₁.pollCount, s₁.ready, (s₁.emitEvent event).events, fun h => ⟨h, rfl⟩, ?_⟩
            rw [← emitEvent_eq]
            exact hd.symm
        | error e =>
            rw [hparse] at hd
            exact ⟨s₁.pollCount, s₁.ready, s₁.events, fun h => ⟨h, rfl⟩, hd.symm⟩
      · rw [hecho] at hd
        exact hd.symm
    · rename_i hevent
      have hm : ackMinor f = none := by
        unfold ackMinor
        rw [if_neg hmajor, if_neg hevent]
      exact .inr (.inr ⟨hnone, hm, hd.symm⟩)

/-- `next_seq` follows the largest number received. -/
theorem dispatch_nextSeq (aes : AesEcb) (s : Session) (now : ℚ) (f : Frame) :
    (s.dispatch aes now f).1.nextSeq = max s.nextSeq f.sequence := by
  obtain ⟨c, -, h⟩ | ⟨m, s₁, -, hecho, polls, ready, events, -, h⟩ | ⟨m, e, -, -, h⟩ | ⟨-, -, h⟩ :=
    dispatch_cases aes s now f
  · rw [h]
    unfold dispatchReply
    split
    · exact setPending_nextSeq _
    · rfl
  · rw [h]
    obtain ⟨data, f', -, ⟨-, rfl⟩ | ⟨-, warned, rfl⟩⟩ := send_cases hecho
    · rfl
    · rfl
  · rw [h]
    rfl
  · rw [h]
    rfl

end Session

end Spcedp.Client
