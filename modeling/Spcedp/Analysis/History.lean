import Spcedp.Analysis.Codec
import Spcedp.Analysis.Commands

/-!
# What a step adds to the history

Every step adds nothing, the time that passed, a request, or a dispatched frame with or
without its acknowledgement (`Records`, `step_records`).
-/

set_option autoImplicit false

namespace Spcedp.Client

open Lib.FairLock Lib.Transition Spcedp.Wire

/-! ## What stays -/

/-- The addresses and the key stay, and what is closed stays closed. -/
structure Kept (s s' : Session) : Prop where
  panelId : s'.panelId = s.panelId
  receiverId : s'.receiverId = s.receiverId
  key : s'.key = s.key
  closed : s.closed = true → s'.closed = true
  teardownRequested : s.teardownRequested = true → s'.teardownRequested = true

/-- A session keeps what it has. -/
theorem Kept.refl (s : Session) : Kept s s := ⟨rfl, rfl, rfl, id, id⟩

/-- What has not been told to close had not been before. -/
theorem Kept.wasOpen {s s' : Session} (h : Kept s s') (hopen : s'.teardownRequested = false) :
    s.teardownRequested = false := by
  cases hreq : s.teardownRequested with
  | false => rfl
  | true =>
      rw [h.teardownRequested hreq] at hopen
      cases hopen

/-- The bytes of the frames queued. -/
def queuedData (log : List Entry) : List Bytes :=
  log.filterMap fun
    | .queued _ data _ _ => some data
    | _ => none

/-- The bytes queued by two parts of the history. -/
@[simp] theorem queuedData_append (log new : List Entry) :
    queuedData (log ++ new) = queuedData log ++ queuedData new := List.filterMap_append

/-- The acknowledgement of `f` with the minor code `m`. -/
def Session.ack (s : Session) (f : Frame) (m : MinorCode) : Frame :=
  s.frame f.major m.value f.payload f.sequence

/-- The frame is the request of a command. -/
def IsRequest (f : Frame) : Prop :=
  ∃ c : Channel, f.major = c.major ∧ f.minor = MinorCode.request.value

instance (f : Frame) : Decidable (IsRequest f) :=
  decidable_of_iff ((f.major = Channel.xml.major ∨ f.major = Channel.bin.major) ∧
    f.minor = MinorCode.request.value)
    ⟨fun h => h.1.elim (fun hx => ⟨.xml, hx, h.2⟩) fun hb => ⟨.bin, hb, h.2⟩,
      fun ⟨c, hc, hm⟩ => ⟨by cases c <;> simp [hc], hm⟩⟩

/-- What the step from `w` to `w'` adds. -/
inductive Records (env : Env) (w : World) : Action → World → List Entry → Prop
  | nothing {a w'} (hdispatch : ∀ f, a ≠ .dispatch f) (hnow : w'.now = w.now)
      (hlast : w'.sess.lastReceived = w.sess.lastReceived) : Records env w a w' []
  | ticked {d w'} (hnow : w'.now = w.now + d)
      (hlast : w'.sess.lastReceived = w.sess.lastReceived) : Records env w (.tick d) w' [.ticked d]
  | requested {a t c payload data g w'} (ha : a = .resume t ∨ ∃ cmd, a = .call t cmd)
      (hsend : Sendable w.now w.sess)
      (henc : (w.sess.request c payload).encode env.aes w.sess.key = .ok (data, g))
      (hnow : w'.now = w.now) (hlast : w'.sess.lastReceived = w.sess.lastReceived) :
      Records env w a w' [.queued g data false [t]]
  | received {f w'} (hnow : w'.now = w.now) (hlast : w'.sess.lastReceived = w.now)
      (hack : ∀ m, ackMinor f = some m →
        (∃ e, (w.sess.ack f m).encode env.aes w.sess.key = .error e) ∨
          w'.sess.teardownRequested = true)
      (hqueue : w'.sess.writeQueue = w.sess.writeQueue) :
      Records env w (.dispatch f) w' [.dispatched f]
  | acked {f m data g w'} (hm : ackMinor f = some m)
      (henc : (w.sess.ack f m).encode env.aes w.sess.key = .ok (data, g))
      (hnow : w'.now = w.now) (hlast : w'.sess.lastReceived = w.now)
      (hqueue : w'.sess.writeQueue = w.sess.writeQueue ++ [data]) :
      Records env w (.dispatch f) w'
        [.dispatched f, .queued g data w.sess.closed w.sess.commandLock.inside]

section Step

variable {env : Env} {w w' : World} {a : Action}

/-! ## Segments -/

/-- The session in which a segment starts. -/
theorem runs_session {t : ℕ} {r : Request} {s : Session} {given : Option Bytes}
    (h : Runs w a t r s given) : (a = .resume t ∨ ∃ cmd, a = .call t cmd) ∧
    ∃ lock pendingXml pendingBin, s = { w.sess with
      commandLock := lock, pendingXml := pendingXml, pendingBin := pendingBin } := by
  cases h with
  | called => exact ⟨.inr ⟨_, rfl⟩, _, w.sess.pendingXml, w.sess.pendingBin, rfl⟩
  | woken => exact ⟨.inl rfl, _, w.sess.pendingXml, w.sess.pendingBin, rfl⟩
  | slept => exact ⟨.inl rfl, w.sess.commandLock, w.sess.pendingXml, w.sess.pendingBin, rfl⟩
  | @answered t r n q =>
      refine ⟨.inl rfl, ?_⟩
      unfold Session.unregister Session.setPending
      cases r.channel with
      | xml => exact ⟨w.sess.commandLock, w.sess.pendingXml.erase q, w.sess.pendingBin, rfl⟩
      | bin => exact ⟨w.sess.commandLock, w.sess.pendingXml, w.sess.pendingBin.erase q, rfl⟩

/-- The session with a new future. -/
theorem registered_session (s : Session) (c : Channel) :
    ∃ nextSeq pendingXml pendingBin futures, s.registered c = { s with
      nextSeq := nextSeq
      pendingXml := pendingXml
      pendingBin := pendingBin
      futures := futures } := by
  cases c <;> exact ⟨_, _, _, _, rfl⟩

/-- Storing a segment may release the lock. -/
theorem settle_session (w : World) (t : ℕ) (seg : Segment) :
    ∃ lock, (w.settle t seg).sess = { seg.1 with commandLock := lock } := by
  obtain ⟨s, task⟩ := seg
  unfold World.settle
  dsimp only
  split
  · exact ⟨_, rfl⟩
  · exact ⟨s.commandLock, rfl⟩

/-- **What a segment adds**: a request, if it sends one. -/
theorem segment_records {t : ℕ} {r : Request} {s : Session} {given : Option Bytes} {seg : Segment}
    (hinv : Inv w) (hruns : Runs w a t r s given)
    (hseg : SegmentEnd env w.now s r given (w.tasks t).lastRequest seg) :
    Kept w.sess (w.settle t seg).sess ∧ ∃ new,
      (w.settle t seg).sess.log = w.sess.log ++ new ∧ Records env w a (w.settle t seg) new := by
  obtain ⟨lock, hsettle⟩ := settle_session w t seg
  have hinside := (runs_inside hinv hruns).lock.inside_eq (runs_inside hinv hruns).self
  obtain ⟨ha, lock', pendingXml, pendingBin, rfl⟩ := runs_session hruns
  have hdispatch : ∀ f, a ≠ .dispatch f := by
    rintro f rfl
    obtain h | ⟨cmd, h⟩ := ha <;> cases h
  have hnow : (w.settle t seg).now = w.now := rfl
  -- a segment that sends nothing leaves the history as it is
  have hsilent (hkept : Kept w.sess seg.1) (hlog : seg.1.log = w.sess.log)
      (hlast : seg.1.lastReceived = w.sess.lastReceived) :
      Kept w.sess (w.settle t seg).sess ∧ ∃ new,
        (w.settle t seg).sess.log = w.sess.log ++ new ∧ Records env w a (w.settle t seg) new := by
    rw [hsettle]
    refine ⟨⟨hkept.1, hkept.2, hkept.3, hkept.4, hkept.5⟩, [], by rw [List.append_nil]; exact hlog,
      .nothing hdispatch hnow ?_⟩
    rw [hsettle]
    exact hlast
  obtain ⟨-, hends⟩ := hseg
  generalize hs' : seg.1 = s' at hends hsilent hsettle
  generalize seg.2.pc = pc at hends
  generalize seg.2.lastRequest = last' at hends
  cases hends with
  | stopped => exact hsilent ⟨rfl, rfl, rfl, id, id⟩ rfl rfl
  | asleep => exact hsilent ⟨rfl, rfl, rfl, id, id⟩ rfl rfl
  | unbuilt => exact hsilent ⟨rfl, rfl, rfl, id, id⟩ rfl rfl
  | unencoded =>
      obtain ⟨nextSeq, xml, bin, futures, heq⟩ := registered_session { w.sess with
        commandLock := lock', pendingXml := pendingXml, pendingBin := pendingBin } r.channel
      rw [heq] at hsilent
      exact hsilent ⟨rfl, rfl, rfl, id, id⟩ rfl rfl
  | @sent _ payload _ hsend hres =>
      obtain ⟨nextSeq, xml, bin, futures, heq⟩ := registered_session { w.sess with
        commandLock := lock', pendingXml := pendingXml, pendingBin := pendingBin } r.channel
      rw [heq] at hres
      obtain ⟨data, g, henc, ⟨-, rfl⟩ | ⟨-, warned, rfl⟩⟩ := Session.send_cases hres
      · exact hsilent ⟨rfl, rfl, rfl, fun _ => rfl, fun _ => rfl⟩ rfl rfl
      · rw [hsettle]
        refine ⟨⟨rfl, rfl, rfl, id, id⟩, [.queued g data false [t]], ?_, ?_⟩
        · dsimp only at hinside ⊢
          rw [hinside, hsend.open_]
        · refine .requested ha ⟨hsend.open_, hsend.quiet⟩
            henc hnow ?_
          rw [hsettle]

/-! ## Dispatched frames -/

/-- **What a dispatched frame adds.** -/
theorem dispatch_records (env : Env) (w : World) (f : Frame) :
    Kept w.sess (w.sess.dispatch env.aes w.now f).1 ∧ ∃ new,
      (w.sess.dispatch env.aes w.now f).1.log = w.sess.log ++ new ∧
      Records env w (.dispatch f) { w with sess := (w.sess.dispatch env.aes w.now f).1 } new := by
  obtain ⟨c, hc, h⟩ | ⟨m, s₁, hm, hecho, polls, ready, events, -, h⟩ | ⟨m, e, hm, hecho, h⟩ |
    ⟨-, hm, h⟩ := Session.dispatch_cases env.aes w.sess w.now f
  · have hreply : ∃ pendingXml pendingBin futures,
        (w.sess.received w.now f).dispatchReply c f = { w.sess.received w.now f with
          pendingXml := pendingXml, pendingBin := pendingBin, futures := futures } := by
      unfold Session.dispatchReply
      split
      · cases c <;> exact ⟨_, _, _, rfl⟩
      · exact ⟨_, _, _, rfl⟩
    obtain ⟨xml, bin, futures, hreply⟩ := hreply
    rw [h, hreply]
    refine ⟨⟨rfl, rfl, rfl, id, id⟩, [.dispatched f], rfl, .received rfl rfl ?_ rfl⟩
    intro m hm
    rw [ackMinor_of_isReply hc] at hm
    cases hm
  · obtain ⟨data, g, henc, ⟨-, rfl⟩ | ⟨-, warned, rfl⟩⟩ := Session.send_cases hecho
    · rw [h]
      exact ⟨⟨rfl, rfl, rfl, fun _ => rfl, fun _ => rfl⟩, [.dispatched f], rfl,
        .received rfl rfl (fun _ _ => .inr rfl) rfl⟩
    · rw [h]
      refine ⟨⟨rfl, rfl, rfl, id, id⟩, [.dispatched f, .queued g data _ _], ?_,
        .acked hm henc rfl rfl rfl⟩
      exact List.append_assoc _ _ _
  · rw [h]
    refine ⟨⟨rfl, rfl, rfl, id, id⟩, [.dispatched f], rfl, .received rfl rfl ?_ rfl⟩
    intro m' hm'
    rw [hm, Option.some.injEq] at hm'
    subst hm'
    have henc := Session.send_error hecho
    exact .inl ⟨e, henc⟩
  · rw [h]
    refine ⟨⟨rfl, rfl, rfl, id, id⟩, [.dispatched f], rfl, .received rfl rfl ?_ rfl⟩
    intro m hm'
    rw [hm] at hm'
    cases hm'

/-! ## Steps -/

/-- **What a step adds.** -/
theorem step_records (hinv : Inv w) (hstep : w.step env a = some w') :
    Kept w.sess w'.sess ∧ ∃ new, w'.sess.log = w.sess.log ++ new ∧ Records env w a w' new := by
  have hnothing {a : Action} {w₁ : World} (hdispatch : ∀ f, a ≠ .dispatch f)
      (hkept : Kept w.sess w₁.sess) (hlog : w₁.sess.log = w.sess.log) (hnow : w₁.now = w.now)
      (hlast : w₁.sess.lastReceived = w.sess.lastReceived) :
      Kept w.sess w₁.sess ∧ ∃ new, w₁.sess.log = w.sess.log ++ new ∧ Records env w a w₁ new :=
    ⟨hkept, [], by rw [hlog, List.append_nil], .nothing hdispatch hnow hlast⟩
  cases step_change hstep with
  | segment hruns hseg => exact segment_records hinv hruns hseg
  | refused => exact hnothing nofun (.refl _) rfl rfl rfl
  | enqueued => exact hnothing nofun ⟨rfl, rfl, rfl, id, id⟩ rfl rfl rfl
  | gaveUp => exact hnothing nofun ⟨rfl, rfl, rfl, id, id⟩ rfl rfl rfl
  | @interrupted a t task ha =>
      have hinterrupt : ∃ lock futures,
          w.interrupt t = { w.sess with commandLock := lock, futures := futures } := by
        unfold World.interrupt
        split
        · exact ⟨_, w.sess.futures, rfl⟩
        · exact ⟨w.sess.commandLock, _, rfl⟩
        · exact ⟨w.sess.commandLock, w.sess.futures, rfl⟩
      obtain ⟨lock, futures, hsess⟩ := hinterrupt
      rw [hsess]
      refine hnothing ?_ ⟨rfl, rfl, rfl, id, id⟩ rfl rfl rfl
      rintro f rfl
      obtain h | h := ha <;> cases h
  | dispatched => exact dispatch_records env w _
  | @ticked d _ => exact ⟨⟨rfl, rfl, rfl, id, id⟩, [.ticked d], rfl, .ticked rfl rfl⟩
  | failed => exact hnothing nofun ⟨rfl, rfl, rfl, id, id⟩ rfl rfl rfl
  | closing =>
      exact hnothing nofun ⟨rfl, rfl, rfl, fun _ => rfl, fun _ => rfl⟩ rfl rfl rfl
  | tornDown =>
      exact hnothing nofun ⟨rfl, rfl, rfl, fun _ => rfl, fun _ => rfl⟩ rfl rfl rfl
  | wrote => exact hnothing nofun ⟨rfl, rfl, rfl, id, id⟩ rfl rfl rfl

/-! ## Requests -/

/-- Acknowledgements are not requests. -/
theorem ack_not_request {s : Session} {f g : Frame} {m : MinorCode} {data : Bytes}
    (hm : ackMinor f = some m) (henc : (s.ack f m).encode env.aes s.key = .ok (data, g)) :
    ¬IsRequest g := by
  rintro ⟨c, hmajor, -⟩
  rw [encode_ok_frame henc] at hmajor
  have hmajor : f.major = c.major := hmajor
  unfold ackMinor at hm
  cases c <;> simp [hmajor, Channel.major] at hm

/-- **A request is queued by a command that may send.** -/
theorem Records.request {new : List Entry} (hrec : Records env w a w' new) {g : Frame}
    {data : Bytes} {closed : Bool} {holders : List ℕ} (hmem : .queued g data closed holders ∈ new)
    (hreq : IsRequest g) : closed = false ∧ Sendable w.now w.sess ∧
      ∃ t, holders = [t] ∧ (a = .resume t ∨ ∃ cmd, a = .call t cmd) := by
  cases hrec with
  | nothing => simp at hmem
  | ticked => simp at hmem
  | @requested a t c payload data g w' ha hsend =>
      rw [List.mem_singleton, Entry.queued.injEq] at hmem
      obtain ⟨-, -, rfl, rfl⟩ := hmem
      exact ⟨rfl, hsend, t, rfl, ha⟩
  | received => simp at hmem
  | acked hm henc =>
      simp only [List.mem_cons, reduceCtorEq, Entry.queued.injEq, List.not_mem_nil, or_false,
        false_or] at hmem
      obtain ⟨rfl, -⟩ := hmem
      exact absurd hreq (ack_not_request hm henc)

end Step

end Spcedp.Client
