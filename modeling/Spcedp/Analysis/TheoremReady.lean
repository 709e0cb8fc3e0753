import Spcedp.Analysis.History
import Spcedp.Model.WaitReady

/-!
# No lost wake-up in `wait_ready`

The number of polls and the flag `closed` decide how a call of `wait_ready` goes on, and every
step that changes one of them leaves the event `ready` set (`step_unnoticed`). So the calls may
clear the event under each other: one that still sleeps would sleep again.
-/

set_option autoImplicit false

namespace Spcedp.Client

open Lib.Event Lib.Transition Spcedp.Wire Spcedp.Events

/-- Where the event is clear afterwards, it was clear, and nothing has happened that
`wait_ready` waits for. -/
def Unnoticed (s s' : Session) : Prop :=
  s'.ready = false → s.ready = false ∧ s'.pollCount = s.pollCount ∧ s'.closed = s.closed

/-! ## What sets the event -/

section

variable {env : Env} {s s' s'' : Session} {w w' : World} {a : Action}

/-- Sessions that agree in the three fields. -/
theorem unnoticed_of_eq (hready : s'.ready = s.ready) (hpolls : s'.pollCount = s.pollCount)
    (hclosed : s'.closed = s.closed) : Unnoticed s s' := by
  intro h
  exact ⟨hready ▸ h, hpolls, hclosed⟩

/-- Two steps that no waiter has to notice. -/
theorem Unnoticed.trans (h : Unnoticed s s') (h' : Unnoticed s' s'') : Unnoticed s s'' := by
  intro hclear
  obtain ⟨hready', hpolls', hclosed'⟩ := h' hclear
  obtain ⟨hready, hpolls, hclosed⟩ := h hready'
  exact ⟨hready, hpolls'.trans hpolls, hclosed'.trans hclosed⟩

/-- Teardown sets the event. -/
theorem unnoticed_requestTeardown : Unnoticed s s'.requestTeardown := by
  intro h
  cases h

/-- Queueing a frame is nothing that a waiter has to notice. -/
theorem unnoticed_send {aes : AesEcb} {f : Frame} (h : s.send aes f = .ok s') :
    Unnoticed s s' := by
  obtain ⟨data, f', -, ⟨-, rfl⟩ | ⟨-, warned, rfl⟩⟩ := Session.send_cases h
  · exact unnoticed_requestTeardown
  · exact unnoticed_of_eq rfl rfl rfl

/-- Nor is the reply to a command. -/
theorem unnoticed_dispatchReply (c : Channel) (f : Frame) :
    Unnoticed s (s.dispatchReply c f) := by
  unfold Session.dispatchReply
  split
  · cases c <;> exact unnoticed_of_eq rfl rfl rfl
  · exact unnoticed_of_eq rfl rfl rfl

/-- A dispatched poll sets the event, and no other frame counts. -/
theorem unnoticed_dispatch (aes : AesEcb) (now : ℚ) (f : Frame) :
    Unnoticed s (s.dispatch aes now f).1 := by
  have hreceived : Unnoticed s (s.received now f) := unnoticed_of_eq rfl rfl rfl
  obtain ⟨c, -, h⟩ | ⟨m, s₁, -, hecho, polls, ready, events, hnew, h⟩ | ⟨m, e, -, -, h⟩ |
    ⟨-, -, h⟩ := Session.dispatch_cases aes s now f
  · rw [h]
    exact hreceived.trans (unnoticed_dispatchReply c f)
  · rw [h]
    apply (hreceived.trans (unnoticed_send hecho)).trans
    intro hclear
    obtain ⟨hbefore, hpolls⟩ := hnew hclear
    exact ⟨hbefore, hpolls, rfl⟩
  · rw [h]
    exact hreceived
  · rw [h]
    exact hreceived

/-- A command may tear the session down by what it sends, which sets the event. -/
theorem unnoticed_ends {now : ℚ} {r : Request} {given : Option Bytes} {pc : Pc}
    {last last' : Option (Frame × ℕ)} (h : Ends env now s r given last s' pc last') :
    Unnoticed s s' := by
  have hregistered : Unnoticed s (s.registered r.channel) := by
    obtain ⟨nextSeq, xml, bin, futures, heq⟩ := registered_session s r.channel
    rw [heq]
    exact unnoticed_of_eq rfl rfl rfl
  cases h with
  | stopped => exact unnoticed_of_eq rfl rfl rfl
  | asleep => exact unnoticed_of_eq rfl rfl rfl
  | unbuilt => exact unnoticed_of_eq rfl rfl rfl
  | unencoded => exact hregistered
  | sent _ hsend => exact hregistered.trans (unnoticed_send hsend)

/-- **What `wait_ready` waits for does not happen unnoticed.** -/
theorem step_unnoticed (h : w.step env a = some w') : Unnoticed w.sess w'.sess := by
  cases step_change h with
  | @segment a t r s given seg hruns hseg =>
      obtain ⟨lock, hsettle⟩ := settle_session w t seg
      obtain ⟨-, lock', pendingXml, pendingBin, rfl⟩ := runs_session hruns
      have hstart : Unnoticed w.sess { w.sess with
          commandLock := lock', pendingXml := pendingXml, pendingBin := pendingBin } :=
        unnoticed_of_eq rfl rfl rfl
      rw [hsettle]
      exact (hstart.trans (unnoticed_ends hseg.ends)).trans (unnoticed_of_eq rfl rfl rfl)
  | refused => exact unnoticed_of_eq rfl rfl rfl
  | enqueued => exact unnoticed_of_eq rfl rfl rfl
  | gaveUp => exact unnoticed_of_eq rfl rfl rfl
  | interrupted =>
      dsimp only
      unfold World.interrupt
      split
      · exact unnoticed_of_eq rfl rfl rfl
      · exact unnoticed_of_eq rfl rfl rfl
      · exact unnoticed_of_eq rfl rfl rfl
  | dispatched => exact unnoticed_dispatch _ _ _
  | ticked => exact unnoticed_of_eq rfl rfl rfl
  | failed => exact unnoticed_of_eq rfl rfl rfl
  | closing => exact unnoticed_requestTeardown
  | tornDown => exact unnoticed_requestTeardown
  | wrote => exact unnoticed_of_eq rfl rfl rfl

/-! ## The calls -/

/-- **Every step of the session** that a waiter has to notice sets the event. -/
theorem announced_waitReady (env : Env) : Announced waitReady (World.step env) where
  isSet_clear := fun _ => rfl
  head_clear := fun _ _ => rfl
  quiet := by
    intro w a w' hstep hclear
    obtain ⟨hready, hpolls, hclosed⟩ := step_unnoticed hstep hclear
    refine ⟨hready, fun minPolls => ?_⟩
    unfold waitReady Session.checkReady
    dsimp only
    rw [hpolls, hclosed]

/-- A call waits while polls are missing and the session is open. -/
theorem checkReady_eq_none_iff {minPolls : ℤ} :
    s.checkReady minPolls = none ↔ (s.pollCount : ℤ) < minPolls ∧ s.closed = false := by
  unfold Session.checkReady
  split
  · rename_i hlt
    cases s.closed <;> simp [hlt]
  · rename_i hge
    simp [hge]

/-- `wait_ready` returns when there are polls enough. -/
theorem checkReady_eq_returned_iff {minPolls : ℤ} :
    s.checkReady minPolls = some .returned ↔ minPolls ≤ s.pollCount := by
  unfold Session.checkReady
  split
  · rename_i hlt
    cases s.closed <;> simp [hlt]
  · rename_i hge
    simpa using hge

/-- `wait_ready` raises when the session is closed before. -/
theorem checkReady_eq_connectionLost_iff {minPolls : ℤ} :
    s.checkReady minPolls = some .connectionLost ↔
      s.closed = true ∧ (s.pollCount : ℤ) < minPolls := by
  unfold Session.checkReady
  split
  · rename_i hlt
    cases s.closed <;> simp [hlt]
  · rename_i hge
    simp [hge]

end

namespace ReadyWorld

variable {env : Env} {sys : ReadyWorld}

/-- The worlds that can come up, whatever the calls and the session do. -/
def Occurs (env : Env) (sys : ReadyWorld) : Prop :=
  ∃ panelId receiverId key now, Reachable (step env) (new panelId receiverId key now) sys

/-- Whoever is asleep has reason to be, in every world that occurs. -/
theorem blocked_occurs (h : sys.Occurs env) : Blocked waitReady sys := by
  obtain ⟨panelId, receiverId, key, now, hreach⟩ := h
  exact blocked_reachable (announced_waitReady env) hreach

/-- **No wake-up is lost, and `wait_ready` ends as it should.** Whatever polls, teardowns,
cancellations and other calls come in between: a call that sleeps with no wake-up scheduled
still waits for polls of an open session; a call that returns has seen its polls, and one that
raises `SpcConnectionLost` has missed some on a closed session. -/
theorem waitReady_spec (env : Env) (sys : ReadyWorld) (h : sys.Occurs env) :
    (∀ t minPolls, sys.calls t = .waiting minPolls .pending →
      (sys.state.sess.pollCount : ℤ) < minPolls ∧ sys.state.sess.closed = false) ∧
    ∀ a sys' t minPolls o, sys.step env a = some sys' →
      sys.calls t ≠ .ended minPolls (some o) → sys'.calls t = .ended minPolls (some o) →
      (o = .returned → minPolls ≤ sys'.state.sess.pollCount) ∧
      (o = .connectionLost →
        sys'.state.sess.closed = true ∧ (sys'.state.sess.pollCount : ℤ) < minPolls) := by
  refine ⟨fun t minPolls hcall => ?_, fun a sys' t minPolls o hstep hbefore hafter => ?_⟩
  · obtain ⟨-, hnone⟩ := blocked_occurs h t minPolls hcall
    exact checkReady_eq_none_iff.mp hnone
  · obtain ⟨hstate, hhead⟩ := head_of_ended hstep hbefore hafter
    rw [hstate]
    refine ⟨?_, ?_⟩
    · rintro rfl
      exact checkReady_eq_returned_iff.mp hhead
    · rintro rfl
      exact checkReady_eq_connectionLost_iff.mp hhead

/-- A poll of the panel. -/
def poll : Frame where
  srcId := 1000
  dstId := 1001
  sequence := 1
  major := MajorCode.session.value
  minor := MinorCode.poll.value

/-- Two calls wait, for one poll and for two. The poll schedules both; the second one runs
first, and clears the event before the first one has looked. -/
def overlapping : List ReadyAction :=
  [.call 0 1, .call 1 2, .other (.dispatch poll), .resume 1]

/-- The first call returns all the same, and the second one waits for another poll. -/
theorem waitReady_spec_overlapping : ∃ sys sys' : ReadyWorld,
    run (step clearEnv) (new 1000 1001 none 1) overlapping = some sys ∧
    sys.step clearEnv (.resume 0) = some sys' ∧
    (sys.calls 1 = .waiting 2 .pending ∧
      (sys.state.sess.pollCount : ℤ) < 2 ∧ sys.state.sess.closed = false) ∧
    sys'.calls 0 = .ended 1 (some .returned) ∧ (1 : ℤ) ≤ sys'.state.sess.pollCount := by
  have hobs : (run (step clearEnv) (new 1000 1001 none 1) overlapping).map (fun sys =>
      (sys.calls 0, sys.calls 1)) = some (.waiting 1 .woken, .waiting 2 .pending) := by
    decide +kernel
  have hobs' : (run (step clearEnv) (new 1000 1001 none 1) (overlapping ++ [.resume 0])).map
      (fun sys => sys.calls 0) = some (.ended 1 (some .returned)) := by
    decide +kernel
  obtain ⟨sys', hrun', hended⟩ := Option.map_eq_some_iff.mp hobs'
  obtain ⟨sys, hrun, hstep⟩ := run_snoc_iff.mp hrun'
  rw [hrun, Option.map_some, Option.some.injEq, Prod.mk.injEq] at hobs
  obtain ⟨hwaiting, hends⟩ := waitReady_spec clearEnv sys ⟨1000, 1001, none, 1, overlapping, hrun⟩
  refine ⟨sys, sys', hrun, hstep, ⟨hobs.2, hwaiting 1 2 hobs.2⟩, hended, ?_⟩
  apply (hends _ _ 0 1 .returned hstep ?_ hended).1 rfl
  rw [hobs.1]
  simp

end ReadyWorld

end Spcedp.Client
