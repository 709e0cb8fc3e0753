import Spcedp.Analysis.Link
import Spcedp.Analysis.TheoremEvents
import Spcedp.Model.Listener

/-!
# The events that a connection emits

Every frame that pushes an event which can be parsed puts it on the stream, and nothing else does
(`Emits`, `link_emits`): its acknowledgement can always be encoded, since the frame came over
the wire.
-/

set_option autoImplicit false

namespace Spcedp

open Lib.Transition Spcedp.Events Spcedp.Wire Spcedp.Client
open scoped List

/-! ## The history -/

section History

variable {log new : List Entry}

/-- The events emitted by two parts of the history. -/
@[simp] theorem emittedEvents_append (log new : List Entry) :
    emittedEvents (log ++ new) = emittedEvents log ++ emittedEvents new := List.filterMap_append

/-- The events emitted are those of the frames dispatched. -/
theorem emittedEvents_eq (log : List Entry) :
    emittedEvents log = (dispatchedFrames log).filterMap pushedEvent := by
  unfold emittedEvents dispatchedFrames
  rw [List.filterMap_filterMap]
  congr 1
  funext e
  cases e <;> rfl

end History

/-! ## What is emitted -/

/-- From `s` to `s'` events are emitted, and the queue keeps those for which there is room. -/
def Emits (s s' : Session) : Prop :=
  ∃ new, emittedEvents s'.log = emittedEvents s.log ++ new ∧ s'.events <+ s.events ++ new ∧
    (s.events.length + new.length ≤ eventQueueMaxsize → s'.events = s.events ++ new)

section Emits

variable {s s' s'' : Session}

/-- Nothing is emitted while the queue and the events of the history are the same. -/
theorem emits_of_eq (hevents : s'.events = s.events)
    (hlog : emittedEvents s'.log = emittedEvents s.log) : Emits s s' :=
  ⟨[], by rw [hlog, List.append_nil], by rw [hevents, List.append_nil],
    fun _ => by rw [hevents, List.append_nil]⟩

/-- Nothing is emitted where nothing happens. -/
theorem Emits.refl (s : Session) : Emits s s := emits_of_eq rfl rfl

/-- What two steps emit is emitted in a row. -/
theorem Emits.trans (h : Emits s s') (h' : Emits s' s'') : Emits s s'' := by
  obtain ⟨new, hlog, hsub, hroom⟩ := h
  obtain ⟨new', hlog', hsub', hroom'⟩ := h'
  refine ⟨new ++ new', ?_, ?_, fun hle => ?_⟩
  · rw [hlog', hlog, List.append_assoc]
  · rw [← List.append_assoc]
    exact hsub'.trans (hsub.append_right new')
  · rw [List.length_append] at hle
    have hfirst := hroom (by omega)
    have hsecond := hroom' (by rw [hfirst, List.length_append]; omega)
    rw [hsecond, hfirst, List.append_assoc]

/-- One event. -/
theorem emits_event {event : SiaEvent} (hevents : s'.events = (s.emitEvent event).events)
    (hlog : emittedEvents s'.log = emittedEvents s.log ++ [event]) : Emits s s' := by
  obtain ⟨hsub, hroom⟩ := Client.Stream.emitEvent_events s event
  refine ⟨[event], hlog, hevents ▸ hsub, fun hle => ?_⟩
  rw [List.length_singleton] at hle
  rw [hevents, hroom (by omega)]

end Emits

/-! ## Steps of the session -/

section World

variable {env : Env} {w w' : World} {a : Action}

/-- A segment leaves the stream alone. -/
theorem ends_events {now : ℚ} {s s' : Session} {r : Request} {given : Option Bytes} {pc : Pc}
    {last last' : Option (Frame × ℕ)} (h : Ends env now s r given last s' pc last') :
    s'.events = s.events := by
  obtain ⟨nextSeq, xml, bin, futures, heq⟩ := registered_session s r.channel
  cases h with
  | stopped => rfl
  | asleep => rfl
  | unbuilt => rfl
  | unencoded => rw [heq]
  | sent _ hres =>
      rw [heq] at hres
      obtain ⟨data, g, -, ⟨-, rfl⟩ | ⟨-, warned, rfl⟩⟩ := Session.send_cases hres <;> rfl

/-- **Only dispatched frames emit events.** -/
theorem step_events (hinv : Inv w) (hstep : w.step env a = some w')
    (hdispatch : ∀ f, a ≠ .dispatch f) : Emits w.sess w'.sess := by
  apply emits_of_eq
  · cases step_change hstep with
    | @segment a t r s given seg hruns hseg =>
        obtain ⟨-, lock, xml, bin, rfl⟩ := runs_session hruns
        obtain ⟨lock', hsettle⟩ := settle_session w t seg
        rw [hsettle]
        exact (ends_events hseg.ends :)
    | interrupted =>
        dsimp only
        unfold World.interrupt
        split <;> rfl
    | dispatched => exact absurd rfl (hdispatch _)
    | _ => rfl
  · obtain ⟨-, new, hlog, hrec⟩ := step_records hinv hstep
    rw [hlog, emittedEvents_append]
    cases hrec with
    | received => exact absurd rfl (hdispatch _)
    | acked => exact absurd rfl (hdispatch _)
    | _ => exact List.append_nil _

/-- A frame that is echoed leaves the stream alone. -/
theorem replyEcho_events {aes : AesEcb} {s s' : Session} {f : Frame} {minor : ℤ}
    (h : s.replyEcho aes f minor = .ok s') : s'.events = s.events := by
  obtain ⟨data, g, -, ⟨-, rfl⟩ | ⟨-, warned, rfl⟩⟩ := Session.send_cases h <;> rfl

/-- **A dispatched frame emits the event that it pushes**, when it can be acknowledged. -/
theorem dispatch_events {aes : AesEcb} {s : Session} {now : ℚ} {f : Frame}
    (hack : ∀ m, ackMinor f = some m →
      ∃ s₁, (s.received now f).replyEcho aes f m.value = .ok s₁) :
    (s.dispatch aes now f).1.events =
      match pushedEvent f with
      | some event => (s.emitEvent event).events
      | none => s.events := by
  have hreceived : { s with
      lastReceived := now
      nextSeq := max s.nextSeq f.sequence
      log := s.log ++ [.dispatched f] } = s.received now f := rfl
  unfold Session.dispatch
  dsimp only
  rw [hreceived]
  by_cases hpush : f.major = MajorCode.event.value ∧ f.minor = MinorCode.eventPush.value
  · obtain ⟨s₁, hecho⟩ := hack .eventAck (by unfold ackMinor; rw [hpush.1]; simp [hpush])
    have hevents : s₁.events = s.events := (replyEcho_events hecho).trans rfl
    unfold pushedEvent
    rw [if_pos hpush, hpush.1, if_neg (by simp), if_neg (by simp), if_neg (by decide),
      if_pos ⟨rfl, hpush.2⟩, hecho]
    dsimp only
    cases SiaEvent.parseBytes f.payload with
    | ok event =>
        simp only [Except.toOption]
        unfold Session.emitEvent
        rw [hevents]
        split <;> rfl
    | error e => exact hevents
  · have hnone : pushedEvent f = none := if_neg hpush
    rw [hnone]
    have hreply (c : Channel) : ((s.received now f).dispatchReply c f).events = s.events := by
      unfold Session.dispatchReply
      split
      · cases c <;> rfl
      · rfl
    have hecho {m : MinorCode} {s₁ : Session}
        (h : (s.received now f).replyEcho aes f m.value = .ok s₁) : s₁.events = s.events :=
      (replyEcho_events h).trans rfl
    split
    · exact hreply .xml
    split
    · exact hreply .bin
    split
    · split
      · split
        · rename_i s₁ h
          exact (hecho h : s₁.events = s.events)
        · rfl
      · split
        · split
          · rename_i s₁ h
            exact (hecho h : s₁.events = s.events)
          · rfl
        · rfl
    · rfl

end World

/-! ## Steps of the connection -/

section Connection

variable {env : Env} {server : PanelServer} {c c' : Connection}

/-- **A frame off the wire** emits its event, if it has one. -/
theorem handleFrame_emits {f : Frame} (h : Sound env server c) (hf : FromWire f) :
    Emits c.world.sess (c.handleFrame server env f).world.sess := by
  obtain ⟨panelId, hpanelId, hmod, -⟩ := h.addressed hf
  set w₀ : World := { c.world with sess := { c.world.sess with panelId := panelId } } with hw₀
  have hack (m : MinorCode) (hm : ackMinor f = some m) :
      ∃ s₁, (w₀.sess.received w₀.now f).replyEcho env.aes f m.value = .ok s₁ := by
    have hkey : ∀ k ∈ w₀.sess.key, k.length = 16 := by
      rw [show w₀.sess.key = server.key.val from h.key]
      exact server.key.property
    obtain ⟨data, g, henc, -⟩ := ack_encode env hkey hmod hf hm
    cases hecho : (w₀.sess.received w₀.now f).replyEcho env.aes f m.value with
    | ok s₁ => exact ⟨s₁, rfl⟩
    | error e =>
        have herror := Session.send_error hecho
        have henc' : ((w₀.sess.received w₀.now f).ack f m).encode env.aes
            (w₀.sess.received w₀.now f).key = .ok (data, g) := henc
        cases henc'.symm.trans herror
  have hevents := dispatch_events hack
  obtain ⟨-, new, hlog, hrec⟩ := dispatch_records env w₀ f
  have hnew : emittedEvents new = (pushedEvent f).toList := by
    rw [emittedEvents_eq, hrec.dispatched.1, List.filterMap_cons]
    cases pushedEvent f <;> rfl
  have hdispatch : Emits c.world.sess (w₀.sess.dispatch env.aes w₀.now f).1 := by
    have hlog' : emittedEvents (w₀.sess.dispatch env.aes w₀.now f).1.log =
        emittedEvents c.world.sess.log ++ (pushedEvent f).toList := by
      rw [hlog, emittedEvents_append, hnew]
    cases hpush : pushedEvent f with
    | none =>
        rw [hpush] at hevents hlog'
        exact emits_of_eq hevents (hlog'.trans (List.append_nil _))
    | some event =>
        rw [hpush] at hevents hlog'
        refine emits_event (hevents.trans ?_) hlog'
        show (w₀.sess.emitEvent event).events = _
        unfold Session.emitEvent
        split <;> rfl
  unfold Connection.handleFrame
  rw [hpanelId]
  dsimp only
  split
  · refine hdispatch.trans (emits_of_eq rfl ?_)
    rw [emittedEvents_append]
    exact List.append_nil _
  · exact hdispatch

/-- A row of frames emits its events one after the other. -/
theorem foldl_handleFrame_emits {frames : List Frame} (h : Sound env server c)
    (hframes : ∀ f ∈ frames, FromWire f) :
    Emits c.world.sess (frames.foldl (Connection.handleFrame server env) c).world.sess := by
  induction frames generalizing c with
  | nil => exact .refl _
  | cons f frames ih =>
      have hf := hframes f List.mem_cons_self
      exact (handleFrame_emits h hf).trans
        (ih (sound_handleFrame h hf) fun g hg => hframes g (List.mem_cons_of_mem f hg))

/-- **A step of a connection** emits the events of the frames that it dispatches, and nothing else.
-/
theorem connection_emits {a : ConnectionAction} (h : Sound env server c)
    (hstep : c.step server env a = some c') : Emits c.world.sess c'.world.sess := by
  cases Connection.step_does hstep with
  | @chunk data =>
      obtain ⟨d, frames, hfeed, hread⟩ | ⟨d, hread⟩ := readChunk_cases server env c data
      · rw [hread]
        exact foldl_handleFrame_emits (h.congr rfl rfl rfl :
          Sound env server { c with decoder := d }) (FrameDecoder.feed_fromWire hfeed)
      · rw [hread]
        exact emits_of_eq rfl rfl
  | stopped => exact emits_of_eq rfl rfl
  | session hdispatch _ hw => exact step_events h.inv hw hdispatch

end Connection

/-! ## Steps of the handler, and of the link -/

/-- **A step of the handler** emits the events that are pushed in it. -/
theorem handler_emits {env : Env} {server : PanelServer} {h h' : Handler} {a : HandlerAction}
    (ho : Handler.Orderly env server h) (hstep : h.step server env a = some h') :
    Emits h.sess h'.sess := by
  obtain ⟨as, hrun⟩ := Handler.step_simulates ho hstep
  have hruns : ∀ as c, run (Connection.step server env) h.conn as = some c →
      Sound env server c ∧ Emits h.conn.world.sess c.world.sess := by
    refine run_induction ⟨ho.conn, .refl _⟩ ?_
    rintro as c a c' - ⟨hsound, hemits⟩ hstep
    exact ⟨sound_step hsound hstep, hemits.trans (connection_emits hsound hstep)⟩
  exact (hruns as h'.conn hrun).2

/-- **A step of the link** does so, too. -/
theorem link_emits {env : Env} {server : PanelServer} {l l' : Link} {a : LinkAction}
    (ho : Handler.Orderly env server l.handler) (hstep : l.step server env a = some l') :
    Emits l.handler.sess l'.handler.sess := by
  cases Link.step_does hstep with
  | arrived _ hh => exact handler_emits ho hh
  | handled _ hh => exact handler_emits ho hh
  | _ => exact .refl _

end Spcedp
