import Spcedp.Analysis.Handler
import Spcedp.Analysis.TheoremEvents
import Spcedp.Model.Consumers

/-!
# Consumers at a connection

A consumer of the event stream takes events off the queue of the session, and may put one back; it
touches nothing else (`step_aside`). The tasks of the connection do not see the events
(`orderly_withEvents`), so any number of consumers may run beside them (`Consumers.step_cases`).
-/

set_option autoImplicit false

namespace Spcedp.Client

open Lib.Transition Spcedp.Events

/-! ## Events aside -/

/-- Another queue of events. -/
def Session.withEvents (s : Session) (events : List SiaEvent) : Session :=
  { s with events := events }

section Aside

variable {env : Env} {server : PanelServer}

/-- **A step of the generator** takes events off the queue. -/
theorem step_aside {st st' : Stream} {a : StreamAction} (ha : a.FromConsumer = true)
    (hstep : st.step a = some st') : st'.sess = st.sess.withEvents st'.sess.events ∧
      st'.emitted = st.emitted ∧ ∃ new, st'.yielded = st.yielded ++ new ∧ new.length ≤ 1 := by
  have hsame {st' : Stream} (hsess : st'.sess = st.sess) (hemitted : st'.emitted = st.emitted)
      (hyielded : st'.yielded = st.yielded) : st'.sess = st.sess.withEvents st'.sess.events ∧
        st'.emitted = st.emitted ∧ ∃ new, st'.yielded = st.yielded ++ new ∧ new.length ≤ 1 :=
    ⟨by rw [hsess]; rfl, hemitted, [], by rw [hyielded, List.append_nil], Nat.zero_le 1⟩
  have hdrain : st.drain.sess = st.sess.withEvents st.drain.sess.events ∧
      st.drain.emitted = st.emitted ∧
        ∃ new, st.drain.yielded = st.yielded ++ new ∧ new.length ≤ 1 := by
    unfold Stream.drain
    split
    · exact hsame rfl rfl rfl
    · rename_i event rest hevents
      exact ⟨rfl, rfl, [event], rfl, le_rfl⟩
  cases Stream.step_turn hstep with
  | opened => exact hsame rfl rfl rfl
  | called => exact hsame rfl rfl rfl
  | ended => exact hsame rfl rfl rfl
  | drainedOn => exact hdrain
  | drained => exact hdrain
  | woken => exact hsame rfl rfl rfl
  | @thrown getTask closedTask hgen =>
      refine ⟨?_, rfl, [], (List.append_nil _).symm, Nat.zero_le 1⟩
      dsimp only
      unfold Stream.requeueCompletedGet
      cases getTask <;> rfl
  | yields => exact ⟨rfl, rfl, _, rfl, le_rfl⟩
  | cancelledWait => exact hsame rfl rfl rfl
  | cancelledGather => exact hsame rfl rfl rfl
  | aclosed => exact hsame rfl rfl rfl
  | got => exact ⟨rfl, rfl, [], (List.append_nil _).symm, Nat.zero_le 1⟩
  | gotNothing => exact hsame rfl rfl rfl
  | sawClosed => exact hsame rfl rfl rfl
  | sawNothing => exact hsame rfl rfl rfl
  | emits => cases ha
  | closes => cases ha

/-- **A consumer keeps the queue within its bound**, also where it puts an event back. -/
theorem step_events {st st' : Stream} {a : StreamAction} (ha : a.FromConsumer = true)
    (hstep : st.step a = some st') (hle : st.sess.events.length ≤ eventQueueMaxsize) :
    st'.sess.events.length ≤ eventQueueMaxsize := by
  have hdrain : st.drain.sess.events.length ≤ eventQueueMaxsize := by
    unfold Stream.drain
    split
    · exact hle
    · rename_i event rest hevents
      rw [hevents, List.length_cons] at hle
      dsimp only
      omega
  cases Stream.step_turn hstep with
  | drainedOn => exact hdrain
  | drained => exact hdrain
  | @thrown getTask closedTask hgen =>
      dsimp only
      unfold Stream.requeueCompletedGet
      cases getTask with
      | pending => exact hle
      | cancelled => exact hle
      | done event => exact (List.length_take_le _ _)
  | got _ hevents =>
      rw [hevents, List.length_cons] at hle
      dsimp only
      omega
  | emits => cases ha
  | closes => cases ha
  | _ => exact hle

/-- An iterator that has just yielded goes on. -/
theorem step_goesOn {st st' : Stream} {a : StreamAction} (hstep : st.step a = some st')
    (hyielded : st'.yielded ≠ st.yielded) : st'.generator ≠ .finished .returned := by
  have hdrain (h : st.drain.yielded ≠ st.yielded) :
      st.drain.generator ≠ .finished .returned := by
    unfold Stream.drain at h ⊢
    split at h
    · exact absurd rfl h
    · exact nofun
  cases Stream.step_turn hstep with
  | drainedOn => exact hdrain hyielded
  | drained => exact hdrain hyielded
  | yields => exact nofun
  | _ => exact absurd rfl hyielded

/-- The handler with another queue of events. -/
def Handler.withEvents (h : Handler) (events : List SiaEvent) : Handler :=
  h.setSess (h.sess.withEvents events)

/-- The tasks of the session do not depend on the events. -/
theorem inv_withEvents {w : World} (hinv : Inv w) (events : List SiaEvent) :
    Inv { w with sess := w.sess.withEvents events } :=
  inv_settles hinv (SameMaps.settles ⟨rfl, fun k => by cases k <;> rfl⟩ rfl)
    fun _ => ⟨rfl, rfl, rfl⟩

/-- Nor do the acknowledgements. -/
theorem sound_withEvents {c : Connection} (h : Sound env server c) (events : List SiaEvent) :
    Sound env server { c with
      world := { c.world with sess := c.world.sess.withEvents events } } where
  inv := inv_withEvents h.inv events
  receiverId := h.receiverId
  key := h.key
  idle := h.idle
  before := h.before
  behind := h.behind
  started := h.started
  discipline := h.discipline

/-- Nor do the tasks around the read loop. -/
theorem orderly_withEvents {h : Handler} (ho : Handler.Orderly env server h)
    (events : List SiaEvent) : Handler.Orderly env server (h.withEvents events) where
  conn := sound_withEvents ho.conn events
  reading := ho.reading
  down hout := by
    obtain ⟨hclosed, hreq, hempty⟩ := ho.down hout
    exact ⟨hclosed, hreq, fun c => by rw [← hempty c]; cases c <;> rfl⟩
  writerRuns := ho.writerRuns
  writerStops := ho.writerStops
  writerCancelled := ho.writerCancelled
  writerEnded := ho.writerEnded
  sessionNew := ho.sessionNew
  sessionRaised := ho.sessionRaised
  joining := ho.joining
  finished := ho.finished

end Aside

/-! ## Steps -/

namespace Consumers

variable {env : Env} {server : PanelServer} {c c' : Consumers} {a : ConsumersAction}

/-- **Every step** is one of the connection, or leaves it another queue of events, within the
bound if it was. -/
theorem step_cases (hstep : c.step server env a = some c') :
    (∃ b, c.handler.step server env b = some c'.handler) ∨
      ∃ events, c'.handler = c.handler.withEvents events ∧
        (c.handler.sess.events.length ≤ eventQueueMaxsize →
          events.length ≤ eventQueueMaxsize) := by
  cases a with
  | handler b =>
      obtain ⟨h, hh, rfl⟩ := Option.map_eq_some_iff.mp hstep
      exact .inl ⟨b, hh⟩
  | generator i b =>
      simp only [step] at hstep
      split at hstep
      · rename_i hb
        obtain ⟨st, hst, rfl⟩ := Option.map_eq_some_iff.mp hstep
        obtain ⟨hsess, -⟩ := step_aside hb hst
        refine .inr ⟨st.sess.events, ?_, step_events hb hst⟩
        show c.handler.setSess st.sess = _
        rw [hsess]
        rfl
      · cases hstep

/-- A connection that nobody reads events from is one with consumers. -/
theorem reachable_of_handler {now : ℚ} {h : Handler}
    (hreach : Reachable (Handler.step server env) (server.accept now) h) :
    Reachable (Consumers.step server env) (server.consumers now) { handler := h } := by
  refine hreach.invariant (I := fun h => Reachable (Consumers.step server env)
    (server.consumers now) { handler := h }) ?_ .refl
  intro h a h' hc hstep
  refine hc.snoc (a := .handler a) ?_
  show (h.step server env a).map _ = _
  rw [hstep]
  rfl

end Consumers

end Spcedp.Client
