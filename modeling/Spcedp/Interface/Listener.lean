import Spcedp.Interface.Link
import Spcedp.Interface.Panel
import Spcedp.Model.Listener

/-!
# What a step of the application does

One case for each thing that can happen (`Does`, `step_does`). What the application makes of a
reply, and of an event, changes its panel and its stage only (`Answered`, `Received`).
-/

set_option autoImplicit false

namespace Spcedp

open Spcedp.PyText Spcedp.Xmlcmd Spcedp.Events Spcedp.Client

/-- The loop has begun, and goes on. -/
def Stage.Listening : Stage → Prop
  | looping | calling (.job (.reconcile _ _)) | awaiting (.job (.reconcile _ _)) _ => True
  | _ => False

instance : (stage : Stage) → Decidable stage.Listening
  | .looping => .isTrue trivial
  | .calling (.job (.reconcile _ _)) | .awaiting (.job (.reconcile _ _)) _ => .isTrue trivial
  | .starting | .ended _ | .calling .info | .awaiting .info _ | .calling (.job .refreshAreas)
  | .awaiting (.job .refreshAreas) _ | .calling (.job .refreshZones)
  | .awaiting (.job .refreshZones) _ => .isFalse id

/-- The snapshot is still being read. -/
def Stage.Early : Stage → Prop
  | starting | calling .info | awaiting .info _ | calling (.job .refreshAreas)
  | awaiting (.job .refreshAreas) _ | calling (.job .refreshZones)
  | awaiting (.job .refreshZones) _ => True
  | _ => False

namespace Listener

/-- The application when the generator has come to `st`. -/
def follow (l : Listener) (st : Stream) : Listener := { l with
  link := { l.link with handler := l.link.handler.setSess st.sess }
  generator := st.generator
  yielded := st.yielded }

/-! ## What the application makes of a reply, and of an event -/

/-- After a reply the application is over, waits for its next command, or is in its loop. -/
inductive Answered (l : Listener) (reply : XmlReply) : Query → Listener → Prop
  | info : Answered l reply .info { l with
      info := .ofReply reply
      stage := .calling (.job .refreshAreas) }
  | areas {panel} : l.panel.refreshAreas reply = .ok panel →
      Answered l reply (.job .refreshAreas) { l with
        panel := panel
        stage := .calling (.job .refreshZones) }
  | zones {panel} : l.panel.refreshZones reply = .ok panel →
      Answered l reply (.job .refreshZones) { l with
        panel := panel
        stage := .looping
        generator := .fresh }
  | reconciled {ev areaIds panel} : panel.zones = l.panel.zones →
      Answered l reply (.job (.reconcile ev areaIds)) { l with panel := panel, stage := .looping }
  | raised {q panel} : Answered l reply q { l with panel := panel, stage := .ended .raised }

/-- What the application makes of a reply. -/
theorem answered_cases (l : Listener) (q : Query) (reply : XmlReply) :
    Answered l reply q (l.answered q reply) := by
  unfold answered
  cases q with
  | info => exact .info
  | job j =>
      cases j with
      | refreshAreas =>
          dsimp only
          split
          · rename_i panel hpanel
            exact .areas hpanel
          · exact .raised
      | refreshZones =>
          dsimp only
          split
          · rename_i panel hpanel
            exact .zones hpanel
          · exact .raised
      | reconcile ev areaIds =>
          dsimp only
          split
          · rename_i panel update hpanel
            refine .reconciled ?_
            have hzones := congrArg (fun p => p.1.zones) hpanel
            dsimp only at hzones
            rw [← hzones, Panel.reconcileAreas_eq]
            split
            · rename_i p' hrefresh
              exact (Panel.refreshAreas_lookup hrefresh).1
            · rfl
          · exact .raised

/-- After an event the application is over, waits for a command, or has applied it. -/
inductive Received (l : Listener) (ev : SiaEvent) : Listener → Prop
  | needs : NeedsAreaStatus (upper ev.siaCode) → Received l ev { l with
      stage := .calling (.job (.reconcile ev l.panel.areaIds)) }
  | applied {panel update} : l.panel.applyEvent ev = .ok (panel, update) →
      Received l ev { l with panel := panel }
  | raised : Received l ev { l with stage := .ended .raised }

/-- What the application makes of an event. -/
theorem receive_cases (l : Listener) (ev : SiaEvent) : Received l ev (l.receive ev) := by
  unfold receive
  split
  · rename_i hneeds
    exact .needs hneeds
  · split
    · rename_i panel update hpanel
      exact .applied hpanel
    · exact .raised

/-- After a step of the generator the application has received an event, is over, or goes on
waiting. -/
inductive Turned (l : Listener) (st : Stream) : Listener → Prop
  | received {ev rest l'} : st.yielded.drop l.yielded.length = ev :: rest →
      Received (l.follow st) ev l' → Turned l st l'
  | returned : st.yielded.drop l.yielded.length = [] → st.generator = .finished .returned →
      Turned l st { l.follow st with stage := .ended .returned }
  | cancelled : st.yielded.drop l.yielded.length = [] → st.generator = .finished .cancelled →
      Turned l st { l.follow st with stage := .ended .cancelled }
  | waits : st.yielded.drop l.yielded.length = [] → st.generator ≠ .finished .returned →
      st.generator ≠ .finished .cancelled → Turned l st (l.follow st)

/-- What the application makes of a step of its generator. -/
theorem turn_cases (l : Listener) (st : Stream) : Turned l st (l.turn st) := by
  unfold turn
  dsimp only
  split
  · rename_i ev rest hnew
    exact .received hnew (receive_cases (l.follow st) ev)
  · rename_i hnew
    split
    · rename_i hgen
      exact .returned hnew hgen
    · rename_i hgen
      exact .cancelled hnew hgen
    · rename_i hreturned hcancelled
      exact .waits hnew hreturned hcancelled

/-! ## Steps -/

/-- What a step does. -/
inductive Does (server : PanelServer) (env : Env) (l : Listener) : ListenerAction → Listener → Prop
  | linked {a link} : l.link.step server env a = some link →
      Does server env l (.link a) { l with link := link }
  | ready : l.stage = .starting → Does server env l .ready { l with stage := .calling .info }
  | refused : l.stage = .starting → l.sess.closed = true →
      Does server env l .ready { l with stage := .ended .raised }
  | cancelled : l.stage = .starting →
      Does server env l .cancel { l with stage := .ended .cancelled }
  | called {t q link} : l.stage = .calling q →
      l.link.step server env (.handler (.app (.call t q.command))) = some link →
      Does server env l (.call t) { l with link := link, stage := .awaiting q t }
  | replied {q t reply l'} : l.stage = .awaiting q t →
      (l.link.handler.conn.world.tasks t).pc = .finished (.reply reply) →
      Answered l reply q l' → Does server env l .settled l'
  | failed {q t o e} : l.stage = .awaiting q t →
      (l.link.handler.conn.world.tasks t).pc = .finished o → (∀ reply, o ≠ .reply reply) →
      Does server env l .settled { l with stage := .ended e }
  | next {a st l'} : l.stage = .looping → a.FromLoop = true → l.stream.step a = some st →
      Turned l st l' → Does server env l (.next a) l'

variable {server : PanelServer} {env : Env} {l l' : Listener} {a : ListenerAction}

/-- **Every step is one of these.** -/
theorem step_does (hstep : l.step server env a = some l') : Does server env l a l' := by
  cases a with
  | link a =>
      have hlinked (h : (l.link.step server env a).map (fun link => { l with link := link }) =
          some l') : Does server env l (.link a) l' := by
        obtain ⟨link, hlink, rfl⟩ := Option.map_eq_some_iff.mp h
        exact .linked hlink
      unfold step at hstep
      split at hstep
      · rename_i e heq
        cases heq
        split at hstep
        · exact hlinked hstep
        · cases hstep
      · rename_i a' _ heq
        cases heq
        exact hlinked hstep
      all_goals rename_i heq; cases heq
  | ready =>
      simp only [step] at hstep
      split at hstep
      · rename_i hstage
        split at hstep
        · cases hstep
        split at hstep
        · cases hstep
          exact .ready hstage
        split at hstep
        · rename_i hclosed
          cases hstep
          exact .refused hstage hclosed
        · cases hstep
      · cases hstep
  | cancel =>
      simp only [step] at hstep
      split at hstep
      · rename_i hstage
        split at hstep
        · cases hstep
        · cases hstep
          exact .cancelled hstage
      · cases hstep
  | call t =>
      simp only [step] at hstep
      split at hstep
      · rename_i q hstage
        obtain ⟨link, hlink, rfl⟩ := Option.map_eq_some_iff.mp hstep
        exact .called hstage hlink
      · cases hstep
  | settled =>
      simp only [step] at hstep
      split at hstep
      · rename_i q t hstage
        split at hstep
        · rename_i reply hpc
          cases hstep
          exact .replied hstage hpc (answered_cases l q reply)
        · rename_i hpc
          cases hstep
          exact .failed hstage hpc nofun
        · rename_i o hnot _ hpc
          cases hstep
          exact .failed hstage hpc fun reply heq => hnot reply heq
        · cases hstep
      · cases hstep
  | next a =>
      simp only [step] at hstep
      split at hstep
      · rename_i hstage
        split at hstep
        · rename_i ha
          obtain ⟨st, hst, rfl⟩ := Option.map_eq_some_iff.mp hstep
          exact .next hstage ha hst (turn_cases l st)
        · cases hstep
      · cases hstep

end Listener

end Spcedp
