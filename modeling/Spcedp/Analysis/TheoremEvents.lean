import Spcedp.Lib.Transition
import Spcedp.Model.EventStream

/-!
# Delivery of events

An event that was emitted is yielded, held by a finished `Queue.get` that `__anext__` has
not read, or in the queue, in this order (`transit`). A step changes `transit` by what it
emits only, unless there are too many events for the queue (`step_transit`), and so the
consumer gets a subsequence of what is emitted, or all of it if it keeps up
(`events_delivered`).
-/

set_option autoImplicit false

namespace Spcedp.Client.Stream

open Lib.Transition Spcedp.Events Spcedp.PyText Spcedp.Wire
open scoped List

/-! ## What a step does -/

/-- The steps, one constructor for what each of them can do. -/
inductive Turn (st : Stream) : StreamAction → Stream → Prop
  | opened : ¬st.generator.Suspended → Turn st .events { st with generator := .fresh }
  | called : ¬st.generator.Suspended → Turn st .anext { st with
      generator := .suspended .wait (.pending false) (.pending false) false }
  | ended {a how} : st.generator = .finished how → Turn st a st
  | drainedOn : st.generator = .draining → Turn st .anext st.drain
  | drained {getTask closedTask} :
      st.generator = .suspended .gather getTask closedTask false → getTask.result? = none →
      Turn st .resume st.drain
  | woken {getTask closedTask c} : st.generator = .suspended .wait getTask closedTask c →
      c = true ∨ getTask.settled = true ∨ closedTask.settled = true →
      Turn st .resume { st with
        generator := .suspended .gather getTask.cancel closedTask.cancel c }
  | thrown {getTask closedTask} : st.generator = .suspended .gather getTask closedTask true →
      Turn st .resume { st with
        sess := requeueCompletedGet st.sess getTask
        generator := .finished .cancelled }
  | yields {event closedTask} :
      st.generator = .suspended .gather (.done event) closedTask false →
      Turn st .resume { st with generator := .atYield, yielded := st.yielded ++ [event] }
  | cancelledWait {getTask closedTask c} :
      st.generator = .suspended .wait getTask closedTask c →
      Turn st .cancel { st with generator := .suspended .wait getTask closedTask true }
  | cancelledGather {getTask closedTask c} :
      st.generator = .suspended .gather getTask closedTask c →
      Turn st .cancel { st with
        generator := .suspended .gather getTask.cancel closedTask.cancel true }
  | aclosed : ¬st.generator.Suspended →
      Turn st .aclose { st with generator := .finished .closed }
  | got {place closedTask c event rest} :
      st.generator = .suspended place (.pending false) closedTask c →
      st.sess.events = event :: rest →
      Turn st .getTask { st with
        sess := { st.sess with events := rest }
        generator := .suspended place (.done event) closedTask c }
  | gotNothing {place closedTask c} :
      st.generator = .suspended place (.pending true) closedTask c →
      Turn st .getTask { st with generator := .suspended place .cancelled closedTask c }
  | sawClosed {place getTask c} :
      st.generator = .suspended place getTask (.pending false) c → st.sess.closed = true →
      Turn st .closedTask { st with generator := .suspended place getTask (.done ()) c }
  | sawNothing {place getTask c} :
      st.generator = .suspended place getTask (.pending true) c →
      Turn st .closedTask { st with generator := .suspended place getTask .cancelled c }
  | emits {event} : Turn st (.emitEvent event) { st with
      sess := st.sess.emitEvent event
      emitted := st.emitted ++ [event] }
  | closes : Turn st .requestTeardown { st with sess := st.sess.requestTeardown }

/-- What `__anext__` does when it is called. -/
theorem anext_turn {st st' : Stream} (h : st.anext = some st') : Turn st .anext st' := by
  unfold anext at h
  split at h <;> rename_i hgen <;> cases h
  · exact .called (by rw [hgen]; exact id)
  · exact .called (by rw [hgen]; exact id)
  · exact .drainedOn hgen
  · exact .ended hgen

/-- What `__anext__` does when it runs on. -/
theorem resume_turn {st st' : Stream} (h : st.resume = some st') : Turn st .resume st' := by
  unfold resume at h
  split at h
  · rename_i getTask closedTask c hgen
    split at h
    · rename_i hwake
      cases h
      rw [Bool.or_eq_true, Bool.or_eq_true, or_assoc] at hwake
      exact .woken hgen hwake
    · cases h
  · rename_i getTask closedTask c hgen
    split at h
    · split at h
      · rename_i hc
        cases h
        exact .thrown (by rw [hgen, hc])
      · rename_i hc
        rw [Bool.not_eq_true] at hc
        rw [hc] at hgen
        split at h
        · cases h
          exact .yields hgen
        · rename_i hnot
          cases h
          refine .drained hgen ?_
          cases getTask with
          | done event => exact absurd rfl (hnot event)
          | _ => rfl
    · cases h
  · cases h

/-- What a cancellation does. -/
theorem cancel_turn {st st' : Stream} (h : st.cancel = some st') : Turn st .cancel st' := by
  unfold cancel at h
  split at h
  · rename_i hgen
    cases h
    exact .cancelledWait hgen
  · rename_i hgen
    cases h
    exact .cancelledGather hgen
  · cases h

/-- What closing the generator does. -/
theorem aclose_turn {st st' : Stream} (h : st.aclose = some st') : Turn st .aclose st' := by
  unfold aclose at h
  split at h <;> rename_i hgen <;> cases h
  · exact .aclosed (by rw [hgen]; exact id)
  · exact .aclosed (by rw [hgen]; exact id)
  · exact .aclosed (by rw [hgen]; exact id)
  · exact .ended hgen

/-- The `Queue.get` task takes the head of the queue, or its cancellation. -/
theorem runGet_cases {s s' : Session} {task task' : TaskState SiaEvent}
    (h : runGet s task = some (s', task')) :
    (task = .pending true ∧ s' = s ∧ task' = .cancelled) ∨
    ∃ event rest, task = .pending false ∧ s.events = event :: rest ∧
      s' = { s with events := rest } ∧ task' = .done event := by
  unfold runGet at h
  split at h
  · cases h
    exact .inl ⟨rfl, rfl, rfl⟩
  · split at h
    · cases h
    · rename_i event rest hevents
      cases h
      exact .inr ⟨event, rest, rfl, hevents, rfl, rfl⟩
  · cases h

/-- The `Event.wait` task sees that the session is closed, or its cancellation. -/
theorem runClosed_cases {s : Session} {task task' : TaskState Unit}
    (h : runClosed s task = some task') :
    (task = .pending true ∧ task' = .cancelled) ∨
    (task = .pending false ∧ s.closed = true ∧ task' = .done ()) := by
  unfold runClosed at h
  split at h
  · cases h
    exact .inl ⟨rfl, rfl⟩
  · split at h
    · rename_i hclosed
      cases h
      exact .inr ⟨rfl, hclosed, rfl⟩
    · cases h
  · cases h

/-- **Every step is one of these.** -/
theorem step_turn {st st' : Stream} {a : StreamAction} (h : st.step a = some st') :
    Turn st a st' := by
  cases a with
  | events =>
      simp only [step] at h
      split at h
      · cases h
      · rename_i hnot
        cases h
        refine .opened ?_
        intro hsus
        cases hgen : st.generator with
        | suspended p g c b => exact hnot p g c b hgen
        | _ => rw [hgen] at hsus; exact hsus
  | anext => exact anext_turn h
  | resume => exact resume_turn h
  | cancel => exact cancel_turn h
  | aclose => exact aclose_turn h
  | getTask =>
      simp only [step] at h
      split at h
      · rename_i place getTask closedTask c hgen
        obtain ⟨⟨s', getTask'⟩, hrun, rfl⟩ := Option.map_eq_some_iff.mp h
        obtain ⟨rfl, rfl, rfl⟩ | ⟨event, rest, rfl, hevents, rfl, rfl⟩ := runGet_cases hrun
        · exact .gotNothing hgen
        · exact .got hgen hevents
      · cases h
  | closedTask =>
      simp only [step] at h
      split at h
      · rename_i place getTask closedTask c hgen
        obtain ⟨closedTask', hrun, rfl⟩ := Option.map_eq_some_iff.mp h
        obtain ⟨rfl, rfl⟩ | ⟨rfl, hclosed, rfl⟩ := runClosed_cases hrun
        · exact .sawNothing hgen
        · exact .sawClosed hgen hclosed
      · cases h
  | emitEvent event =>
      cases h
      exact .emits
  | requestTeardown =>
      cases h
      exact .closes

/-! ## Where an event can be -/

/-- The event that the generator has taken off the queue. -/
def held : Generator → List SiaEvent
  | .suspended _ getTask _ _ => getTask.result?.toList
  | _ => []

/-- A generator in `__anext__` holds the result of its `Queue.get`. -/
@[simp] theorem held_suspended (place : Await) (getTask : TaskState SiaEvent)
    (closedTask : TaskState Unit) (c : Bool) :
    held (.suspended place getTask closedTask c) = getTask.result?.toList := rfl

/-- Outside `__anext__` nothing is held. -/
theorem held_of_not_suspended {g : Generator} (h : ¬g.Suspended) : held g = [] := by
  cases g with
  | suspended => exact absurd trivial h
  | _ => rfl

/-- A new generator holds nothing. -/
@[simp] theorem held_fresh : held .fresh = [] := rfl

/-- A generator at its `yield` holds nothing. -/
@[simp] theorem held_atYield : held .atYield = [] := rfl

/-- A generator that drains the queue holds nothing. -/
@[simp] theorem held_draining : held .draining = [] := rfl

/-- A generator at its end holds nothing. -/
@[simp] theorem held_finished (how : GeneratorEnd) : held (.finished how) = [] := rfl

/-- Cancelling a task does not change its result. -/
@[simp] theorem result?_cancel {α : Type} (task : TaskState α) :
    task.cancel.result? = task.result? := by
  cases task <;> rfl

/-- All events that were not dropped: those yielded, the one held, those in the queue. -/
def transit (st : Stream) : List SiaEvent := st.yielded ++ held st.generator ++ st.sess.events

/-- What a step from `st` to `st'` does to `transit`: it adds what it emits, and it may
drop an event when there are more than the queue holds. -/
def Moves (st st' : Stream) : Prop :=
  ∃ new, st'.emitted = st.emitted ++ new ∧ st'.transit <+ st.transit ++ new ∧
    (st'.emitted.length ≤ st'.yielded.length + eventQueueMaxsize →
      st.transit = st.emitted → st'.transit = st.transit ++ new)

section Steps

variable {st st' : Stream} {a : StreamAction}

/-- A step that moves events on. -/
theorem moves_of_eq (hemitted : st'.emitted = st.emitted) (htransit : st'.transit = st.transit) :
    Moves st st' :=
  ⟨[], by rw [hemitted, List.append_nil], by rw [htransit, List.append_nil],
    fun _ _ => by rw [htransit, List.append_nil]⟩

/-- An event comes last in the queue, and a full queue loses its first. -/
theorem emitEvent_events (s : Session) (event : SiaEvent) :
    (s.emitEvent event).events <+ s.events ++ [event] ∧
      (s.events.length < eventQueueMaxsize → (s.emitEvent event).events = s.events ++ [event]) := by
  unfold Session.emitEvent
  split
  · exact ⟨List.Sublist.refl _, fun _ => rfl⟩
  · rename_i hfull
    exact ⟨(List.drop_sublist 1 _).append_right _, fun hroom => absurd hroom hfull⟩

/-- An event that is put back comes first, and a full queue loses its last. -/
theorem requeueEvent_events (s : Session) (event : SiaEvent) :
    (s.requeueEvent event).events <+ event :: s.events ∧
      (s.events.length < eventQueueMaxsize →
        (s.requeueEvent event).events = event :: s.events) := by
  unfold Session.requeueEvent
  refine ⟨List.take_sublist _ _, fun hroom => List.take_of_length_le ?_⟩
  rw [List.length_cons]
  omega

/-- An event that is emitted moves into the queue. -/
theorem emitEvent_moves (event : SiaEvent) :
    Moves st { st with sess := st.sess.emitEvent event, emitted := st.emitted ++ [event] } := by
  obtain ⟨hsub, hroom⟩ := emitEvent_events st.sess event
  refine ⟨[event], rfl, ?_, fun hle htransit => ?_⟩
  · unfold transit
    rw [List.append_assoc _ st.sess.events]
    exact hsub.append_left _
  · have hlen := congrArg List.length htransit
    unfold transit at hlen ⊢
    simp only [List.length_append, List.length_singleton] at hle hlen
    dsimp only
    rw [hroom (by omega), ← List.append_assoc]

/-- An event that a cancelled `__anext__` holds moves back into the queue. -/
theorem requeue_moves {getTask : TaskState SiaEvent} {closedTask : TaskState Unit}
    (hgen : st.generator = .suspended .gather getTask closedTask true) :
    Moves st { st with
      sess := requeueCompletedGet st.sess getTask
      generator := .finished .cancelled } := by
  unfold requeueCompletedGet
  cases getTask with
  | pending b => exact moves_of_eq rfl (by simp [transit, hgen, TaskState.result?])
  | cancelled => exact moves_of_eq rfl (by simp [transit, hgen, TaskState.result?])
  | done event =>
      -- the event goes back to where it came from
      have htransit : st.transit = st.yielded ++ event :: st.sess.events := by
        simp [transit, hgen, TaskState.result?]
      obtain ⟨hsub, hroom⟩ := requeueEvent_events st.sess event
      refine ⟨[], (List.append_nil _).symm, ?_, fun hle heq => ?_⟩
      · rw [htransit, List.append_nil]
        unfold transit
        rw [held_finished, List.append_nil]
        exact hsub.append_left _
      · have hlen := congrArg List.length (heq.symm.trans htransit)
        simp only [List.length_append, List.length_cons] at hle hlen
        rw [htransit, List.append_nil]
        unfold transit
        rw [held_finished, List.append_nil]
        exact congrArg _ (hroom (by omega))

/-- Draining moves an event from the queue to the consumer. -/
theorem drain_moves (hheld : held st.generator = []) : Moves st st.drain := by
  unfold drain
  cases hevents : st.sess.events with
  | nil => exact moves_of_eq rfl (by simp [transit, hheld])
  | cons event rest => exact moves_of_eq rfl (by simp [transit, hheld, hevents])

/-- **A step moves events on**, from the emitter to the consumer. -/
theorem step_transit (hstep : st.step a = some st') : Moves st st' := by
  cases step_turn hstep with
  | opened hgen => exact moves_of_eq rfl (by simp [transit, held_of_not_suspended hgen])
  | called hgen =>
      exact moves_of_eq rfl (by simp [transit, held_of_not_suspended hgen, TaskState.result?])
  | ended => exact moves_of_eq rfl rfl
  | drainedOn hgen => exact drain_moves (by rw [hgen]; rfl)
  | drained hgen hnone => exact drain_moves (by rw [hgen, held_suspended, hnone]; rfl)
  | woken hgen => exact moves_of_eq rfl (by simp [transit, hgen])
  | thrown hgen => exact requeue_moves hgen
  | yields hgen => exact moves_of_eq rfl (by simp [transit, hgen, TaskState.result?])
  | cancelledWait hgen => exact moves_of_eq rfl (by simp [transit, hgen])
  | cancelledGather hgen => exact moves_of_eq rfl (by simp [transit, hgen])
  | aclosed hgen => exact moves_of_eq rfl (by simp [transit, held_of_not_suspended hgen])
  | got hgen hevents =>
      exact moves_of_eq rfl (by simp [transit, hgen, hevents, TaskState.result?])
  | gotNothing hgen => exact moves_of_eq rfl (by simp [transit, hgen, TaskState.result?])
  | sawClosed hgen => exact moves_of_eq rfl (by simp [transit, hgen])
  | sawNothing hgen => exact moves_of_eq rfl (by simp [transit, hgen])
  | emits => exact emitEvent_moves _
  | closes => exact moves_of_eq rfl rfl

/-! ## The end of an iterator -/

/-- Unless `__anext__` is cancelled, its `Queue.get` is cancelled only because the session
is closed; the queue is drained only then, and only then does the generator return. -/
def Ending (st : Stream) : Prop :=
  match st.generator with
  | .suspended .wait getTask closedTask _ =>
      (getTask = .pending false ∨ getTask.result?.isSome) ∧
        (closedTask = .pending false ∨ st.sess.closed = true)
  | .suspended .gather getTask _ false => getTask.result?.isSome ∨ st.sess.closed = true
  | .draining | .finished .returned => st.sess.closed = true
  | _ => True

/-- Only a closed session is drained. -/
theorem drain_ending (hclosed : st.sess.closed = true) : st.drain.Ending := by
  unfold drain
  split
  · exact hclosed
  · exact hclosed

/-- **Every step** keeps it. -/
theorem step_ending (h : st.Ending) (hstep : st.step a = some st') : st'.Ending := by
  unfold Ending at h
  cases step_turn hstep with
  | opened => trivial
  | called => exact ⟨.inl rfl, .inl rfl⟩
  | ended hgen =>
      unfold Ending
      exact h
  | drainedOn hgen =>
      rw [hgen] at h
      exact drain_ending h
  | drained hgen hnone =>
      rw [hgen] at h
      simp only [hnone, Option.isSome_none, Bool.false_eq_true, false_or] at h
      exact drain_ending h
  | @woken getTask closedTask c hgen hwake =>
      rw [hgen] at h
      obtain ⟨hget, hclosed⟩ := h
      cases c with
      | true => trivial
      | false =>
          show getTask.cancel.result?.isSome ∨ _
          rw [result?_cancel]
          obtain rfl | hget := hget
          · obtain rfl | hclosed := hclosed
            · simp [TaskState.settled] at hwake
            · exact .inr hclosed
          · exact .inl hget
  | thrown => trivial
  | yields => trivial
  | cancelledWait hgen =>
      rw [hgen] at h
      exact h
  | cancelledGather => trivial
  | aclosed => trivial
  | @got place closedTask c event rest hgen =>
      rw [hgen] at h
      cases place with
      | wait => exact ⟨.inr rfl, h.2⟩
      | gather =>
          cases c with
          | true => trivial
          | false => exact .inl rfl
  | @gotNothing place closedTask c hgen =>
      rw [hgen] at h
      cases place with
      | wait => simp [TaskState.result?] at h
      | gather =>
          cases c with
          | true => trivial
          | false => exact h
  | @sawClosed place getTask c hgen hclosed =>
      rw [hgen] at h
      cases place with
      | wait => exact ⟨h.1, .inr hclosed⟩
      | gather =>
          cases c with
          | true => trivial
          | false => exact h
  | @sawNothing place getTask c hgen =>
      rw [hgen] at h
      cases place with
      | wait => exact ⟨h.1, .inr (h.2.resolve_left nofun)⟩
      | gather =>
          cases c with
          | true => trivial
          | false => exact h
  | @emits event =>
      have hclosed : (st.sess.emitEvent event).closed = st.sess.closed := by
        unfold Session.emitEvent
        split <;> rfl
      unfold Ending
      dsimp only
      rw [hclosed]
      exact h
  | closes =>
      unfold Ending
      dsimp only
      split
      · rename_i hgen
        rw [hgen] at h
        exact ⟨h.1, .inr rfl⟩
      · exact .inr rfl
      · rfl
      · rfl
      · trivial

/-- A generator that returns has drained the queue of a closed session. -/
theorem step_returned (h : st.Ending) (hstep : st.step a = some st')
    (hnot : st.generator ≠ .finished .returned) (hreturned : st'.generator = .finished .returned) :
    st'.sess.closed = true ∧ st'.sess.events = [] := by
  have hclosed : st'.sess.closed = true := by
    have hending := step_ending h hstep
    unfold Ending at hending
    rwa [hreturned] at hending
  refine ⟨hclosed, ?_⟩
  have hdrain (hst : st' = st.drain) : st'.sess.events = [] := by
    subst hst
    unfold drain at hreturned ⊢
    split at hreturned
    · assumption
    · cases hreturned
  cases step_turn hstep with
  | ended => exact absurd hreturned hnot
  | drainedOn => exact hdrain rfl
  | drained => exact hdrain rfl
  | emits => exact absurd hreturned hnot
  | closes => exact absurd hreturned hnot
  | _ => cases hreturned

end Steps

/-! ## Runs -/

/-- At no time are more events undelivered than the queue holds. -/
def KeepsUp (st₀ : Stream) (as : List StreamAction) : Prop :=
  ∀ pre st, pre <+: as → run step st₀ pre = some st →
    st.emitted.length ≤ st.yielded.length + eventQueueMaxsize

/-- What the consumer gets in a run from `st₀` to `st`. -/
structure Delivered (st₀ : Stream) (as : List StreamAction) (st : Stream) : Prop where
  /-- In order and without duplicates. -/
  subsequence : st.yielded <+ st.emitted
  /-- Nothing is lost by a consumer that keeps up. -/
  lossless : KeepsUp st₀ as → ¬st.generator.Suspended → st.yielded ++ st.sess.events = st.emitted
  /-- An iterator that returns has got all there was. -/
  returned : ∀ a st', st.step a = some st' → st.generator ≠ .finished .returned →
    st'.generator = .finished .returned → st'.sess.closed = true ∧ st'.sess.events = []

/-- What holds after a run of a new session. -/
theorem transit_run (panelId receiverId : ℤ) (key : Option Bytes) :
    ∀ as st, run step (new panelId receiverId key) as = some st →
      st.Ending ∧ st.transit <+ st.emitted ∧
        (KeepsUp (new panelId receiverId key) as → st.transit = st.emitted) := by
  refine run_induction ⟨trivial, List.Sublist.refl _, fun _ => rfl⟩ ?_
  rintro as st a st' hrun ⟨hending, hsub, hall⟩ hstep
  obtain ⟨added, hemitted, hmoved, hroom⟩ := step_transit hstep
  refine ⟨step_ending hending hstep, ?_, fun hkeeps => ?_⟩
  · rw [hemitted]
    exact hmoved.trans (hsub.append_right added)
  · have heq := hall fun pre st hpre => hkeeps pre st (hpre.trans (List.prefix_append as [a]))
    have hle := hkeeps (as ++ [a]) st' List.prefix_rfl (run_snoc_iff.mpr ⟨st, hrun, hstep⟩)
    rw [hroom hle heq, hemitted, heq]

/-- **Delivery of events**, in every run. -/
theorem events_delivered (panelId receiverId : ℤ) (key : Option Bytes) (as : List StreamAction)
    (st : Stream) (hrun : run step (new panelId receiverId key) as = some st) :
    Delivered (new panelId receiverId key) as st := by
  obtain ⟨hending, hsub, hall⟩ := transit_run panelId receiverId key as st hrun
  refine ⟨?_, ?_, fun a st' => step_returned hending⟩
  · refine List.Sublist.trans ?_ hsub
    unfold transit
    rw [List.append_assoc]
    exact List.sublist_append_left _ _
  · intro hkeeps hsus
    rw [← hall hkeeps]
    unfold transit
    rw [held_of_not_suspended hsus, List.append_nil]

/-- An event of zone 5. -/
def zoneEvent (code : String) : SiaEvent where
  spcId := 1000
  timestampRaw := text "12000001012024"
  timestamp := none
  siaCode := text code
  address := text "5"
  description := []
  extra := []
  verificationId := []

/-- A call of `__anext__` that is cancelled with the event already taken off the queue:
the next call yields it. -/
theorem delivered_cancelled : ∃ as st, run step (new 1000 1001 none) as = some st ∧
    st.yielded = [zoneEvent "ZO"] ∧ Delivered (new 1000 1001 none) as st := by
  obtain ⟨st, hrun, hyielded⟩ : ∃ st, run step (new 1000 1001 none)
      [.events, .anext, .emitEvent (zoneEvent "ZO"), .emitEvent (zoneEvent "ZC"), .getTask, .cancel,
        .resume, .closedTask, .resume, .events, .anext, .getTask, .resume, .closedTask, .resume] =
      some st ∧ st.yielded = [zoneEvent "ZO"] := ⟨_, rfl, rfl⟩
  exact ⟨_, st, hrun, hyielded, events_delivered 1000 1001 none _ st hrun⟩

end Spcedp.Client.Stream
