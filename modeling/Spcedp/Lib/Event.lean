import Mathlib.Logic.Function.Basic
import Spcedp.Lib.Transition

/-!
# Loops that wait on one event

Any number of calls share an event. Each looks at the state at the head of its loop and
ends, or it clears the event and waits; setting the event while it is clear schedules
everybody who waits at that moment. Calls come, run on and are cancelled in any order, and
other steps change the state in between.

If no other step changes what a head sees without leaving the event set (`Announced`), no
wake-up is lost: a call that waits and is not scheduled would wait again (`waiting_blocked`).
-/

set_option autoImplicit false

namespace Lib.Event

open Lib.Transition

/-- What a waiting call sleeps on: not over yet, over since the event was set, or cancelled. -/
inductive Sleep
  | pending
  | woken
  | cancelled
  deriving DecidableEq, Repr

/-- A call with argument `p`: it waits, or it has ended, with `none` by a cancellation. -/
inductive Call (P O : Type)
  | idle
  | waiting (p : P) (sleep : Sleep)
  | ended (p : P) (outcome : Option O)
  deriving DecidableEq, Repr

/-- Setting the event reaches a call that waits. -/
def Call.notified {P O : Type} : Call P O → Call P O
  | .waiting p .pending => .waiting p .woken
  | c => c

/-- A loop over an event in the state: `head s p` is how a call with argument `p` ends at the
head of its loop, or `none` where it waits. -/
structure Loop (S P O : Type) where
  isSet : S → Bool
  clear : S → S
  head : S → P → Option O

/-- A state with the calls on it. -/
structure System (S P O : Type) where
  state : S
  calls : ℕ → Call P O := fun _ => .idle

/-- What can happen next; `other` is a step that is not one of the calls'. -/
inductive Action (A P : Type)
  | call (t : ℕ) (p : P)
  | resume (t : ℕ)
  | cancel (t : ℕ)
  | other (a : A)

variable {S P O A : Type}

namespace System

/-- The call `t` is in the state `c` from now on. -/
def update (sys : System S P O) (t : ℕ) (c : Call P O) : System S P O :=
  { sys with calls := Function.update sys.calls t c }

/-- The call `t` from the head of its loop to its end, or to its next sleep. -/
def turn (loop : Loop S P O) (sys : System S P O) (t : ℕ) (p : P) : System S P O :=
  match loop.head sys.state p with
  | some o => sys.update t (.ended p (some o))
  | none => { sys.update t (.waiting p .pending) with state := loop.clear sys.state }

/-- The state becomes `s`; if that has set the event, the waiting calls are scheduled. -/
def become (loop : Loop S P O) (sys : System S P O) (s : S) : System S P O where
  state := s
  calls := fun t =>
    if loop.isSet sys.state = false ∧ loop.isSet s = true then (sys.calls t).notified
    else sys.calls t

def step (loop : Loop S P O) (other : S → A → Option S) (sys : System S P O) :
    Action A P → Option (System S P O)
  | .call t p =>
      match sys.calls t with
      | .idle => some (sys.turn loop t p)
      | _ => none
  | .resume t =>
      match sys.calls t with
      | .waiting p .woken => some (sys.turn loop t p)
      | .waiting p .cancelled => some (sys.update t (.ended p none))
      | _ => none
  | .cancel t =>
      match sys.calls t with
      | .waiting p _ => some (sys.update t (.waiting p .cancelled))
      | _ => none
  | .other a => (other sys.state a).map (sys.become loop)

end System

/-- Clearing the event changes nothing that a head sees, and every other step that changes it
leaves the event set. -/
structure Announced (loop : Loop S P O) (other : S → A → Option S) : Prop where
  isSet_clear : ∀ s, loop.isSet (loop.clear s) = false
  head_clear : ∀ s p, loop.head (loop.clear s) p = loop.head s p
  quiet : ∀ s a s', other s a = some s' → loop.isSet s' = false →
    loop.isSet s = false ∧ ∀ p, loop.head s' p = loop.head s p

/-- **No lost wake-up.** A call that sleeps and is not scheduled would sleep again, and the
event is clear. -/
def Blocked (loop : Loop S P O) (sys : System S P O) : Prop :=
  ∀ t p, sys.calls t = .waiting p .pending →
    loop.isSet sys.state = false ∧ loop.head sys.state p = none

/-- The call `t` goes into the state `c`. -/
theorem System.update_calls (sys : System S P O) (t u : ℕ) (c : Call P O) :
    (sys.update t c).calls u = if u = t then c else sys.calls u :=
  Function.update_apply sys.calls t c u

section

variable {loop : Loop S P O} {other : S → A → Option S} {sys sys' : System S P O}
  {a : Action A P} {t : ℕ} {p : P}

/-- A call that does not go to sleep leaves the others blocked. -/
theorem Blocked.update (h : Blocked loop sys) {c : Call P O} (hc : ∀ p, c ≠ .waiting p .pending) :
    Blocked loop (sys.update t c) := by
  intro u p hu
  rw [System.update_calls] at hu
  split at hu
  · exact absurd hu (hc p)
  · exact h u p hu

/-- A turn ends the call or puts it to sleep, with the event cleared for everybody. -/
theorem Blocked.turn (h : Blocked loop sys) (hloop : Announced loop other) :
    Blocked loop (sys.turn loop t p) := by
  unfold System.turn
  cases hhead : loop.head sys.state p with
  | some o => exact h.update fun _ => by simp
  | none =>
      intro u q hu
      refine ⟨hloop.isSet_clear _, ?_⟩
      dsimp only at hu ⊢
      rw [hloop.head_clear]
      rw [System.update_calls] at hu
      split at hu
      · cases hu
        exact hhead
      · exact (h u q hu).2

/-- A call that sleeps on after another step slept before it, and was not notified. -/
theorem calls_become {s : S} (h : (sys.become loop s).calls t = .waiting p .pending) :
    sys.calls t = .waiting p .pending ∧ (loop.isSet sys.state = false → loop.isSet s = false) := by
  unfold System.become at h
  dsimp only at h
  split at h
  · exfalso
    unfold Call.notified at h
    split at h
    · cases h
    · rename_i hsleep
      exact hsleep p h
  · rename_i hquiet
    refine ⟨h, fun hclear => ?_⟩
    rw [not_and, Bool.not_eq_true] at hquiet
    exact hquiet hclear

/-- No step loses a wake-up. -/
theorem Blocked.step (h : Blocked loop sys) (hloop : Announced loop other)
    (hstep : sys.step loop other a = some sys') : Blocked loop sys' := by
  unfold System.step at hstep
  cases a with
  | call t p =>
      dsimp only at hstep
      split at hstep
      · cases hstep
        exact h.turn hloop
      · cases hstep
  | resume t =>
      dsimp only at hstep
      split at hstep
      · cases hstep
        exact h.turn hloop
      · cases hstep
        exact h.update fun _ => by simp
      · cases hstep
  | cancel t =>
      dsimp only at hstep
      split at hstep
      · cases hstep
        exact h.update fun _ => by simp
      · cases hstep
  | other a =>
      obtain ⟨s, hs, rfl⟩ := Option.map_eq_some_iff.mp hstep
      intro u p hu
      obtain ⟨hbefore, hset⟩ := calls_become hu
      obtain ⟨hclear, hnone⟩ := h u p hbefore
      obtain ⟨-, hhead⟩ := hloop.quiet _ _ _ hs (hset hclear)
      exact ⟨hset hclear, (hhead p).trans hnone⟩

/-- **No wake-up is lost**, in any state that is reached from one without calls. -/
theorem blocked_reachable {s : S} (hloop : Announced loop other)
    (h : Reachable (System.step loop other) { state := s } sys) : Blocked loop sys := by
  refine h.invariant (fun _ _ _ hb hstep => hb.step hloop hstep) ?_
  intro t p ht
  cases ht

/-- A state that a call is in and was not in before is the one it was put into. -/
theorem eq_of_update {u : ℕ} {c d : Call P O} (hbefore : sys.calls t ≠ d)
    (hafter : (sys.update u c).calls t = d) : c = d := by
  rw [System.update_calls] at hafter
  split at hafter
  · exact hafter
  · exact absurd hafter hbefore

/-- A call that ends in a turn ends with what the head of the loop says, and changes nothing. -/
theorem head_of_turn {u : ℕ} {q : P} {o : O} (hbefore : sys.calls t ≠ .ended p (some o))
    (hafter : (sys.turn loop u q).calls t = .ended p (some o)) :
    (sys.turn loop u q).state = sys.state ∧ loop.head sys.state p = some o := by
  unfold System.turn at hafter ⊢
  cases hhead : loop.head sys.state q with
  | some o' =>
      rw [hhead] at hafter
      cases eq_of_update hbefore hafter
      exact ⟨rfl, hhead⟩
  | none =>
      rw [hhead] at hafter
      cases eq_of_update hbefore hafter

/-- Setting the event ends no call. -/
theorem ended_of_become {s : S} {end_ : Option O}
    (h : (sys.become loop s).calls t = .ended p end_) : sys.calls t = .ended p end_ := by
  unfold System.become at h
  dsimp only at h
  split at h
  · unfold Call.notified at h
    split at h
    · cases h
    · exact h
  · exact h

/-- A call ends as the head of its loop says, in the state that it sees then. -/
theorem head_of_ended (hstep : sys.step loop other a = some sys') {o : O}
    (hbefore : sys.calls t ≠ .ended p (some o)) (hafter : sys'.calls t = .ended p (some o)) :
    sys'.state = sys.state ∧ loop.head sys.state p = some o := by
  unfold System.step at hstep
  cases a with
  | call u q =>
      dsimp only at hstep
      split at hstep
      · cases hstep
        exact head_of_turn hbefore hafter
      · cases hstep
  | resume u =>
      dsimp only at hstep
      split at hstep
      · cases hstep
        exact head_of_turn hbefore hafter
      · cases hstep
        cases eq_of_update hbefore hafter
      · cases hstep
  | cancel u =>
      dsimp only at hstep
      split at hstep
      · cases hstep
        cases eq_of_update hbefore hafter
      · cases hstep
  | other b =>
      obtain ⟨s, hs, rfl⟩ := Option.map_eq_some_iff.mp hstep
      exact absurd (ended_of_become hafter) hbefore

end

end Lib.Event
