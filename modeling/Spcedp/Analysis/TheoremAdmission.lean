import Spcedp.Analysis.Queue

/-!
# When a command may send

A request is queued only by the command that holds the lock, on an open session, and only
when the panel has been quiet for `commandQuietTime`; a session that was torn down has no
request in flight and gets none (`admission_of_occurs`). The time since the last frame is
read off the history (`sinceDispatch`), not off the session.
-/

set_option autoImplicit false

namespace Spcedp.Client

open Lib.FairLock Lib.Transition Spcedp.Wire

/-! ## What is admitted -/

/-- The time since the last dispatched frame, after one more entry. -/
def elapse (elapsed : Option ℚ) : Entry → Option ℚ
  | .ticked d => elapsed.map (· + d)
  | .dispatched _ => some 0
  | _ => elapsed

/-- The time since the last dispatched frame, if there is one. -/
def sinceDispatch (log : List Entry) : Option ℚ := log.foldl elapse none

/-- Somebody waits for the future `n`: it is registered, or a command awaits it. -/
def World.Held (w : World) (n : ℕ) : Prop :=
  (∃ c q, (w.sess.pendingOf c).lookup q = some n) ∨ ∃ t q, (w.tasks t).pc = .awaiting n q

/-- A request in flight fails when the link is lost. -/
def Future.lost (f : Future) : Future :=
  if f.state = .pending then { f with state := .failed .panelDisconnected } else f

/-- What `w` and its runs say about requests. -/
structure Admission (env : Env) (w : World) : Prop where
  /-- The history tells exactly what is on the queue: what was queued and not taken off. -/
  queue : ∀ panelId receiverId key now as,
    run (World.step env) (World.new panelId receiverId key now) as = some w →
      queuedData w.sess.log =
        outputs (World.step env) World.taken (World.new panelId receiverId key now) as ++
          w.sess.writeQueue
  /-- A request that a step queues is that of the task which runs. The task holds the lock,
  the session is open, and the panel has been quiet. -/
  admitted : ∀ a w' new g data closed holders, w.step env a = some w' →
    w'.sess.log = w.sess.log ++ new → .queued g data closed holders ∈ new → IsRequest g →
      closed = false ∧ w.sess.closed = false ∧
      (∃ t, holders = [t] ∧ (a = .resume t ∨ ∃ cmd, a = .call t cmd)) ∧
      ∀ elapsed ∈ sinceDispatch w.sess.log, commandQuietTime ≤ elapsed
  /-- Teardown fails what is in flight, and nothing is in flight again. -/
  shut : ∀ as w', run (World.step env) w (.teardown :: as) = some w' →
    (∀ n f, w.Held n → w.sess.futures[n]? = some f → w'.sess.futures[n]? = some f.lost) ∧
    (∀ c, w'.sess.pendingOf c = ∅) ∧
    ∃ new, w'.sess.log = w.sess.log ++ new ∧
      ∀ g data closed holders, .queued g data closed holders ∈ new → ¬IsRequest g

section Steps

variable {env : Env} {w w' : World} {a : Action} {new : List Entry}

/-! ## The clock -/

/-- The time since the last frame is what the session measures. -/
def World.Clocked (w : World) : Prop :=
  ∀ elapsed ∈ sinceDispatch w.sess.log, w.now = w.sess.lastReceived + elapsed

/-- The time since the last frame, over two parts of the history. -/
theorem sinceDispatch_append (log new : List Entry) :
    sinceDispatch (log ++ new) = new.foldl elapse (sinceDispatch log) := List.foldl_append

/-- The clock of the session goes with the history. -/
theorem clocked_step (hclock : w.Clocked) (hlog : w'.sess.log = w.sess.log ++ new)
    (hrec : Records env w a w' new) : w'.Clocked := by
  intro elapsed helapsed
  rw [hlog, sinceDispatch_append] at helapsed
  cases hrec with
  | nothing _ hnow hlast =>
      rw [hnow, hlast]
      exact hclock elapsed helapsed
  | ticked hnow hlast =>
      simp only [List.foldl_cons, List.foldl_nil, elapse, Option.mem_def,
        Option.map_eq_some_iff] at helapsed
      obtain ⟨e, he, rfl⟩ := helapsed
      rw [hnow, hlast, hclock e he, add_assoc]
  | requested _ _ _ hnow hlast =>
      rw [hnow, hlast]
      exact hclock elapsed helapsed
  | received hnow hlast =>
      cases helapsed
      rw [hnow, hlast, add_zero]
  | acked _ _ hnow hlast =>
      cases helapsed
      rw [hnow, hlast, add_zero]

/-- The session knows when the last frame came, in every world that occurs. -/
theorem clocked_occurs (hocc : w.Occurs env) : w.Clocked := by
  obtain ⟨panelId, receiverId, key, now, hreach⟩ := hocc
  refine (hreach.invariant (I := fun w => Inv w ∧ w.Clocked) ?_
    ⟨inv_new panelId receiverId key now, nofun⟩).2
  rintro w a w' ⟨hinv, hclock⟩ hstep
  obtain ⟨-, new, hlog, hrec⟩ := step_records hinv hstep
  exact ⟨inv_step hinv hstep, clocked_step hclock hlog hrec⟩

/-! ## A closed session -/

/-- Nothing is registered, and a future that has ended stays as it is. -/
structure Settled (s s' : Session) : Prop where
  pending : ∀ c q n, (s'.pendingOf c).lookup q = some n → (s.pendingOf c).lookup q = some n
  futures : ∀ (n : ℕ) (f : Future), s.futures[n]? = some f → f.state ≠ .pending →
    s'.futures[n]? = some f

/-- A step that settles futures registers nothing. -/
theorem Settles.settled {s s' : Session} (h : Settles s s') : Settled s s' := by
  refine ⟨h.pending, fun n f hf hdone => ?_⟩
  obtain ⟨f', hf', -, -, hsame, -⟩ := h.futures n f hf
  rw [hf', hsame hdone]

/-- Nothing is registered while the maps are the same. -/
theorem SameMaps.settled {s s' : Session} (h : SameMaps s s') : Settled s s' :=
  ⟨fun c q n hl => by rwa [h.pending] at hl, fun n f hf _ => by rw [h.futures, hf]⟩

/-- A segment that starts on a closed session only stops. -/
theorem ends_closed {now : ℚ} {s s' : Session} {r : Request} {given : Option Bytes} {pc : Pc}
    {last last' : Option (Frame × ℕ)} (h : Ends env now s r given last s' pc last')
    (hclosed : s.closed = true) : s' = s := by
  have hopen : s.closed ≠ false := by rw [hclosed]; decide
  cases h with
  | stopped => rfl
  | asleep ho => exact absurd ho hopen
  | unbuilt hsend => exact absurd hsend.open_ hopen
  | unencoded hsend => exact absurd hsend.open_ hopen
  | sent hsend => exact absurd hsend.open_ hopen

/-- **On a closed session** nothing is registered. -/
theorem closed_step (hinv : Inv w) (hclosed : w.sess.closed = true)
    (hstep : w.step env a = some w') : Settled w.sess w'.sess := by
  cases step_change hstep with
  | @segment a t r s given seg hruns hseg =>
      have hins := runs_inside hinv hruns
      obtain ⟨-, lock, xml, bin, hs⟩ := runs_session hruns
      have hmaps := settle_same w t seg
      rw [ends_closed hseg.ends (by rw [hs]; exact hclosed)] at hmaps
      refine ⟨fun c q n hl => hins.pending c q n (by rwa [hmaps.pending] at hl), fun n f hf _ => ?_⟩
      rw [hmaps.futures, hins.futures, hf]
  | refused => exact (SameMaps.refl _).settled
  | enqueued => exact (sameMaps_lock _ _).settled
  | gaveUp => exact (sameMaps_lock _ _).settled
  | interrupted =>
      dsimp only
      unfold World.interrupt
      split
      · exact (sameMaps_lock _ _).settled
      · refine ⟨fun c q n hl => by cases c <;> exact hl, fun n f hf hdone => ?_⟩
        dsimp only
        rw [complete_getElem?, hf, Option.map_some, if_neg fun h => hdone h.2]
      · exact (SameMaps.refl _).settled
  | dispatched => exact (settles_dispatch env.aes w.sess w.now _).settled
  | ticked => exact SameMaps.settled ⟨rfl, fun c => by cases c <;> rfl⟩
  | failed => exact (settles_failPending _ _).settled
  | closing => exact SameMaps.settled ⟨rfl, fun c => by cases c <;> rfl⟩
  | tornDown =>
      obtain ⟨hpending, hfutures⟩ := (settles_failPending w.sess .panelDisconnected).settled
      exact ⟨fun c q n hl => hpending c q n (by cases c <;> exact hl), hfutures⟩
  | wrote => exact SameMaps.settled ⟨rfl, fun c => by cases c <;> rfl⟩

/-- A run from a closed session registers nothing and queues no request. -/
theorem closed_run (hinv : Inv w) (hclosed : w.sess.closed = true) :
    ∀ as w', run (World.step env) w as = some w' →
      Inv w' ∧ w'.sess.closed = true ∧ Settled w.sess w'.sess ∧
      ∃ new, w'.sess.log = w.sess.log ++ new ∧
        ∀ g data closed holders, .queued g data closed holders ∈ new → ¬IsRequest g := by
  refine run_induction ⟨hinv, hclosed, (SameMaps.refl _).settled, [], by simp, by simp⟩ ?_
  rintro as w₁ a w₂ - ⟨hinv₁, hclosed₁, hsettled, new, hlog, hnew⟩ hstep
  obtain ⟨hkept, new', hlog', hrec⟩ := step_records hinv₁ hstep
  obtain ⟨hpending', hfutures'⟩ := closed_step hinv₁ hclosed₁ hstep
  refine ⟨inv_step hinv₁ hstep, hkept.closed hclosed₁,
    ⟨fun c q n hl => hsettled.pending c q n (hpending' c q n hl),
      fun n f hf hdone => hfutures' n f (hsettled.futures n f hf hdone) hdone⟩,
    new ++ new', by rw [hlog', hlog, List.append_assoc], ?_⟩
  intro g data closed holders hmem hreq
  rcases List.mem_append.mp hmem with hmem | hmem
  · exact hnew g data closed holders hmem hreq
  · obtain ⟨-, hsend, -⟩ := hrec.request hmem hreq
    exact absurd hclosed₁ (by rw [hsend.open_]; decide)

/-- Teardown leaves no future pending that somebody waits for. -/
theorem teardown_lost (hinv : Inv w) {n : ℕ} {f : Future} (hheld : w.Held n)
    (hf : w.sess.futures[n]? = some f) :
    (w.sess.failPending .panelDisconnected).requestTeardown.futures[n]? = some f.lost := by
  have hregistered : f.state = .pending → ∃ c q, (w.sess.pendingOf c).lookup q = some n := by
    intro hpending
    obtain hreg | ⟨t, q, hpc⟩ := hheld
    · exact hreg
    · obtain ⟨r, -, -, f', hf', -, -, hreg⟩ := hinv.awaited t n q hpc
      rw [hf, Option.some.injEq] at hf'
      exact ⟨r.channel, q, hreg (hf' ▸ hpending)⟩
  show (w.sess.failPending .panelDisconnected).futures[n]? = _
  rw [Session.failPending_futures, hf, Option.map_some, Option.some.injEq]
  unfold Future.lost
  by_cases hpending : f.state = .pending
  · rw [if_pos hpending, if_pos]
    refine ⟨?_, hpending⟩
    obtain ⟨c, q, hl⟩ := hregistered hpending
    cases c with
    | xml => exact .inl (mem_values_iff.mpr ⟨q, hl⟩)
    | bin => exact .inr (mem_values_iff.mpr ⟨q, hl⟩)
  · rw [if_neg hpending, if_neg fun h => hpending h.2]

end Steps

/-- A future that was lost is not pending. -/
theorem lost_ne_pending (f : Future) : f.lost.state ≠ .pending := by
  unfold Future.lost
  split
  · exact nofun
  · assumption

/-- **Command admission**, in every world that can come up. -/
theorem admission_of_occurs (env : Env) (w : World) (hocc : w.Occurs env) : Admission env w := by
  have hinv := inv_occurs hocc
  refine ⟨fun _ _ _ _ _ => queued_of_run, ?_, ?_⟩
  · intro a w' new g data closed holders hstep hlog hmem hreq
    obtain ⟨-, new', hlog', hrec⟩ := step_records hinv hstep
    rw [hlog', List.append_cancel_left_eq] at hlog
    subst hlog
    obtain ⟨hclosed, hsend, hholder⟩ := hrec.request hmem hreq
    refine ⟨hclosed, hsend.open_, hholder, fun elapsed helapsed => ?_⟩
    have hclock := clocked_occurs hocc elapsed helapsed
    have hquiet := hsend.quiet
    linarith
  · intro as w' hrun
    set w₁ : World := { w with
      sess := (w.sess.failPending .panelDisconnected).requestTeardown } with hw₁
    have hstep : w.step env .teardown = some w₁ := rfl
    have hempty : ∀ c, w₁.sess.pendingOf c = ∅ := by
      intro c
      cases c <;> rfl
    obtain ⟨-, -, hsettled, new, hlog, hnew⟩ :=
      closed_run (inv_step hinv hstep) rfl as w' (by rwa [run_cons, hstep] at hrun)
    refine ⟨fun n f hheld hf => ?_, fun c => ?_, new, hlog, hnew⟩
    · exact hsettled.futures n f.lost (teardown_lost hinv hheld hf) (lost_ne_pending f)
    · refine eq_empty_of_lookup fun q n hl => ?_
      have hl₁ := hsettled.pending c q n hl
      rw [hempty, AList.lookup_empty] at hl₁
      cases hl₁

/-- A task that has armed area 1 awaits the reply when the panel disconnects. -/
theorem admission_areaSet : ∃ w, (w.tasks 0).pc = .awaiting 0 1 ∧ Admission clearEnv w := by
  obtain ⟨w, hocc, hpc⟩ := occurs_areaSet
  exact ⟨w, hpc, admission_of_occurs clearEnv w hocc⟩

end Spcedp.Client
