import Spcedp.Analysis.Stopping
import Spcedp.Lib.Fairness

/-!
# Every command comes to its end

A task whose wait is over is owed its turn, and one that waits inside the lock is owed its timeout
(`Duty`). `World.effort` says how many rounds a command has left and how far it is in the present
one; no step but the call adds to it (`work_le`). The tasks that come before a command are fewer
and fewer (`order_step`), so what they have left and what the command has left itself is a rank,
and in every run that is fair to these duties every command ends (`ended_of_called`).
-/

set_option autoImplicit false

namespace Spcedp.Client

open Lib.FairLock Lib.Transition Spcedp.Wire Spcedp.Xmlcmd

/-- What the event loop owes a task: its turn, or its timeout. -/
inductive Duty
  | run (t : ℕ)
  | timeout (t : ℕ)
  deriving DecidableEq

/-- The actions that fulfil a duty. -/
def Duty.Own : Duty → World → Action → Prop
  | run t, _, a => a = .resume t
  | timeout t, _, a => a = .expire t

namespace World

/-- The rounds that a command has left, and how far it is in the present one. -/
def effort (w : World) (t : ℕ) : ℕ × ℕ :=
  match (w.tasks t).pc with
  | .idle | .finished _ => (0, 0)
  | .lockWait => if (w.tasks t).cancelRequested then (0, 1) else (maxXmlFragments + 1, 1)
  | .quiet => if (w.tasks t).Stopped then (0, 1) else (maxXmlFragments - (w.tasks t).rounds, 4)
  | .awaiting n _ =>
      if (w.tasks t).Stopped then (0, 1)
      else (maxXmlFragments - (w.tasks t).rounds, if w.sess.Pending n then 3 else 2)

/-- A round has fewer than five steps. -/
def work (w : World) (t : ℕ) : ℕ := 5 * (w.effort t).1 + (w.effort t).2

/-- The tasks that have to end before task `t` can, and `t`. -/
def order (w : World) (t : ℕ) : List ℕ :=
  match (w.tasks t).pc with
  | .idle | .finished _ => []
  | .lockWait =>
      if (w.tasks t).cancelRequested then [t] else w.sess.commandLock.before t ++ [t]
  | .quiet | .awaiting _ _ => [t]

/-- What has to be done before task `t` is at its end. -/
def rank (w : World) (t : ℕ) : ℕ := ((w.order t).map w.work).sum

/-- What is owed to a task. -/
def owed (w : World) (u : ℕ) : Duty := if 3 ≤ (w.effort u).2 then .timeout u else .run u

/-- The duty that task `t` waits for. -/
def duty (w : World) (t : ℕ) : Duty := w.owed ((w.order t).headD t)

end World

section Effort

variable {env : Env} {w w' : World} {a : Action} {t u : ℕ}

/-- A task at its end has nothing left to do. -/
theorem effort_finished {o : Outcome} (hpc : (w.tasks u).pc = .finished o) :
    w.effort u = (0, 0) := by
  unfold World.effort
  rw [hpc]

/-- In the queue of the lock a task has all its rounds before it, unless it is cancelled. -/
theorem effort_lockWait (hpc : (w.tasks u).pc = .lockWait) : w.effort u =
    if (w.tasks u).cancelRequested then (0, 1) else (maxXmlFragments + 1, 1) := by
  unfold World.effort
  rw [hpc]

/-- A task that sleeps has the rest of its rounds before it, unless it must stop. -/
theorem effort_quiet (hpc : (w.tasks u).pc = .quiet) : w.effort u =
    if (w.tasks u).Stopped then (0, 1) else (maxXmlFragments - (w.tasks u).rounds, 4) := by
  unfold World.effort
  rw [hpc]

/-- A task in its `await` is nearer to the next round when its future is done. -/
theorem effort_awaiting {n : ℕ} {q : ℤ} (hpc : (w.tasks u).pc = .awaiting n q) : w.effort u =
    if (w.tasks u).Stopped then (0, 1)
    else (maxXmlFragments - (w.tasks u).rounds, if w.sess.Pending n then 3 else 2) := by
  unfold World.effort
  rw [hpc]

/-- A task that has been called and has not ended. -/
def Pc.OnItsWay (pc : Pc) : Prop := pc = .lockWait ∨ pc.InCommand

instance : (pc : Pc) → Decidable pc.OnItsWay
  | .lockWait => .isTrue (.inl rfl)
  | .quiet | .awaiting _ _ => .isTrue (.inr trivial)
  | .idle | .finished _ => .isFalse (by rintro (h | h) <;> cases h)

/-- The places of a task that is on its way. -/
theorem Pc.OnItsWay.cases {pc : Pc} (h : pc.OnItsWay) :
    pc = .lockWait ∨ pc = .quiet ∨ ∃ n q, pc = .awaiting n q := by
  cases pc with
  | lockWait => exact .inl rfl
  | quiet => exact .inr (.inl rfl)
  | awaiting n q => exact .inr (.inr ⟨n, q, rfl⟩)
  | _ => obtain h | h := h <;> cases h

/-- A task on its way is not idle. -/
theorem Pc.OnItsWay.ne_idle {pc : Pc} (h : pc.OnItsWay) : pc ≠ .idle := by
  obtain hpc | hpc | ⟨n, q, hpc⟩ := h.cases <;> simp [hpc]

/-- The second part is the place in a round. -/
theorem effort_bounds (h : (w.tasks u).pc.OnItsWay) :
    1 ≤ (w.effort u).2 ∧ (w.effort u).2 ≤ 4 := by
  obtain hpc | hpc | ⟨n, q, hpc⟩ := h.cases
  · rw [effort_lockWait hpc]
    split_ifs <;> simp
  · rw [effort_quiet hpc]
    split_ifs <;> simp
  · rw [effort_awaiting hpc]
    split_ifs <;> simp

/-- As much work is the same effort. -/
theorem effort_eq_of_work (h : (w.tasks u).pc.OnItsWay) (h' : (w'.tasks u).pc.OnItsWay)
    (hwork : w'.work u = w.work u) : w'.effort u = w.effort u := by
  have hbounds := effort_bounds h
  have hbounds' := effort_bounds h'
  unfold World.work at hwork
  apply Prod.ext <;> omega

/-- A task on its way has something left to do. -/
theorem work_pos (h : (w.tasks u).pc.OnItsWay) : 0 < w.work u := by
  have hbounds := effort_bounds h
  unfold World.work
  omega

/-- A task that has just come to rest. -/
theorem effort_rested {k : ℕ} (h : Rested w.sess k (w.tasks u)) :
    w.effort u = (maxXmlFragments - k, 4) ∨ w.effort u = (maxXmlFragments - k, 3) := by
  obtain hpc | ⟨n, q, hpc, hpending⟩ := h.pc
  · left
    rw [effort_quiet hpc, if_neg h.going, h.rounds]
  · right
    rw [effort_awaiting hpc, if_neg h.going, if_pos hpending, h.rounds]

/-- **A turn of a task** leaves it less to do, unless it goes on sleeping. -/
theorem work_turned (h : Turned w u w') (hway : (w.tasks u).pc.OnItsWay) :
    w'.work u < w.work u ∨ w'.work u = w.work u ∧ (w.effort u).2 = 4 := by
  have hpos := work_pos hway
  have hidle := hway.ne_idle
  unfold World.work at hpos ⊢
  cases h with
  | ended hend =>
      left
      rw [effort_finished hend]
      exact hpos
  | queued h => exact absurd h hidle
  | entered hbefore hcancel hrested =>
      left
      rw [effort_lockWait (hbefore.resolve_left hidle), hcancel, if_neg Bool.false_ne_true]
      obtain h | h := effort_rested hrested <;> rw [h] <;> dsimp only <;> omega
  | slept hquiet hgoing hrested =>
      rw [effort_quiet hquiet, if_neg hgoing]
      obtain h | h := effort_rested hrested
      · rw [h]
        exact .inr ⟨rfl, rfl⟩
      · rw [h]
        left
        dsimp only
        omega
  | answered hawaiting hgoing hsettled hrested =>
      left
      rw [effort_awaiting hawaiting, if_neg hgoing, if_neg hsettled]
      have hfew := hrested.few
      obtain h | h := effort_rested hrested <;> rw [h] <;> dsimp only <;> omega

/-- What a step leaves to be done by a task that does not run. -/
theorem work_other (h : Prompt w) (hstep : w.step env a = some w') (ha : ¬a.Moves u) :
    w'.work u ≤ w.work u ∧ (a = .expire u → 3 ≤ (w.effort u).2 → w'.work u < w.work u) := by
  obtain ⟨hpc, -, -, hrounds, -, hcancel, hexpired⟩ := step_other hstep ha
  have hstopped : (w'.tasks u).Stopped ↔ (w.tasks u).Stopped ∨ a = .cancel u ∨ a = .expire u := by
    unfold Task.Stopped
    rw [hcancel, hexpired]
    tauto
  unfold World.work
  cases hu : (w.tasks u).pc with
  | idle =>
      have hu' : (w'.tasks u).pc = .idle := hpc.trans hu
      have heffort : w.effort u = (0, 0) := by unfold World.effort; rw [hu]
      have heffort' : w'.effort u = (0, 0) := by unfold World.effort; rw [hu']
      rw [heffort, heffort']
      exact ⟨le_rfl, fun _ h => by simp at h⟩
  | finished o =>
      rw [effort_finished hu, effort_finished (hpc.trans hu)]
      exact ⟨le_rfl, fun _ h => by simp at h⟩
  | lockWait =>
      rw [effort_lockWait hu, effort_lockWait (hpc.trans hu)]
      constructor
      · by_cases hc : (w.tasks u).cancelRequested = true
        · rw [if_pos hc, if_pos (hcancel.mpr (.inl hc))]
        · rw [if_neg hc]
          split_ifs <;> dsimp only <;> omega
      · rintro rfl
        exact absurd hu (not_expire hstep).2
  | quiet =>
      rw [effort_quiet hu, effort_quiet (hpc.trans hu), hrounds]
      constructor
      · by_cases hs : (w.tasks u).Stopped
        · rw [if_pos hs, if_pos (hstopped.mpr (.inl hs))]
        · rw [if_neg hs]
          split_ifs <;> dsimp only <;> omega
      · intro hexpire hlate
        rw [if_pos (hstopped.mpr (.inr (.inr hexpire)))]
        split_ifs at hlate ⊢ <;> dsimp only at hlate ⊢ <;> omega
  | awaiting n q =>
      have hpending : w'.sess.Pending n → w.sess.Pending n := by
        intro hp
        by_contra hdone
        obtain ⟨r, -, -, f, hf, -⟩ := h.inv.awaited u n q hu
        unfold Session.Pending at hp hdone
        rw [hf] at hdone
        rw [settled_step h.inv hstep hf fun hf' => hdone (by simp [hf'])] at hp
        exact hdone hp
      rw [effort_awaiting hu, effort_awaiting (hpc.trans hu), hrounds]
      constructor
      · by_cases hs : (w.tasks u).Stopped
        · rw [if_pos hs, if_pos (hstopped.mpr (.inl hs))]
        · rw [if_neg hs]
          by_cases hp : w'.sess.Pending n
          · rw [if_pos hp, if_pos (hpending hp)]
            split_ifs <;> dsimp only <;> omega
          · rw [if_neg hp]
            split_ifs <;> dsimp only <;> omega
      · intro hexpire hlate
        rw [if_pos (hstopped.mpr (.inr (.inr hexpire)))]
        split_ifs at hlate ⊢ <;> dsimp only at hlate ⊢ <;> omega

end Effort

/-! ## The order -/

section Order

variable {env : Env} {w w' : World} {a : Action} {t u : ℕ}

/-- A task in the queue of the lock waits for those before it, unless it is cancelled. -/
theorem order_lockWait (hpc : (w.tasks t).pc = .lockWait) : w.order t =
    if (w.tasks t).cancelRequested then [t] else w.sess.commandLock.before t ++ [t] := by
  unfold World.order
  rw [hpc]

/-- A task in the lock waits for itself only. -/
theorem order_inCommand (hpc : (w.tasks t).pc.InCommand) : w.order t = [t] := by
  unfold World.order
  obtain h | h | ⟨n, q, h⟩ := Pc.OnItsWay.cases (.inr hpc)
  · rw [h] at hpc
    exact hpc.elim
  · rw [h]
  · rw [h]

/-- A task at its end waits for nobody. -/
theorem order_finished {o : Outcome} (hpc : (w.tasks t).pc = .finished o) : w.order t = [] := by
  unfold World.order
  rw [hpc]

/-- Those who come first are on their way. -/
theorem onItsWay_of_mem_order (h : Prompt w) (hmem : u ∈ w.order t) :
    (w.tasks u).pc.OnItsWay := by
  cases hpc : (w.tasks t).pc with
  | idle => simp [World.order, hpc] at hmem
  | finished o => simp [order_finished hpc] at hmem
  | lockWait =>
      have hself : (w.tasks t).pc.OnItsWay := .inl hpc
      rw [order_lockWait hpc] at hmem
      split at hmem
      · rwa [List.mem_singleton.mp hmem]
      · rcases List.mem_append.mp hmem with hmem | hmem
        · rcases List.mem_append.mp hmem with hmem | hmem
          · exact .inr ((h.inv.inside u).mp hmem)
          · exact .inl ((h.inv.waits u).mp ((List.takeWhile_sublist _).subset hmem))
        · rwa [List.mem_singleton.mp hmem]
  | quiet =>
      rw [order_inCommand (hpc ▸ trivial), List.mem_singleton] at hmem
      rw [hmem, hpc]
      exact .inr trivial
  | awaiting n q =>
      rw [order_inCommand (hpc ▸ trivial), List.mem_singleton] at hmem
      rw [hmem, hpc]
      exact .inr trivial

/-- Nobody gets in front of a task that waits for the lock. -/
theorem before_step (h : Prompt w) (hpc : (w.tasks t).pc = .lockWait)
    (hcancel : (w.tasks t).cancelRequested = false) (hstep : w.step env a = some w')
    (ha : ¬a.Moves t) :
    (w'.sess.commandLock.before t).Sublist (w.sess.commandLock.before t) := by
  have hwaits : w.sess.commandLock.Waits t := (h.inv.waits t).mpr hpc
  have hsleeps : w.sess.commandLock.Sleeps t := by
    by_contra hnot
    rw [h.cancelled t hnot] at hcancel
    cases hcancel
  have hacquire (u : ℕ) : ((w.sess.commandLock.acquire u).1.before t).Sublist
      (w.sess.commandLock.before t) := by
    rw [Lock.before_acquire hwaits hsleeps]
  cases step_change hstep with
  | @segment a u r s given seg hruns hseg =>
      have hne : u ≠ t := by
        rintro rfl
        exact ha hruns.moves
      have hstart : (s.commandLock.before t).Sublist (w.sess.commandLock.before t) := by
        cases hruns with
        | called => exact hacquire u
        | woken _ hwoken => exact h.inv.lock.before_enter hwoken hne
        | slept => exact .refl _
        | @answered u r n q =>
            have hsame : (w.sess.unregister r.channel q).commandLock = w.sess.commandLock := by
              cases hc : r.channel <;> rfl
            rw [hsame]
      obtain hlock | hlock := settle_commandLock w u seg
      · rwa [hlock, (ends_maps hseg.ends).1]
      · rw [hlock, (ends_maps hseg.ends).1]
        exact Lock.before_release.trans hstart
  | refused => exact .refl _
  | enqueued => exact hacquire _
  | @gaveUp u =>
      refine Lock.before_giveUp ?_
      rintro rfl
      exact ha (.inl rfl)
  | interrupted =>
      dsimp only
      unfold World.interrupt
      split
      · dsimp only
        rw [Lock.before_cancel]
      · exact .refl _
      · exact .refl _
  | dispatched =>
      dsimp only
      rw [(dispatch_maps env.aes w.sess w.now _).1]
  | ticked => exact .refl _
  | failed => exact .refl _
  | closing => exact .refl _
  | tornDown => exact .refl _
  | wrote => exact .refl _

/-- A task that rests is in the lock. -/
theorem Rested.inCommand {s : Session} {k : ℕ} {task : Task} (h : Rested s k task) :
    task.pc.InCommand := by
  obtain hpc | ⟨n, q, hpc, -⟩ := h.pc <;> rw [hpc] <;> trivial

/-- **Those who come first** are fewer and fewer. -/
theorem order_step (h : Prompt w) (hpc : (w.tasks t).pc ≠ .idle)
    (hstep : w.step env a = some w') : (w'.order t).Sublist (w.order t) := by
  by_cases ha : a.Moves t
  · have hself : [t].Sublist (w.order t) := by
      cases hpc' : (w.tasks t).pc with
      | idle => exact absurd hpc' hpc
      | finished o => exact absurd ha (not_moves_of_finished hstep hpc')
      | lockWait =>
          rw [order_lockWait hpc']
          split
          · exact .refl _
          · exact List.sublist_append_right _ _
      | quiet => rw [order_inCommand (hpc' ▸ trivial)]
      | awaiting n q => rw [order_inCommand (hpc' ▸ trivial)]
    cases h.turned ha hstep with
    | ended hend =>
        rw [order_finished hend]
        exact List.nil_sublist _
    | queued hidle => exact absurd hidle hpc
    | entered _ _ hrested => rwa [order_inCommand hrested.inCommand]
    | slept _ _ hrested => rwa [order_inCommand hrested.inCommand]
    | answered _ _ _ hrested => rwa [order_inCommand hrested.inCommand]
  · have hsame := step_other hstep ha
    cases hpc' : (w.tasks t).pc with
    | idle => exact absurd hpc' hpc
    | finished o =>
        rw [order_finished (hsame.pc.trans hpc')]
        exact List.nil_sublist _
    | lockWait =>
        rw [order_lockWait hpc', order_lockWait (hsame.pc.trans hpc')]
        by_cases hcancel : (w.tasks t).cancelRequested = true
        · rw [if_pos hcancel, if_pos (hsame.cancelRequested.mpr (.inl hcancel))]
        · rw [if_neg hcancel]
          split
          · exact List.sublist_append_right _ _
          · rw [Bool.not_eq_true] at hcancel
            exact (before_step h hpc' hcancel hstep ha).append_right _
    | quiet =>
        have hin : (w.tasks t).pc.InCommand := by rw [hpc']; trivial
        have hin' : (w'.tasks t).pc.InCommand := by rw [hsame.pc]; exact hin
        rw [order_inCommand hin, order_inCommand hin']
    | awaiting n q =>
        have hin : (w.tasks t).pc.InCommand := by rw [hpc']; trivial
        have hin' : (w'.tasks t).pc.InCommand := by rw [hsame.pc]; exact hin
        rw [order_inCommand hin, order_inCommand hin']

/-- The first task has only to be run, or to be woken by its timeout. -/
theorem head_order (h : Prompt w) (hway : (w.tasks t).pc.OnItsWay) :
    (w.order t).headD t ∈ w.order t ∧
      ((w.tasks ((w.order t).headD t)).pc.InCommand ∨
        (w.tasks ((w.order t).headD t)).pc = .lockWait ∧
          ((w.tasks ((w.order t).headD t)).cancelRequested = true ∨
            ((w.order t).headD t, Waiter.woken) ∈ w.sess.commandLock.waiters)) := by
  obtain hpc | hin := hway
  · rw [order_lockWait hpc]
    by_cases hcancel : (w.tasks t).cancelRequested = true
    · rw [if_pos hcancel]
      exact ⟨List.mem_singleton_self t, .inr ⟨hpc, .inl hcancel⟩⟩
    · rw [if_neg hcancel]
      obtain ⟨v, hv⟩ : ∃ v, (w.sess.commandLock.before t ++ [t]).head? = some v := by
        cases w.sess.commandLock.before t with
        | nil => exact ⟨t, rfl⟩
        | cons v rest => exact ⟨v, rfl⟩
      rw [List.headD_eq_head?_getD, hv, Option.getD_some]
      have hwaits : w.sess.commandLock.Waits t := (h.inv.waits t).mpr hpc
      refine ⟨List.mem_of_mem_head? hv, ?_⟩
      have hname (state : Waiter) (hmem : (v, state) ∈ w.sess.commandLock.waiters) :
          (w.tasks v).pc = .lockWait := (h.inv.waits v).mp (List.mem_map.mpr ⟨_, hmem, rfl⟩)
      obtain hinside | hwoken | hcancelled :=
        h.inv.lock.head_before h.awake hwaits hv
      · exact .inl ((h.inv.inside v).mp hinside)
      · exact .inr ⟨hname _ hwoken, .inr hwoken⟩
      · exact .inr ⟨hname _ hcancelled, .inl (h.cancelled v (not_not.mpr hcancelled))⟩
  · rw [order_inCommand hin]
    exact ⟨List.mem_singleton_self t, .inl hin⟩

/-- **What is owed can be done.** -/
theorem enabled_owed (h : Prompt w) (hu : (w.tasks u).pc.InCommand ∨
    (w.tasks u).pc = .lockWait ∧ ((w.tasks u).cancelRequested = true ∨
      (u, Waiter.woken) ∈ w.sess.commandLock.waiters)) :
    Enabled (World.step env) (w.owed u).Own w := by
  unfold World.owed
  obtain hin | ⟨hpc, hready⟩ := hu
  · obtain ⟨r, hr⟩ := (h.begun u).request (.inr hin)
    obtain hwait | hpc | ⟨n, q, hpc⟩ := Pc.OnItsWay.cases (.inr hin)
    · rw [hwait] at hin
      exact hin.elim
    · split
      · exact ⟨.expire u, _, rfl, by simp only [World.step, hpc]; rfl⟩
      · exact ⟨.resume u, _, rfl, by simp only [World.step, World.resume, hpc, hr]; rfl⟩
    · split
      · exact ⟨.expire u, _, rfl, by simp only [World.step, hpc]; rfl⟩
      · rename_i hlate
        have hdone : ¬w.sess.Pending n := by
          by_cases hs : (w.tasks u).Stopped
          · exact h.stopped u n q hpc hs
          · rw [effort_awaiting hpc, if_neg hs] at hlate
            intro hp
            rw [if_pos hp] at hlate
            exact hlate le_rfl
        exact ⟨.resume u, _, rfl, by
          simp only [World.step, World.resume, hpc, hr]
          exact if_neg hdone⟩
  · obtain ⟨r, hr⟩ := (h.begun u).request (.inl hpc)
    have hearly : ¬3 ≤ (w.effort u).2 := by
      rw [effort_lockWait hpc]
      split_ifs <;> simp
    rw [if_neg hearly]
    by_cases hcancel : (w.tasks u).cancelRequested = true
    · exact ⟨.resume u, _, rfl, by
        simp only [World.step, World.resume, hpc, hr]
        exact if_pos hcancel⟩
    · have hwoken := hready.resolve_left hcancel
      rw [Bool.not_eq_true] at hcancel
      exact ⟨.resume u, _, rfl, resume_woken hpc hr hcancel hwoken⟩

/-- **What is owed, done**, leaves less to do. -/
theorem work_owed (h : Prompt w) (hway : (w.tasks u).pc.OnItsWay)
    (hown : (w.owed u).Own w a) (hstep : w.step env a = some w') : w'.work u < w.work u := by
  unfold World.owed at hown
  split at hown
  · rename_i hlate
    have hown : a = .expire u := hown
    refine (work_other h hstep ?_).2 hown hlate
    rintro (rfl | ⟨cmd, rfl⟩) <;> cases hown
  · rename_i hearly
    have hown : a = .resume u := hown
    obtain hlt | ⟨-, hfour⟩ := work_turned (h.turned (.inl hown) hstep) hway
    · exact hlt
    · omega

/-- What a step leaves to be done. -/
theorem work_le (h : Prompt w) (hway : (w.tasks u).pc.OnItsWay)
    (hstep : w.step env a = some w') : w'.work u ≤ w.work u := by
  by_cases ha : a.Moves u
  · obtain hlt | ⟨heq, -⟩ := work_turned (h.turned ha hstep) hway
    · exact hlt.le
    · exact heq.le
  · exact (work_other h hstep ha).1

/-- A task that has been called is on its way until it ends. -/
theorem onItsWay_of_called (hpc : (w.tasks t).pc ≠ .idle)
    (hgoal : ¬∃ o, (w.tasks t).pc = .finished o) : (w.tasks t).pc.OnItsWay := by
  cases h : (w.tasks t).pc with
  | idle => exact absurd h hpc
  | finished o => exact absurd ⟨o, h⟩ hgoal
  | lockWait => exact .inl rfl
  | _ => exact .inr trivial

/-- A task that has been called stays so. -/
theorem called_step (h : Prompt w) (hpc : (w.tasks t).pc ≠ .idle)
    (hstep : w.step env a = some w') : (w'.tasks t).pc ≠ .idle := by
  by_cases ha : a.Moves t
  · cases h.turned ha hstep with
    | ended hend => simp [hend]
    | queued hidle => exact absurd hidle hpc
    | entered _ _ hrested => exact hrested.pc_ne.1
    | slept _ _ hrested => exact hrested.pc_ne.1
    | answered _ _ _ hrested => exact hrested.pc_ne.1
  · rwa [(step_other hstep ha).pc]

/-- From `w` to `w'` task `t` has come nearer to its end, or those who come first have as much to do
as before. -/
def World.Nearer (w w' : World) (t : ℕ) : Prop :=
  w'.rank t < w.rank t ∨ w'.order t = w.order t ∧ ∀ u ∈ w.order t, w'.work u = w.work u

/-- The rank is that of the order and of what those in it have left to do. -/
theorem rank_eq (horder : w'.order t = w.order t)
    (hwork : ∀ u ∈ w.order t, w'.work u = w.work u) : w'.rank t = w.rank t := by
  unfold World.rank
  rw [horder, List.map_congr_left hwork]

/-- **A step brings a task nearer** to its end. -/
theorem nearer_step (h : Prompt w) (hpc : (w.tasks t).pc ≠ .idle)
    (hstep : w.step env a = some w') : w.Nearer w' t := by
  have hsub := order_step h hpc hstep
  unfold World.Nearer World.rank
  exact sum_lt_or_eq hsub
    (fun u hu => work_le h (onItsWay_of_mem_order h (hsub.subset hu)) hstep)
    fun u hu => work_pos (onItsWay_of_mem_order h hu)

/-- Nearer, or what is owed is the same. -/
theorem World.Nearer.falls (hnear : w.Nearer w' t) (h : Prompt w) (h' : Prompt w')
    (hway : (w.tasks t).pc.OnItsWay) :
    w'.rank t < w.rank t ∨ w'.rank t = w.rank t ∧ w'.duty t = w.duty t := by
  obtain hlt | ⟨horder, hwork⟩ := hnear
  · exact .inl hlt
  have hfirst := (head_order h hway).1
  have hway₁ := onItsWay_of_mem_order h hfirst
  have hway₂ : (w'.tasks ((w.order t).headD t)).pc.OnItsWay :=
    onItsWay_of_mem_order (t := t) h' (by rwa [horder])
  refine .inr ⟨rank_eq horder hwork, ?_⟩
  unfold World.duty World.owed
  rw [horder, effort_eq_of_work hway₁ hway₂ (hwork _ hfirst)]

/-- What is owed, done, brings the rank down. -/
theorem rank_owed (h : Prompt w) (hway : (w.tasks t).pc.OnItsWay) (hown : (w.duty t).Own w a)
    (hstep : w.step env a = some w') : w'.rank t < w.rank t := by
  have hfirst := (head_order h hway).1
  obtain hlt | ⟨-, hwork⟩ := nearer_step h hway.ne_idle hstep
  · exact hlt
  · have hlt := work_owed h (onItsWay_of_mem_order h hfirst) hown hstep
    exact absurd (hwork _ hfirst) hlt.ne

/-- **What is left to do** before a command ends gets less when what is owed is done, and never
more. -/
theorem ranking (env : Env) (t : ℕ) :
    Ranking (World.step env) Duty.Own (fun w => Prompt w ∧ (w.tasks t).pc.OnItsWay)
      (fun w => ∃ o, (w.tasks t).pc = .finished o) (fun w => w.duty t) (fun w => w.rank t) where
  falls w a w' := by
    rintro ⟨h, hway⟩ hstep
    have h' := prompt_step h hstep
    by_cases hgoal : ∃ o, (w'.tasks t).pc = .finished o
    · exact .inl hgoal
    refine .inr ⟨⟨h', onItsWay_of_called (called_step h hway.ne_idle hstep) hgoal⟩, ?_⟩
    obtain hlt | ⟨hrank, hduty⟩ := (nearer_step h hway.ne_idle hstep).falls h h' hway
    · exact .inl hlt
    · exact .inr ⟨hrank, hduty, fun hown => (rank_owed h hway hown hstep).ne hrank⟩
  enabled w := by
    rintro ⟨h, hway⟩
    exact enabled_owed h (head_order h hway).2

end Order

/-! ## The theorem -/

/-- **Every command comes to its end**, in every run that gives each task its turn and fires each
timeout, whatever arrives from the panel and whenever the connection is lost. -/
theorem ended_of_called (env : Env) (panelId receiverId : ℤ) (key : Option Bytes) (now : ℚ)
    (σ : ℕ → World) (α : ℕ → Action) (hpath : IsPath (World.step env) σ α)
    (hstart : σ 0 = World.new panelId receiverId key now)
    (hfair : ∀ d, WeakFair (World.step env) (Duty.Own d) σ α) (t n : ℕ)
    (hcalled : ((σ n).tasks t).pc ≠ .idle) :
    ∃ m, n ≤ m ∧ ∃ o, ((σ m).tasks t).pc = .finished o := by
  have hprompt : Prompt (σ n) := by
    have hreach := hpath.reachable n
    rw [hstart] at hreach
    exact hreach.invariant (fun _ _ _ h hstep => prompt_step h hstep)
      (prompt_new panelId receiverId key now)
  by_cases hend : ∃ o, ((σ n).tasks t).pc = .finished o
  · exact ⟨n, le_rfl, hend⟩
  · exact hpath.leadsTo hfair (ranking env t) n ⟨hprompt, onItsWay_of_called hcalled hend⟩

/-- A command to a panel that sends nothing: its timeout fires, and the clock goes on. -/
def unansweredActions : ℕ → Action
  | 0 => .call 0 (.binary 1 1 5)
  | 1 => .expire 0
  | 2 => .resume 0
  | _ => .tick 0

def unansweredPath : ℕ → World
  | 0 => World.new 1 1 none 1
  | n + 1 => ((unansweredPath n).step clearEnv (unansweredActions n)).getD (unansweredPath n)

/-- The path is one of the session. -/
theorem unansweredPath_isPath :
    IsPath (World.step clearEnv) unansweredPath unansweredActions := by
  intro n
  have hsome : ((unansweredPath n).step clearEnv (unansweredActions n)).isSome := by
    match n with
    | 0 | 1 | 2 => decide +kernel
    | n + 3 => rfl
  obtain ⟨w, hstep⟩ := Option.isSome_iff_exists.mp hsome
  rw [unansweredPath, hstep, Option.getD_some]

/-- No task is on its way once the clock alone goes on. -/
theorem unansweredPath_over (n t : ℕ) : ¬((unansweredPath (n + 3)).tasks t).pc.OnItsWay := by
  cases t with
  | zero =>
      induction n with
      | zero => decide +kernel
      | succ n ih => exact ih
  | succ t =>
      have hidle (n : ℕ) : ((unansweredPath n).tasks (t + 1)).pc = .idle := by
        induction n with
        | zero => rfl
        | succ n ih =>
            rw [← ih]
            refine (step_other (unansweredPath_isPath n) ?_).pc
            match n with
            | 0 | 1 | 2 | n + 3 => simp [unansweredActions, Action.Moves]
      rw [hidle]
      decide

/-- The path is fair to every duty. -/
theorem unansweredPath_fair (d : Duty) :
    WeakFair (World.step clearEnv) d.Own unansweredPath unansweredActions := by
  intro n henabled
  obtain ⟨a, w, hown, hstep⟩ := henabled (n + 3) (by omega)
  have hover := unansweredPath_over n
  generalize unansweredPath (n + 3) = v at hover hstep
  cases d with
  | run t =>
      obtain rfl : a = .resume t := hown
      refine absurd ?_ (hover t)
      cases hpc : (v.tasks t).pc with
      | idle => simp [World.step, World.resume, hpc] at hstep
      | finished o => simp [World.step, World.resume, hpc] at hstep
      | lockWait => exact .inl rfl
      | _ => exact .inr trivial
  | timeout t =>
      obtain rfl : a = .expire t := hown
      refine absurd ?_ (hover t)
      cases hpc : (v.tasks t).pc with
      | idle => simp [World.step, hpc] at hstep
      | finished o => simp [World.step, hpc] at hstep
      | lockWait => exact .inl rfl
      | _ => exact .inr trivial

/-- The command that is not answered comes to its end. -/
theorem ended_of_called_unanswered :
    ((unansweredPath 1).tasks 0).pc ≠ .idle ∧
      ∃ m, 1 ≤ m ∧ ∃ o, ((unansweredPath m).tasks 0).pc = .finished o := by
  have hcalled : ((unansweredPath 1).tasks 0).pc ≠ .idle := by
    have hway : ((unansweredPath 1).tasks 0).pc.OnItsWay := by decide +kernel
    intro hidle
    rw [hidle] at hway
    exact absurd hway (by decide)
  exact ⟨hcalled, ended_of_called clearEnv 1 1 none 1 unansweredPath unansweredActions
    unansweredPath_isPath rfl unansweredPath_fair 0 1 hcalled⟩

end Spcedp.Client
