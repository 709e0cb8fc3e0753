import Spcedp.Analysis.TheoremAdmission
import Spcedp.Analysis.TaskRuns

/-!
# What stops a command

A segment of a command ends it, or leaves it inside the lock with its timeout running (`Rests`);
so does every step of its own (`step_turned`). A task that has been cancelled, or whose timeout has
fired, does not wait for anything any more (`Prompt`, `prompt_step`).
-/

set_option autoImplicit false

namespace Spcedp.Client

open Lib.FairLock Lib.Transition Spcedp.Wire Spcedp.Xmlcmd

/-! ## Tasks that are stopped -/

/-- A task has been cancelled, or its timeout has fired. -/
def Task.Stopped (task : Task) : Prop := task.cancelRequested = true ∨ task.expired = true

instance (task : Task) : Decidable task.Stopped := by unfold Task.Stopped; infer_instance

/-- The future `n` is still to be completed. -/
def Session.Pending (s : Session) (n : ℕ) : Prop :=
  (s.futures[n]?).map Future.state = some .pending

instance (s : Session) (n : ℕ) : Decidable (s.Pending n) := by
  unfold Session.Pending; infer_instance

/-- Inside the lock, and not stopped, with `k` rounds behind it. -/
structure Rested (s : Session) (k : ℕ) (task : Task) : Prop where
  going : ¬task.Stopped
  rounds : task.rounds = k
  few : k < maxXmlFragments
  pc : task.pc = .quiet ∨ ∃ n q, task.pc = .awaiting n q ∧ s.Pending n

/-- A segment ends the command, or leaves it inside the lock. -/
def Rests (k : ℕ) (seg : Segment) : Prop :=
  (∃ o, seg.2.pc = .finished o) ∨ Rested seg.1 k seg.2

section Segments

variable (env : Env) (now : ℚ) {s : Session} {task : Task} {r : Request}

/-- A task that sends its request ends, or rests in its `await`. -/
theorem sendRequest_rests (hgoing : ¬task.Stopped) (hfew : task.rounds < maxXmlFragments) :
    Rests task.rounds (sendRequest env s task r) := by
  unfold sendRequest
  dsimp only
  split
  · exact .inl ⟨_, rfl⟩
  · split
    · exact .inl ⟨_, rfl⟩
    · rename_i s' hsend
      refine .inr ⟨hgoing, rfl, hfew, .inr ⟨_, _, rfl, ?_⟩⟩
      have hfutures : s'.futures = s.futures ++ [⟨.pending, r.channel, s.allocSeq.2⟩] := by
        obtain ⟨data, g, -, ⟨-, rfl⟩ | ⟨-, warned, rfl⟩⟩ := Session.send_cases hsend <;>
          cases r.channel <;> rfl
      have hlast : s'.futures[s.futures.length]? =
          some ⟨.pending, r.channel, s.allocSeq.2⟩ := by
        rw [hfutures, List.getElem?_concat_length]
      exact congrArg (Option.map Future.state) hlast

/-- A task that waits to send ends, or rests asleep or in its `await`. -/
theorem waitToSend_rests (hgoing : ¬task.Stopped) (hfew : task.rounds < maxXmlFragments) :
    Rests task.rounds (waitToSend env now s task r) := by
  unfold waitToSend
  split
  · split
    · exact .inl ⟨_, rfl⟩
    · exact .inr ⟨hgoing, rfl, hfew, .inl rfl⟩
  · split
    · exact .inl ⟨_, rfl⟩
    · exact sendRequest_rests env hgoing hfew

/-- A task that has got the lock ends, or rests in its first round. -/
theorem enterCommand_rests (hcancel : task.cancelRequested = false) :
    Rests 0 (enterCommand env now s task r) := by
  unfold enterCommand
  split
  · exact .inl ⟨_, rfl⟩
  · have hgoing : ¬Task.Stopped { task with assembler := [], rounds := 0, expired := false } := by
      simp [Task.Stopped, hcancel]
    exact waitToSend_rests env now hgoing (Nat.succ_pos 63)

/-- A task that has slept ends, or rests in the same round. -/
theorem wakeQuiet_rests (hfew : task.rounds < maxXmlFragments) :
    (∃ o, (wakeQuiet env now s task r).2.pc = .finished o) ∨
      ¬task.Stopped ∧ Rests task.rounds (wakeQuiet env now s task r) := by
  unfold wakeQuiet
  by_cases hcancel : task.cancelRequested = true
  · rw [if_pos hcancel]
    exact .inl ⟨_, rfl⟩
  rw [if_neg hcancel]
  by_cases hexpired : task.expired = true
  · rw [if_pos hexpired]
    exact .inl ⟨_, rfl⟩
  rw [if_neg hexpired]
  have hgoing : ¬task.Stopped := by
    rintro (h | h)
    · exact hcancel h
    · exact hexpired h
  exact .inr ⟨hgoing, waitToSend_rests env now hgoing hfew⟩

/-- A reply ends the task, or leads to its next round. -/
theorem handleReply_rests (hgoing : ¬task.Stopped) (payload : Bytes) :
    Rests (task.rounds + 1) (handleReply env now s task r payload) := by
  unfold handleReply
  cases r with
  | xml commandId timeout attrs =>
      dsimp only
      split
      · exact .inl ⟨_, rfl⟩
      · split <;> exact .inl ⟨_, rfl⟩
      · rename_i buf hassemble
        split
        · rename_i hmore
          have hgoing' : ¬Task.Stopped
              { task with assembler := buf, rounds := task.rounds + 1, expired := false } := by
            rintro (h | h)
            · exact hgoing (.inl h)
            · cases h
          exact waitToSend_rests env now hgoing' hmore
        · exact .inl ⟨_, rfl⟩
  | binary op targetId timeout =>
      dsimp only
      split
      · exact .inl ⟨_, rfl⟩
      · split <;> exact .inl ⟨_, rfl⟩

/-- A task that is woken from its `await` ends, or goes on to its next round. -/
theorem wakeAwaiting_rests (n : ℕ) (q : ℤ) :
    (∃ o, (wakeAwaiting env now s task r n q).2.pc = .finished o) ∨
      ¬task.Stopped ∧ Rests (task.rounds + 1) (wakeAwaiting env now s task r n q) := by
  unfold wakeAwaiting
  dsimp only
  by_cases hcancel : task.cancelRequested = true
  · rw [if_pos hcancel]
    exact .inl ⟨_, rfl⟩
  rw [if_neg hcancel]
  by_cases hexpired : task.expired = true
  · rw [if_pos hexpired]
    exact .inl ⟨_, rfl⟩
  rw [if_neg hexpired]
  have hgoing : ¬task.Stopped := by
    rintro (h | h)
    · exact hcancel h
    · exact hexpired h
  cases (s.futures[n]?).map Future.state with
  | none => exact .inl ⟨_, rfl⟩
  | some state =>
      cases state with
      | result payload => exact .inr ⟨hgoing, handleReply_rests env now hgoing payload⟩
      | pending => exact .inl ⟨_, rfl⟩
      | failed e => exact .inl ⟨_, rfl⟩
      | cancelled => exact .inl ⟨_, rfl⟩

end Segments

/-! ## Steps of a task -/

/-- What a step of its own does with task `t`. -/
inductive Turned (w : World) (t : ℕ) (w' : World) : Prop
  | ended {o} : (w'.tasks t).pc = .finished o → Turned w t w'
  | queued : (w.tasks t).pc = .idle → (w'.tasks t).pc = .lockWait →
      (w'.tasks t).cancelRequested = (w.tasks t).cancelRequested → Turned w t w'
  | entered : (w.tasks t).pc = .idle ∨ (w.tasks t).pc = .lockWait →
      (w.tasks t).cancelRequested = false → Rested w'.sess 0 (w'.tasks t) → Turned w t w'
  | slept : (w.tasks t).pc = .quiet → ¬(w.tasks t).Stopped →
      Rested w'.sess (w.tasks t).rounds (w'.tasks t) → Turned w t w'
  | answered {n q} : (w.tasks t).pc = .awaiting n q → ¬(w.tasks t).Stopped → ¬w.sess.Pending n →
      Rested w'.sess ((w.tasks t).rounds + 1) (w'.tasks t) → Turned w t w'

section Steps

variable {env : Env} {w w' : World} {a : Action} {t : ℕ}

/-- A segment, stored. -/
theorem rested_settle {k : ℕ} {seg : Segment} (h : Rests k seg) :
    (∃ o, ((w.settle t seg).tasks t).pc = .finished o) ∨
      Rested (w.settle t seg).sess k ((w.settle t seg).tasks t) := by
  rw [settle_tasks, Function.update_self]
  obtain hend | ⟨hgoing, hrounds, hfew, hpc⟩ := h
  · exact .inl hend
  · refine .inr ⟨hgoing, hrounds, hfew, hpc.imp_right ?_⟩
    rintro ⟨n, q, hpc, hpending⟩
    refine ⟨n, q, hpc, ?_⟩
    unfold Session.Pending at hpending ⊢
    rwa [(settle_same w t seg).futures]

/-- **Every step of its own is one of these.** -/
theorem step_turned (hfresh : (w.tasks t).pc = .idle → (w.tasks t).cancelRequested = false)
    (hfew : (w.tasks t).pc.InCommand → (w.tasks t).rounds < maxXmlFragments) (ha : a.Moves t)
    (hstep : w.step env a = some w') : Turned w t w' := by
  have hended {task : Task} {o : Outcome} (hpc : task.pc = .finished o) :
      (Function.update w.tasks t task t).pc = .finished o := by
    rw [Function.update_self]
    exact hpc
  have hentered {seg : Segment} (hpc : (w.tasks t).pc = .idle ∨ (w.tasks t).pc = .lockWait)
      (hcancel : (w.tasks t).cancelRequested = false) (hrests : Rests 0 seg) :
      Turned w t (w.settle t seg) := by
    obtain ⟨o, hend⟩ | hrested := rested_settle hrests
    · exact .ended hend
    · exact .entered hpc hcancel hrested
  obtain rfl | ⟨cmd, rfl⟩ := ha
  · simp only [World.step, World.resume] at hstep
    split at hstep
    · rename_i r hpc hr
      split at hstep
      · cases hstep
        exact .ended (hended rfl)
      · rename_i hcancel
        rw [Bool.not_eq_true] at hcancel
        split at hstep
        · cases hstep
          exact hentered (.inr hpc) hcancel (enterCommand_rests env w.now hcancel)
        · cases hstep
    · rename_i r hpc hr
      cases hstep
      obtain ⟨o, hend⟩ | ⟨hgoing, hrests⟩ := wakeQuiet_rests env w.now (hfew (hpc ▸ trivial))
      · exact .ended (hended hend)
      · obtain ⟨o, hend⟩ | hrested := rested_settle hrests
        · exact .ended hend
        · exact .slept hpc hgoing hrested
    · rename_i n q r hpc hr
      split at hstep
      · cases hstep
      · rename_i hsettled
        cases hstep
        obtain ⟨o, hend⟩ | ⟨hgoing, hrests⟩ := wakeAwaiting_rests env w.now n q
        · exact .ended (hended hend)
        · obtain ⟨o, hend⟩ | hrested := rested_settle hrests
          · exact .ended hend
          · exact .answered hpc hgoing hsettled hrested
    · cases hstep
  · simp only [World.step] at hstep
    split at hstep
    · rename_i hpc
      have hcall := Option.some.inj hstep
      unfold World.call at hcall
      split at hcall
      · subst hcall
        exact .ended (hended rfl)
      · dsimp only at hcall
        split at hcall
        · subst hcall
          refine hentered (.inl hpc) (hfresh hpc) (enterCommand_rests env w.now ?_)
          exact hfresh hpc
        · subst hcall
          refine .queued hpc ?_ ?_ <;>
          · dsimp only
            rw [Function.update_self]
    · cases hstep

/-- A future that is completed stays as it is. -/
theorem settled_step (hinv : Inv w) (hstep : w.step env a = some w') {n : ℕ} {f : Future}
    (hf : w.sess.futures[n]? = some f) (hdone : f.state ≠ .pending) :
    w'.sess.futures[n]? = some f := by
  cases step_change hstep with
  | @segment a t r s given seg hruns hseg =>
      rw [(settle_same w t seg).futures]
      obtain ⟨-, hsame | hreg⟩ := ends_maps hseg.ends
      · rw [hsame.1.futures, (runs_inside hinv hruns).futures, hf]
      · rw [hreg.1.futures, (runs_inside hinv hruns).futures,
          List.getElem?_append_left (List.getElem?_eq_some_iff.mp hf).1, hf]
  | refused => exact hf
  | enqueued => exact hf
  | gaveUp => exact hf
  | interrupted =>
      dsimp only
      unfold World.interrupt
      split
      · exact hf
      · dsimp only
        rw [complete_getElem?, hf, Option.map_some, if_neg fun h => hdone h.2]
      · exact hf
  | dispatched => exact (settles_dispatch env.aes w.sess w.now _).settled.futures n f hf hdone
  | ticked => exact hf
  | failed => exact (settles_failPending _ _).settled.futures n f hf hdone
  | closing => exact hf
  | tornDown => exact (settles_failPending _ _).settled.futures n f hf hdone
  | wrote => exact hf

/-! ## The invariant -/

/-- Whoever is stopped can go on at once. -/
structure Prompt (w : World) : Prop where
  inv : Inv w
  awake : w.sess.commandLock.Awake
  begun : ∀ t, Begun (w.tasks t)
  fresh : ∀ t, (w.tasks t).pc = .idle → (w.tasks t).cancelRequested = false
  few : ∀ t, (w.tasks t).pc.InCommand → (w.tasks t).rounds < maxXmlFragments
  cancelled : ∀ t, ¬w.sess.commandLock.Sleeps t → (w.tasks t).cancelRequested = true
  stopped : ∀ t n q, (w.tasks t).pc = .awaiting n q → (w.tasks t).Stopped → ¬w.sess.Pending n

/-- On a new session no task has begun. -/
theorem prompt_new (panelId receiverId : ℤ) (key : Option Bytes) (now : ℚ) :
    Prompt (World.new panelId receiverId key now) where
  inv := inv_new panelId receiverId key now
  awake := Lock.awake_empty
  begun _ := begun_new
  fresh _ _ := rfl
  few _ h := h.elim
  cancelled _ h := absurd (by simp [World.new, Lock.Sleeps]) h
  stopped _ _ _ := nofun

/-- Idle tasks, and those that wait for the lock, are not asked to stop by a timeout. -/
theorem not_expire (hstep : w.step env (.expire t) = some w') :
    (w.tasks t).pc ≠ .idle ∧ (w.tasks t).pc ≠ .lockWait := by
  constructor <;> intro hpc <;> simp [World.step, hpc] at hstep

/-- Only a task that has begun can be cancelled. -/
theorem not_cancel (hstep : w.step env (.cancel t) = some w') : (w.tasks t).pc ≠ .idle := by
  intro hpc
  simp [World.step, hpc] at hstep

/-- What a task does at its turn. -/
theorem Prompt.turned (h : Prompt w) (ha : a.Moves t) (hstep : w.step env a = some w') :
    Turned w t w' := step_turned (h.fresh t) (h.few t) ha hstep

/-- A task that rests is neither idle nor in the queue of the lock. -/
theorem Rested.pc_ne {s : Session} {k : ℕ} {task : Task} (h : Rested s k task) :
    task.pc ≠ .idle ∧ task.pc ≠ .lockWait := by
  obtain hpc | ⟨n, q, hpc, -⟩ := h.pc <;> constructor <;> simp [hpc]

/-- A task has run into `awaiting` only if nobody had stopped it. -/
theorem Turned.going (h : Turned w t w') (hin : (w'.tasks t).pc.InCommand) :
    ∃ k, Rested w'.sess k (w'.tasks t) := by
  cases h with
  | ended hpc => rw [hpc] at hin; exact hin.elim
  | queued _ hpc => rw [hpc] at hin; exact hin.elim
  | entered _ _ hrested => exact ⟨_, hrested⟩
  | slept _ _ hrested => exact ⟨_, hrested⟩
  | answered _ _ _ hrested => exact ⟨_, hrested⟩

/-- The fields of `Prompt` about a task that runs. -/
theorem Prompt.step_fresh (h : Prompt w) (hstep : w.step env a = some w')
    (hidle : (w'.tasks t).pc = .idle) : (w'.tasks t).cancelRequested = false := by
  by_cases ha : a.Moves t
  · exfalso
    cases h.turned ha hstep with
    | ended hpc => simp [hpc] at hidle
    | queued _ hpc => simp [hpc] at hidle
    | entered _ _ hrested => exact hrested.pc_ne.1 hidle
    | slept _ _ hrested => exact hrested.pc_ne.1 hidle
    | answered _ _ _ hrested => exact hrested.pc_ne.1 hidle
  · have hsame := step_other hstep ha
    have hpc : (w.tasks t).pc = .idle := hsame.pc ▸ hidle
    rw [← Bool.not_eq_true, hsame.cancelRequested]
    rintro (hcancel | rfl)
    · rw [h.fresh t hpc] at hcancel
      cases hcancel
    · exact not_cancel hstep hpc

/-- A sleep in the queue of the lock is cancelled only for a task that was cancelled. -/
theorem Prompt.step_cancelled (h : Prompt w) (hinv : Inv w') (hstep : w.step env a = some w')
    (hcancelled : ¬w'.sess.commandLock.Sleeps t) : (w'.tasks t).cancelRequested = true := by
  have hpc : (w'.tasks t).pc = .lockWait := by
    rw [← hinv.waits t]
    exact List.mem_map.mpr ⟨_, not_not.mp hcancelled, rfl⟩
  by_cases ha : a.Moves t
  · cases h.turned ha hstep with
    | ended hend => simp [hpc] at hend
    | queued hidle =>
        -- it has just queued up, and nobody has cancelled it
        exfalso
        have hsleeps : w.sess.commandLock.Sleeps t := by
          intro hmem
          have hwaits := (h.inv.waits t).mp (List.mem_map.mpr ⟨_, hmem, rfl⟩)
          rw [hidle] at hwaits
          cases hwaits
        refine hcancelled (step_lock (P := fun l => l.Sleeps t) (fun _ u hl => hl.acquire u)
          (fun _ u hl => hl.dequeue u) (fun _ u hl => hl.release u) (fun _ u hl => hl.giveUp u)
          (fun _ u hask _ => ?_) hstep hsleeps)
        obtain rfl | ⟨cmd, rfl⟩ := ha <;> simp at hask
    | entered _ _ hrested => exact absurd hpc hrested.pc_ne.2
    | slept _ _ hrested => exact absurd hpc hrested.pc_ne.2
    | answered _ _ _ hrested => exact absurd hpc hrested.pc_ne.2
  · have hsame := step_other hstep ha
    rw [hsame.cancelRequested]
    by_cases hcancel : a = .cancel t
    · exact .inr hcancel
    · refine .inl (h.cancelled t fun hsleeps => hcancelled ?_)
      refine step_lock (P := fun l => l.Sleeps t) (fun _ u hl => hl.acquire u)
        (fun _ u hl => hl.dequeue u) (fun _ u hl => hl.release u) (fun _ u hl => hl.giveUp u)
        (fun _ u hask hl => hl.cancel ?_) hstep hsleeps
      rintro rfl
      obtain rfl | rfl := hask
      · exact hcancel rfl
      · exact (not_expire hstep).2 (hsame.pc ▸ hpc)

/-- **A task that must stop** awaits no pending future: the cancellation or the timeout has settled
it. -/
theorem Prompt.step_stopped (h : Prompt w) (hstep : w.step env a = some w') {n : ℕ} {q : ℤ}
    (hpc : (w'.tasks t).pc = .awaiting n q) (hstopped : (w'.tasks t).Stopped) :
    ¬w'.sess.Pending n := by
  by_cases ha : a.Moves t
  · obtain ⟨k, hrested⟩ := (h.turned ha hstep).going (hpc ▸ trivial)
    exact absurd hstopped hrested.going
  · have hsame := step_other hstep ha
    have hpc₀ : (w.tasks t).pc = .awaiting n q := hsame.pc ▸ hpc
    by_cases hask : a = .cancel t ∨ a = .expire t
    · have hfutures : w'.sess.futures = complete w.sess.futures n .cancelled := by
        obtain rfl | rfl := hask <;>
        · simp only [World.step, hpc₀, Option.some.injEq] at hstep
          rw [← hstep]
          simp [World.interrupt, hpc₀]
      unfold Session.Pending
      rw [hfutures, complete_getElem?]
      cases w.sess.futures[n]? with
      | none => simp
      | some f => by_cases hf : f.state = .pending <;> simp [hf]
    · have hstopped₀ : (w.tasks t).Stopped := by
        unfold Task.Stopped at hstopped ⊢
        rw [hsame.cancelRequested, hsame.expired] at hstopped
        rw [not_or] at hask
        simpa [hask.1, hask.2] using hstopped
      obtain ⟨r, -, -, f, hf, -⟩ := h.inv.awaited t n q hpc₀
      have hpending := h.stopped t n q hpc₀ hstopped₀
      unfold Session.Pending at hpending ⊢
      rw [hf] at hpending
      rw [settled_step h.inv hstep hf fun hp => hpending (by simp [hp])]
      exact hpending

/-- **Every step keeps it.** -/
theorem prompt_step (h : Prompt w) (hstep : w.step env a = some w') : Prompt w' := by
  have hcoherent : Coherent w.sess.key w := ⟨h.inv, h.awake, rfl, h.begun⟩
  obtain ⟨hinv, hawake, -, hbegun⟩ := hcoherent.step hstep
  refine ⟨hinv, hawake, hbegun, fun t => h.step_fresh hstep, fun t hin => ?_,
    fun t => h.step_cancelled hinv hstep, fun t n q => h.step_stopped hstep⟩
  by_cases ha : a.Moves t
  · obtain ⟨k, hrested⟩ := (h.turned ha hstep).going hin
    rw [hrested.rounds]
    exact hrested.few
  · have hsame := step_other hstep ha
    rw [hsame.rounds]
    exact h.few t (hsame.pc ▸ hin)

end Steps

end Spcedp.Client
