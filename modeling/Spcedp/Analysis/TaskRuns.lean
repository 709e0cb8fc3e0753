import Spcedp.Analysis.Futures
import Spcedp.Analysis.History
import Spcedp.Interface.Outcomes

/-!
# A task along a run

What the lock keeps along a step (`step_lock`), what the fields of a task say about its call at
any time (`Begun`), and both along a whole run (`coherent_of_run`). A task is stopped, and a
future fails or is cancelled, only by an action of the run that asks for it
(`cancel_mem_of_run`, `failed_of_run`, `stopped_of_run`).
-/

set_option autoImplicit false

namespace Spcedp.Client

open Lib.FairLock Lib.Transition Spcedp.Wire

/-! ## The lock -/

/-- Storing a segment may release the lock. -/
theorem settle_commandLock (w : World) (t : ℕ) (seg : Segment) :
    (w.settle t seg).sess.commandLock = seg.1.commandLock ∨
      (w.settle t seg).sess.commandLock = seg.1.commandLock.release t := by
  obtain ⟨s, task⟩ := seg
  unfold World.settle
  dsimp only
  split
  · exact .inr rfl
  · exact .inl rfl

/-- Whether the session is closed is up to the segment. -/
theorem settle_closed (w : World) (t : ℕ) (seg : Segment) :
    (w.settle t seg).sess.closed = seg.1.closed := by
  obtain ⟨lock, hsess⟩ := settle_session w t seg
  rw [hsess]

/-- **The lock along a step**: what every operation on it keeps, a step keeps. -/
theorem step_lock {env : Env} {w w' : World} {a : Action} {P : Lock ℕ → Prop}
    (hacquire : ∀ l u, P l → P (l.acquire u).1) (henter : ∀ l u, P l → P (l.enter u))
    (hrelease : ∀ l u, P l → P (l.release u)) (hgiveUp : ∀ l u, P l → P (l.giveUp u))
    (hcancel : ∀ l u, a = .cancel u ∨ a = .expire u → P l → P (l.cancel u))
    (hstep : w.step env a = some w') (h : P w.sess.commandLock) : P w'.sess.commandLock := by
  cases step_change hstep with
  | @segment a t r s given seg hruns hseg =>
      have hstart : P s.commandLock := by
        cases hruns with
        | called => exact hacquire _ _ h
        | woken => exact henter _ _ h
        | slept => exact h
        | @answered t r n q =>
            have hsame : (w.sess.unregister r.channel q).commandLock = w.sess.commandLock := by
              cases hc : r.channel <;> rfl
            rwa [hsame]
      obtain hlock | hlock := settle_commandLock w t seg
      · rwa [hlock, (ends_maps hseg.ends).1]
      · rw [hlock, (ends_maps hseg.ends).1]
        exact hrelease _ _ hstart
  | refused => exact h
  | enqueued => exact hacquire _ _ h
  | gaveUp => exact hgiveUp _ _ h
  | @interrupted a u task hstop =>
      dsimp only
      unfold World.interrupt
      split
      · exact hcancel _ _ hstop h
      · exact h
      · exact h
  | dispatched =>
      dsimp only
      rwa [(dispatch_maps env.aes w.sess w.now _).1]
  | ticked => exact h
  | failed => exact h
  | closing => exact h
  | tornDown => exact h
  | wrote => exact h

/-! ## A task and its call -/

/-- A task that has not been called is new, one that is on its way has a request, and only a
request that can be built is sent. -/
structure Begun (task : Task) : Prop where
  idle : task.pc = .idle → task.request = none ∧ task.lastRequest = none
  request : task.pc = .lockWait ∨ task.pc.InCommand → ∃ r, task.request = some r
  lockWait : task.pc = .lockWait → task.lastRequest = none
  built : task.lastRequest ≠ none →
    ∃ r continuation payload, task.request = some r ∧ r.payload continuation = .ok payload

section

variable {env : Env} {w w' : World} {a : Action} {t : ℕ}

/-- A new task has no request, and has not begun. -/
theorem begun_new : Begun {} :=
  ⟨fun _ => ⟨rfl, rfl⟩, by simp [Pc.InCommand], fun _ => rfl, fun h => absurd rfl h⟩

/-- **Every step** keeps it: whoever is on its way has its request. -/
theorem begun_step (hbegun : Begun (w.tasks t)) (hstep : w.step env a = some w') :
    Begun (w'.tasks t) := by
  by_cases ha : a.Moves t
  · cases step_moved hstep ha with
    | refused hpc =>
        dsimp only
        rw [Function.update_self]
        exact ⟨by simp, by simp [Pc.InCommand], by simp, hbegun.built⟩
    | @enqueued r lock hpc =>
        have hlast := (hbegun.idle hpc).2
        dsimp only
        rw [Function.update_self]
        exact ⟨by simp, fun _ => ⟨r, rfl⟩, fun _ => hlast, fun h => absurd hlast h⟩
    | gaveUp hpc =>
        dsimp only
        rw [Function.update_self]
        exact ⟨by simp, by simp [Pc.InCommand], by simp, hbegun.built⟩
    | @ran r s given seg hr hruns hseg hlaw =>
        rw [settle_tasks, Function.update_self]
        have hpc : seg.2.pc ≠ .idle ∧ seg.2.pc ≠ .lockWait := by
          obtain h | ⟨o, h⟩ := hseg.ends.pc_cases
          · constructor <;> intro hpc <;> rw [hpc] at h <;> exact h
          · rw [h]
            constructor <;> simp
        refine ⟨fun h => absurd h hpc.1, fun _ => ⟨r, hseg.request⟩, fun h => absurd h hpc.2,
          fun hlast => ?_⟩
        obtain hsame | ⟨continuation, payload, hpayload⟩ := hlaw.built
        · rw [hsame] at hlast
          obtain ⟨r', continuation, payload, hr', hpayload⟩ := hbegun.built hlast
          obtain hidle | hr := hr
          · exact absurd (hbegun.idle hidle).2 hlast
          · rw [hr, Option.some.injEq] at hr'
            exact ⟨r, continuation, payload, hseg.request, hr' ▸ hpayload⟩
        · exact ⟨r, continuation, payload, hseg.request, hpayload⟩
  · obtain ⟨hpc, hreq, -, -, hlast, -, -⟩ := step_other hstep ha
    refine ⟨?_, ?_, ?_, ?_⟩
    · rw [hpc, hreq, hlast]
      exact hbegun.idle
    · rw [hpc, hreq]
      exact hbegun.request
    · rw [hpc, hlast]
      exact hbegun.lockWait
    · rw [hreq, hlast]
      exact hbegun.built

/-- A call is that of one request from its start to its end. -/
theorem request_step (hbegun : Begun (w.tasks t)) (hstep : w.step env a = some w') {r : Request}
    (hr : (w.tasks t).request = some r) : (w'.tasks t).request = some r := by
  by_cases ha : a.Moves t
  · have hidle : (w.tasks t).pc ≠ .idle := by
      intro h
      rw [(hbegun.idle h).1] at hr
      cases hr
    cases step_moved hstep ha with
    | refused hpc => exact absurd hpc hidle
    | enqueued hpc => exact absurd hpc hidle
    | gaveUp hpc =>
        dsimp only
        rw [Function.update_self]
        exact hr
    | ran hr' hruns hseg hlaw =>
        rw [settle_tasks, Function.update_self, hseg.request, ← hr, hr'.resolve_left hidle]
  · rw [(step_other hstep ha).request, hr]

/-- A segment keeps the last request, or makes another. -/
theorem Ends.last_cases {now : ℚ} {s s' : Session} {r : Request} {given : Option Bytes}
    {last last' : Option (Frame × ℕ)} {pc : Pc} (h : Ends env now s r given last s' pc last') :
    last' = last ∨ last' ≠ none := by
  cases h with
  | stopped => exact .inl rfl
  | asleep => exact .inl rfl
  | unbuilt => exact .inl rfl
  | unencoded => exact .inl rfl
  | sent => exact .inr (Option.some_ne_none _)

/-- The last request of a call is never forgotten. -/
theorem lastRequest_step (hstep : w.step env a = some w')
    (hlast : (w'.tasks t).lastRequest = none) : (w.tasks t).lastRequest = none := by
  by_cases ha : a.Moves t
  · cases step_moved hstep ha with
    | refused hpc =>
        dsimp only at hlast
        rwa [Function.update_self] at hlast
    | enqueued hpc =>
        dsimp only at hlast
        rwa [Function.update_self] at hlast
    | gaveUp hpc =>
        dsimp only at hlast
        rwa [Function.update_self] at hlast
    | ran hr hruns hseg hlaw =>
        rw [settle_tasks, Function.update_self] at hlast
        obtain hsame | hsome := hseg.ends.last_cases
        · rw [← hsame, hlast]
        · exact absurd hlast hsome
  · rwa [(step_other hstep ha).lastRequest] at hlast

/-- A task is asked to stop by nobody but its caller. -/
theorem cancelRequested_step (hstep : w.step env a = some w')
    (hstop : (w'.tasks t).cancelRequested = true) :
    (w.tasks t).cancelRequested = true ∨ a = .cancel t := by
  by_cases ha : a.Moves t
  · left
    cases step_moved hstep ha with
    | refused =>
        dsimp only at hstop
        rwa [Function.update_self] at hstop
    | enqueued =>
        dsimp only at hstop
        rwa [Function.update_self] at hstop
    | gaveUp _ hasked => exact hasked
    | ran hr hruns hseg hlaw =>
        rwa [settle_tasks, Function.update_self, hlaw.cancelRequested] at hstop
  · exact (step_other hstep ha).cancelRequested.mp hstop

/-- A task at its end does not run. -/
theorem not_moves_of_finished (hstep : w.step env a = some w') {o : Outcome}
    (hend : (w.tasks t).pc = .finished o) : ¬a.Moves t := by
  intro ha
  cases step_moved hstep ha with
  | refused hpc => simp [hpc] at hend
  | enqueued hpc => simp [hpc] at hend
  | gaveUp hpc => simp [hpc] at hend
  | ran hr hruns => exact hruns.not_finished o hend

/-- One task at a time is in the middle of a command. -/
theorem Inv.alone (hinv : Inv w) {u : ℕ} (hu : (w.tasks u).pc.InCommand)
    (ht : (w.tasks t).pc.InCommand) : u = t :=
  hinv.lock.inside_unique ((hinv.inside u).mpr hu) ((hinv.inside t).mpr ht)

/-- What holds in every world that comes up after a new session with the key `key`. -/
structure Coherent (key : Option Bytes) (w : World) : Prop where
  inv : Inv w
  awake : w.sess.commandLock.Awake
  key : w.sess.key = key
  begun : ∀ t, Begun (w.tasks t)

/-- **Every step** keeps the session and its tasks coherent. -/
theorem Coherent.step {key : Option Bytes} (h : Coherent key w) (hstep : w.step env a = some w') :
    Coherent key w' :=
  ⟨inv_step h.inv hstep,
    step_lock (fun _ u h => h.acquire u) (fun _ _ _ => Lock.awake_enter)
      (fun _ _ _ => Lock.awake_release) (fun _ _ _ => Lock.awake_giveUp)
      (fun _ u _ h => h.cancel u) hstep h.awake,
    (step_records h.inv hstep).1.key.trans h.key, fun t => begun_step (h.begun t) hstep⟩

/-- The tasks of a new session are coherent. -/
theorem coherent_new {panelId receiverId : ℤ} {key : Option Bytes} {now : ℚ} :
    Coherent key (World.new panelId receiverId key now) :=
  ⟨inv_new _ _ _ _, Lock.awake_empty, rfl, fun _ => begun_new⟩

/-- The tasks are coherent after every run. -/
theorem coherent_of_run {panelId receiverId : ℤ} {key : Option Bytes} {now : ℚ} {as : List Action}
    (hrun : run (World.step env) (World.new panelId receiverId key now) as = some w) :
    Coherent key w :=
  run_invariant (I := Coherent key) (fun _ _ _ h hstep => h.step hstep) coherent_new hrun

/-- A task that is asked to stop was cancelled in the run. -/
theorem cancel_mem_of_run {panelId receiverId : ℤ} {key : Option Bytes} {now : ℚ}
    {as : List Action}
    (hrun : run (World.step env) (World.new panelId receiverId key now) as = some w)
    (hstop : (w.tasks t).cancelRequested = true) : .cancel t ∈ as := by
  revert hstop
  apply run_induction (P := fun as w => (w.tasks t).cancelRequested = true → .cancel t ∈ as) ?_ ?_
    as w hrun
  · exact nofun
  · intro as w a w' _ ih hstep hstop
    obtain hstop | rfl := cancelRequested_step hstep hstop
    · exact List.mem_append_left _ (ih hstop)
    · exact List.mem_append_right _ (List.mem_singleton_self _)

end

/-! ## Futures that fail or are cancelled -/

/-- **Futures fail by a call of `fail_pending` or a teardown.** -/
theorem failed_of_run {env : Env} {panelId receiverId : ℤ} {key : Option Bytes} {now : ℚ}
    {as : List Action} {w : World}
    (hrun : run (World.step env) (World.new panelId receiverId key now) as = some w) {n : ℕ}
    {f : Future} {e : SpcError} (hf : w.sess.futures[n]? = some f) (hstate : f.state = .failed e) :
    e = .panelDisconnected ∨ .failPending e ∈ as := by
  revert hf
  apply run_induction (P := fun as w => w.sess.futures[n]? = some f →
    e = .panelDisconnected ∨ .failPending e ∈ as) ?_ ?_ as w hrun
  · intro hf
    cases hf
  · intro as w a w' hrun ih hstep hf
    obtain hf | hfate := step_fate (coherent_of_run hrun).inv hstep hf
    · exact (ih hf).imp_right (List.mem_append_left _)
    · rw [hstate] at hfate
      cases hfate with
      | failed ha => exact .inr (List.mem_append_right _ (List.mem_singleton.mpr ha.symm))
      | lost => exact .inl rfl

/-- **A future that a task waits for is cancelled by stopping the task.** -/
theorem stopped_of_run {env : Env} {panelId receiverId : ℤ} {key : Option Bytes} {now : ℚ}
    {as : List Action} {w : World}
    (hrun : run (World.step env) (World.new panelId receiverId key now) as = some w) {t n : ℕ}
    {q : ℤ} {f : Future} (hpc : (w.tasks t).pc = .awaiting n q)
    (hf : w.sess.futures[n]? = some f) (hstate : f.state = .cancelled) :
    (w.tasks t).cancelRequested = true ∨ (w.tasks t).expired = true := by
  revert hpc hf
  apply run_induction (P := fun _ w => (w.tasks t).pc = .awaiting n q →
    w.sess.futures[n]? = some f →
      (w.tasks t).cancelRequested = true ∨ (w.tasks t).expired = true) ?_ ?_ as w hrun
  · intro hpc
    cases hpc
  · intro as w a w' hrun ih hstep hpc hf
    have hinv := (coherent_of_run hrun).inv
    by_cases ha : a.Moves t
    · -- the task has just registered the future itself
      cases step_moved hstep ha with
      | refused => simp at hpc
      | enqueued => simp at hpc
      | gaveUp => simp at hpc
      | @ran r s given seg hr hruns hseg hlaw =>
          rw [settle_tasks, Function.update_self] at hpc
          obtain ⟨-, ⟨-, -, h | ⟨o, h, -⟩⟩ | ⟨hreg, ⟨o, h, -⟩ | ⟨h, -⟩⟩⟩ := ends_maps hseg.ends
          · rw [h] at hpc
            cases hpc
          · rw [h] at hpc
            cases hpc
          · rw [h] at hpc
            cases hpc
          · rw [h, Pc.awaiting.injEq] at hpc
            rw [(settle_same w t seg).futures, hreg.futures, ← hpc.1, List.getElem?_concat_length,
              Option.some.injEq] at hf
            rw [← hf] at hstate
            cases hstate
    · have hsame := step_other hstep ha
      rw [hsame.pc] at hpc
      rw [hsame.cancelRequested, hsame.expired]
      obtain hf | hfate := step_fate hinv hstep hf
      · exact (ih hpc hf).imp .inl .inl
      · rw [hstate] at hfate
        cases hfate with
        | @interrupted u q' hstop hu =>
            obtain rfl : u = t := hinv.alone (hu ▸ trivial) (hpc ▸ trivial)
            exact hstop.imp .inr .inr

end Spcedp.Client
