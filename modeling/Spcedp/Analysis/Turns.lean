import Spcedp.Analysis.Replies

/-!
# Commands take turns

The requests in the history come in turns, one for each task that got the lock (`Turns`): a task
sends a first request and then continuations (`Says`), nobody sends anything in between, and the
turns are in the order in which the commands were called. The lock carries the last part: those
who have got it and those who still sleep in its queue are in the order of their calls
(`Lock.Wf.sleepers_enter`).
-/

set_option autoImplicit false

namespace Spcedp.Client

open Lib.FairLock Lib.Transition Spcedp.Wire Spcedp.Xmlcmd

/-! ## Callers -/

/-- The task that calls a command. -/
def Action.caller : Action → Option ℕ
  | .call t _ => some t
  | _ => none

/-- Every task calls once. -/
structure Callers (callers : List ℕ) (w : World) : Prop where
  nodup : callers.Nodup
  called : ∀ t ∈ callers, (w.tasks t).pc ≠ .idle

section Callers

variable {env : Env} {w w' : World} {a : Action} {callers : List ℕ}

/-- After a step of its own, a task is not idle. -/
theorem not_idle_of_moves {t : ℕ} (hstep : w.step env a = some w') (ha : a.Moves t) :
    (w'.tasks t).pc ≠ .idle := by
  intro hpc
  cases step_moved hstep ha with
  | refused =>
      dsimp only at hpc
      rw [Function.update_self] at hpc
      cases hpc
  | enqueued =>
      dsimp only at hpc
      rw [Function.update_self] at hpc
      cases hpc
  | gaveUp =>
      dsimp only at hpc
      rw [Function.update_self] at hpc
      cases hpc
  | ran _ _ hseg =>
      rw [settle_tasks, Function.update_self] at hpc
      obtain h | ⟨o, h⟩ := hseg.ends.pc_cases <;> rw [hpc] at h
      · exact h
      · cases h

/-- **Every step** leaves the callers as those that have called. -/
theorem Callers.step (h : Callers callers w) (hstep : w.step env a = some w') :
    Callers (callers ++ a.caller.toList) w' := by
  have hkept (t : ℕ) (ht : (w.tasks t).pc ≠ .idle) : (w'.tasks t).pc ≠ .idle := by
    by_cases ha : a.Moves t
    · exact not_idle_of_moves hstep ha
    · rwa [(step_other hstep ha).pc]
  cases a with
  | call t cmd =>
      have hidle : (w.tasks t).pc = .idle := by
        simp only [World.step] at hstep
        split at hstep
        · assumption
        · cases hstep
      refine ⟨List.Nodup.append h.nodup (List.nodup_singleton t) ?_, fun u hu => ?_⟩
      · exact List.disjoint_singleton.mpr fun ht => h.called t ht hidle
      · rcases List.mem_append.mp hu with hu | hu
        · exact hkept u (h.called u hu)
        · rw [List.mem_singleton.mp hu]
          exact not_idle_of_moves hstep (.inr ⟨cmd, rfl⟩)
  | _ => exact ⟨by simpa [Action.caller] using h.nodup,
      fun u hu => hkept u (h.called u (by simpa [Action.caller] using hu))⟩

end Callers

/-! ## Turns -/

/-- Only an XML command sends more than one request. -/
def Request.most : Request → ℕ
  | .xml _ _ _ => maxXmlFragments
  | .binary _ _ _ => 1

/-- The requests of the command `r`: a first one, and then continuations. -/
structure Says (r : Request) (frames : List Frame) : Prop where
  major : ∀ g ∈ frames, g.major = r.channel.major
  said : ∀ (i : ℕ) (g : Frame), frames[i]? = some g → r.payload (i ≠ 0) = .ok g.payload
  few : frames.length ≤ r.most

/-- A command may have said nothing yet. -/
theorem says_nil (r : Request) : Says r [] := ⟨by simp, by simp, Nat.zero_le _⟩

/-- A request that has got no reply yet. -/
def Pc.inFlight : Pc → ℕ
  | .awaiting _ _ => 1
  | _ => 0

/-- The history in turns, when `callers` have called in this order. -/
structure Turns (callers : List ℕ) (turns : List (ℕ × List Frame)) (w : World) : Prop where
  requests : requestFrames w.sess.log = (turns.map Prod.snd).flatten
  order : (turns.map Prod.fst ++ w.sess.commandLock.sleepers).Sublist callers
  said : ∀ x ∈ turns, ∃ r, (w.tasks x.1).request = some r ∧ Says r x.2
  going : ∀ t, (w.tasks t).pc.InCommand → ∃ past frames r payloads,
    turns = past ++ [(t, frames)] ∧ Collected r payloads (w.tasks t) ∧
      (w.sess.closed = false → frames.length = payloads.length + (w.tasks t).pc.inFlight)

section Turns

variable {env : Env} {w w' : World} {a : Action} {t : ℕ} {r : Request} {payloads : List Bytes}
  {callers callers' : List ℕ} {turns past : List (ℕ × List Frame)} {frames : List Frame}

/-- On a new session there are no turns. -/
theorem turns_new (panelId receiverId : ℤ) (key : Option Bytes) (now : ℚ) :
    Turns [] [] (World.new panelId receiverId key now) :=
  ⟨rfl, List.Sublist.refl _, by simp, fun _ h => h.elim⟩

/-- **One more request.** -/
theorem Says.snoc {g : Frame} (h : Says r frames) (hlength : frames.length = payloads.length)
    (hnext : Next r payloads g) (hroom : payloads.length < r.most) : Says r (frames ++ [g]) := by
  refine ⟨?_, ?_, ?_⟩
  · exact List.forall_mem_append.mpr ⟨h.major, List.forall_mem_singleton.mpr hnext.major⟩
  · refine forall_getElem?_snoc h.said ?_
    have hfirst : decide (frames.length ≠ 0) = decide (payloads ≠ []) := by
      rw [hlength, decide_eq_decide, ne_eq, ne_eq, List.length_eq_zero_iff]
    rw [hfirst]
    exact hnext.said
  · rw [List.length_append, List.length_singleton]
    omega

/-- A task that still collects has not said all it may. -/
theorem Collected.room {task : Task} (h : Collected r payloads task) :
    payloads.length < r.most := by
  cases hr : r with
  | xml commandId timeout attrs => exact h.few
  | binary op targetId timeout =>
      rw [h.bin (by rw [hr]; rfl)]
      exact Nat.one_pos

/-- **A segment adds one request at most**, the next one of its command. -/
theorem ends_says {now : ℚ} {s s' : Session} {given : Option Bytes} {last : Option (Frame × ℕ)}
    {task : Task} (hends : Ends env now s r given last s' task.pc task.lastRequest)
    (hleaves : Leaves env s r payloads task) :
    requestFrames s'.log = requestFrames s.log ∧
      (task.pc.InCommand → s'.closed = false → s.closed = false ∧ task.pc.inFlight = 0) ∨
    ∃ g, requestFrames s'.log = requestFrames s.log ++ [g] ∧ s.closed = false ∧
      Next r payloads g ∧ payloads.length < r.most ∧ task.pc.inFlight = 1 := by
  obtain ⟨nextSeq, xml, bin, futures, hreg⟩ := registered_session s r.channel
  generalize hpc : task.pc = pc at hends
  generalize hlast' : task.lastRequest = last' at hends
  cases hends with
  | stopped => exact .inl ⟨rfl, fun h => h.elim⟩
  | asleep hopen => exact .inl ⟨rfl, fun _ _ => ⟨hopen, rfl⟩⟩
  | unbuilt => exact .inl ⟨rfl, fun h => h.elim⟩
  | unencoded =>
      rw [hreg]
      exact .inl ⟨rfl, fun h => h.elim⟩
  | @sent _ payload _ hsend hres =>
      rw [hreg] at hres
      obtain ⟨data, g, henc, ⟨-, rfl⟩ | ⟨-, warned, rfl⟩⟩ := Session.send_cases hres
      · exact .inl ⟨rfl, fun _ hopen => by cases hopen⟩
      · right
        have hg := encode_ok_frame henc
        have hreq : IsRequest g := by
          rw [hg]
          exact ⟨r.channel, rfl, rfl⟩
        refine ⟨g, ?_, hsend.open_, ?_⟩
        · rw [requestFrames_append]
          simp [requestFrames, hreq]
        · cases hleaves with
          | failed hend => rw [hpc] at hend; cases hend
          | yielded _ hend => rw [hpc] at hend; cases hend
          | slept hquiet => rw [hpc] at hquiet; cases hquiet
          | sent hawait hlast hseq hnext hcollected =>
              rw [hlast', Option.some.injEq, Prod.mk.injEq] at hlast
              obtain ⟨rfl, -⟩ := hlast
              refine ⟨⟨?_, ?_⟩, hcollected.room, rfl⟩
              · rw [hg]
                rfl
              · rw [hg]
                exact hnext.said

/-- A task that is left inside the lock has the payloads so far. -/
theorem Leaves.collected {s : Session} {task : Task} (h : Leaves env s r payloads task)
    (hin : task.pc.InCommand) : Collected r payloads task := by
  cases h with
  | failed hpc => rw [hpc] at hin; exact hin.elim
  | yielded _ hpc => rw [hpc] at hin; exact hin.elim
  | slept _ hcollected => exact hcollected
  | sent _ _ _ _ hcollected => exact hcollected

/-- Storing a segment leaves the queue of the lock as it is. -/
theorem settle_sleepers (w : World) (t : ℕ) (seg : Segment) :
    (w.settle t seg).sess.commandLock.sleepers = seg.1.commandLock.sleepers := by
  obtain h | h := settle_commandLock w t seg
  · rw [h]
  · rw [h, Lock.sleepers_release]

/-- **A segment goes on with the turn of its task.** -/
theorem turns_segment {s : Session} {given : Option Bytes} {seg : Segment} (hinv : Inv w)
    (hbegun : ∀ u, Begun (w.tasks u)) (hstep : w.step env a = some (w.settle t seg))
    (hruns : Runs w a t r s given)
    (hseg : SegmentEnd env w.now s r given (w.tasks t).lastRequest seg)
    (hleaves : Leaves env s r payloads seg.2)
    (hrequests : requestFrames w.sess.log = ((past ++ [(t, frames)]).map Prod.snd).flatten)
    (horder : ((past ++ [(t, frames)]).map Prod.fst ++ s.commandLock.sleepers).Sublist callers)
    (hpast : ∀ x ∈ past, ∃ r, (w.tasks x.1).request = some r ∧ Says r x.2)
    (hturn : Says r frames)
    (hlength : w.sess.closed = false → frames.length = payloads.length) :
    ∃ turns, Turns callers turns (w.settle t seg) := by
  have hinside := runs_inside hinv hruns
  obtain ⟨hmoves, lock, xml, bin, hs⟩ := runs_session hruns
  have hlog : s.log = w.sess.log := by rw [hs]
  have hclosed : s.closed = w.sess.closed := by rw [hs]
  have htask : (w.settle t seg).tasks t = seg.2 := by rw [settle_tasks, Function.update_self]
  obtain ⟨lock', hsess⟩ := settle_session w t seg
  -- whatever the turn of `t` is now, the others are as they were
  have hturns (frames' : List Frame) (hturn' : Says r frames')
      (hlog' : requestFrames seg.1.log = (past.map Prod.snd).flatten ++ frames')
      (hlength' : seg.2.pc.InCommand → seg.1.closed = false →
        frames'.length = payloads.length + seg.2.pc.inFlight) :
      Turns callers (past ++ [(t, frames')]) (w.settle t seg) := by
    refine ⟨?_, ?_, ?_, fun u hu => ?_⟩
    · rw [hsess, hlog']
      simp
    · rw [settle_sleepers, (ends_maps hseg.ends).1]
      simpa using horder
    · refine List.forall_mem_append.mpr ⟨fun x hx => ?_, List.forall_mem_singleton.mpr ?_⟩
      · obtain ⟨r', hr', hturn'⟩ := hpast x hx
        exact ⟨r', request_step (hbegun x.1) hstep hr', hturn'⟩
      · exact ⟨r, by rw [htask, hseg.request], hturn'⟩
    · obtain rfl : u = t := by
        by_contra hne
        rw [settle_tasks, Function.update_of_ne hne] at hu
        exact hinside.alone hinv hne hu
      rw [htask] at hu ⊢
      refine ⟨past, frames', r, payloads, rfl, hleaves.collected hu, fun hopen => ?_⟩
      rw [hsess] at hopen
      exact hlength' hu hopen
  rw [List.map_append, List.flatten_append, List.map_singleton, List.flatten_singleton] at hrequests
  obtain ⟨hsame, hquiet⟩ | ⟨g, hnew, hopen, hnext, hroom, hflight⟩ := ends_says hseg.ends hleaves
  · refine ⟨_, hturns frames hturn (by rw [hsame, hlog, hrequests]) fun hin hopen => ?_⟩
    obtain ⟨hopen, hflight⟩ := hquiet hin hopen
    rw [hflight]
    exact hlength (hclosed ▸ hopen)
  · have hlength := hlength (hclosed ▸ hopen)
    refine ⟨_, hturns (frames ++ [g]) (hturn.snoc hlength hnext hroom) ?_ fun _ _ => ?_⟩
    · rw [hnew, hlog, hrequests, List.append_assoc]
    · rw [List.length_append, List.length_singleton, hlength, hflight]

/-- **A command that gets the lock** has a turn of its own. -/
theorem turns_enter {s : Session} {given : Option Bytes} {seg : Segment} (hinv : Inv w)
    (hbegun : ∀ u, Begun (w.tasks u)) (h : Turns callers turns w)
    (hstep : w.step env a = some (w.settle t seg)) (hruns : Runs w a t r s given)
    (hseg : SegmentEnd env w.now s r given (w.tasks t).lastRequest seg)
    (hleaves : Leaves env s r [] seg.2)
    (hqueue : (t :: s.commandLock.sleepers).Sublist
      (w.sess.commandLock.sleepers ++ a.caller.toList)) :
    ∃ turns, Turns (callers ++ a.caller.toList) turns (w.settle t seg) := by
  have hrequests :
      requestFrames w.sess.log = ((turns ++ [(t, [])]).map Prod.snd).flatten := by
    simpa using h.requests
  refine turns_segment hinv hbegun hstep hruns hseg hleaves hrequests ?_ h.said (says_nil r)
    fun _ => rfl
  rw [List.map_append, List.append_assoc]
  refine (hqueue.append_left _).trans ?_
  rw [← List.append_assoc]
  exact h.order.append_right _

/-- A step that is no segment. The queue gets shorter, or the task that calls joins it. -/
theorem Turns.keep (h : Turns callers turns w) (hinv : Inv w) (hbegun : ∀ u, Begun (w.tasks u))
    (hstep : w.step env a = some w')
    (hrequests : requestFrames w'.sess.log = requestFrames w.sess.log)
    (hqueue : w'.sess.commandLock.sleepers.Sublist
      (w.sess.commandLock.sleepers ++ a.caller.toList))
    (hother : ∀ u, a.Moves u → ¬(w'.tasks u).pc.InCommand) :
    Turns (callers ++ a.caller.toList) turns w' := by
  refine ⟨hrequests.trans h.requests, ?_, fun x hx => ?_, fun u hu => ?_⟩
  · refine (hqueue.append_left _).trans ?_
    rw [← List.append_assoc]
    exact h.order.append_right _
  · obtain ⟨r, hr, hturn⟩ := h.said x hx
    exact ⟨r, request_step (hbegun x.1) hstep hr, hturn⟩
  · have hsame := step_other hstep fun ha => hother u ha hu
    rw [hsame.pc] at hu
    obtain ⟨past, frames, r, payloads, hturns, hcollected, hlength⟩ := h.going u hu
    refine ⟨past, frames, r, payloads, hturns, ?_, fun hopen => ?_⟩
    · exact ⟨hsame.request.trans hcollected.request, hsame.assembler.trans hcollected.assembler,
        hsame.rounds.trans hcollected.rounds, hcollected.few, hcollected.bin⟩
    · rw [hsame.pc]
      refine hlength ?_
      by_contra hclosed
      rw [Bool.not_eq_false] at hclosed
      rw [(step_records hinv hstep).1.closed hclosed] at hopen
      cases hopen

/-- A call has its turn, or waits behind those who called before. -/
theorem turns_call {cmd : Command} (hinv : Inv w) (hbegun : ∀ u, Begun (w.tasks u))
    (h : Turns callers turns w) (hstep : w.step env (.call t cmd) = some w') :
    ∃ turns, Turns (callers ++ [t]) turns w' := by
  have hout {w₁ : World} {task : Task} (htasks : w₁.tasks = Function.update w.tasks t task)
      (hpc : ¬task.pc.InCommand) :
      ∀ u, (Action.call t cmd).Moves u → ¬(w₁.tasks u).pc.InCommand := by
    rintro u (hu | ⟨cmd', hu⟩)
    · cases hu
    · cases hu
      rw [htasks, Function.update_self]
      exact hpc
  have hstep₀ := hstep
  simp only [World.step] at hstep₀
  split at hstep₀
  case h_2 => cases hstep₀
  rename_i hidle
  have hcall := Option.some.inj hstep₀
  unfold World.call at hcall
  split at hcall
  · subst hcall
    exact ⟨turns, h.keep hinv hbegun hstep rfl (List.sublist_append_left _ _) (hout rfl id)⟩
  · rename_i r hcheck
    dsimp only at hcall
    obtain ⟨hgot, hnone, hafter⟩ | ⟨hgot, hafter⟩ := w.sess.commandLock.sleepers_acquire t
    · rw [if_pos hgot] at hcall
      subst hcall
      refine turns_enter hinv hbegun h hstep (.called hidle hcheck hgot)
        (enterCommand_ends rfl rfl) (enterCommand_leaves env w.now rfl) ?_
      dsimp only
      rw [hafter, hnone]
      exact List.Sublist.refl _
    · rw [if_neg (by simp [hgot])] at hcall
      subst hcall
      refine ⟨turns, h.keep hinv hbegun hstep rfl ?_ (hout rfl id)⟩
      dsimp only
      rw [hafter]
      exact List.Sublist.refl _

/-- A task that goes on has its turn already, or is the first in the queue. -/
theorem turns_resume (hinv : Inv w) (hbegun : ∀ u, Begun (w.tasks u))
    (h : Turns callers turns w) (hstep : w.step env (.resume t) = some w') :
    ∃ turns, Turns callers turns w' := by
  have hcallers : callers ++ (Action.resume t).caller.toList = callers := List.append_nil _
  have hstep₀ := hstep
  simp only [World.step, World.resume] at hstep₀
  split at hstep₀
  · rename_i r hpc hr
    split at hstep₀
    · cases hstep₀
      rw [← hcallers]
      refine ⟨turns, h.keep hinv hbegun hstep rfl ?_ ?_⟩
      · exact Lock.sleepers_giveUp.trans (List.sublist_append_left _ _)
      · rintro u (hu | ⟨cmd, hu⟩)
        · cases hu
          dsimp only
          rw [Function.update_self]
          exact id
        · cases hu
    · split at hstep₀
      · rename_i hwoken
        cases hstep₀
        rw [← hcallers]
        refine turns_enter hinv hbegun h hstep (.woken hpc hwoken) (enterCommand_ends hr rfl)
          (enterCommand_leaves env w.now hr) ?_
        rw [hinv.lock.sleepers_enter hwoken]
        exact List.sublist_append_left _ _
      · cases hstep₀
  · rename_i r hpc hr
    cases hstep₀
    obtain ⟨past, frames, r', payloads, rfl, hcollected, hlength⟩ := h.going t (hpc ▸ trivial)
    obtain rfl : r' = r := Option.some.inj (hcollected.request.symm.trans hr)
    obtain ⟨r, hr', hturn⟩ := h.said (t, frames) (by simp)
    obtain rfl : r' = r := Option.some.inj (hr.symm.trans hr')
    refine turns_segment hinv hbegun hstep (.slept hpc) (wakeQuiet_ends hr rfl)
      (wakeQuiet_leaves env w.now hcollected) h.requests h.order
      (fun x hx => h.said x (List.mem_append_left _ hx)) hturn fun hopen => ?_
    rw [hlength hopen, hpc]
    rfl
  · rename_i n q r hpc hr
    split at hstep₀
    · cases hstep₀
    · cases hstep₀
      obtain ⟨past, frames, r', payloads, rfl, hcollected, hlength⟩ := h.going t (hpc ▸ trivial)
      obtain rfl : r' = r := Option.some.inj (hcollected.request.symm.trans hr)
      obtain ⟨r, hr', hturn⟩ := h.said (t, frames) (by simp)
      obtain rfl : r' = r := Option.some.inj (hr.symm.trans hr')
      have hlock : (w.sess.unregister r'.channel q).commandLock = w.sess.commandLock := by
        cases r'.channel <;> rfl
      -- whether it ends or not, the request that was in flight is over
      obtain ⟨payload, hleaves⟩ : ∃ payload, Leaves env (w.sess.unregister r'.channel q) r'
          (payloads ++ [payload]) (wakeAwaiting env w.now w.sess (w.tasks t) r' n q).2 := by
        obtain ⟨o, hend, ho⟩ | ⟨payload, -, hleaves⟩ :=
          wakeAwaiting_leaves env w.now hcollected n q
        · exact ⟨[], .failed hend ho⟩
        · exact ⟨payload, hleaves⟩
      refine turns_segment hinv hbegun hstep (.answered hpc hr) (wakeAwaiting_ends hr rfl n q)
        hleaves h.requests ?_ (fun x hx => h.said x (List.mem_append_left _ hx)) hturn
        fun hopen => ?_
      · rw [hlock]
        exact h.order
      · rw [hlength hopen, hpc, List.length_append]
        rfl
  · cases hstep₀

/-- Nobody joins the queue of the lock but by a call. -/
theorem sleepers_other (hstep : w.step env a = some w') (ha : ∀ u, ¬a.Moves u) :
    w'.sess.commandLock.sleepers.Sublist w.sess.commandLock.sleepers := by
  cases step_change hstep with
  | segment hruns => exact absurd hruns.moves (ha _)
  | refused => exact List.Sublist.refl _
  | enqueued => exact absurd (.inr ⟨_, rfl⟩) (ha _)
  | gaveUp => exact absurd (.inl rfl) (ha _)
  | interrupted =>
      dsimp only
      unfold World.interrupt
      split
      · exact Lock.sleepers_cancel
      · exact List.Sublist.refl _
      · exact List.Sublist.refl _
  | dispatched =>
      dsimp only
      rw [(dispatch_maps env.aes w.sess w.now _).1]
  | ticked => exact List.Sublist.refl _
  | failed => exact List.Sublist.refl _
  | closing => exact List.Sublist.refl _
  | tornDown => exact List.Sublist.refl _
  | wrote => exact List.Sublist.refl _

/-- **Every step keeps the turns.** -/
theorem turns_step (hinv : Inv w) (hbegun : ∀ u, Begun (w.tasks u))
    (h : Turns callers turns w) (hstep : w.step env a = some w') :
    ∃ turns, Turns (callers ++ a.caller.toList) turns w' := by
  by_cases hmoves : ∃ t, a.Moves t
  · obtain ⟨t, rfl | ⟨cmd, rfl⟩⟩ := hmoves
    · obtain ⟨turns, h'⟩ := turns_resume hinv hbegun h hstep
      exact ⟨turns, by simpa [Action.caller] using h'⟩
    · exact turns_call hinv hbegun h hstep
  · rw [not_exists] at hmoves
    refine ⟨turns, h.keep hinv hbegun hstep ?_ ?_ fun u hu => absurd hu (hmoves u)⟩
    · obtain ⟨-, new, hlog, hrec⟩ := step_records hinv hstep
      have hnone : requestFrames new = [] := by
        refine requestFrames_eq_nil fun g data closed holders hmem hreq => ?_
        obtain ⟨-, -, t, -, ha⟩ := hrec.request hmem hreq
        exact hmoves t ha
      rw [hlog, requestFrames_append, hnone, List.append_nil]
    · exact (sleepers_other hstep hmoves).trans (List.sublist_append_left _ _)

end Turns

/-! ## The handler -/

/-- The calls so far, and the turns that they got. -/
structure InTurn (callers : List ℕ) (w : World) : Prop where
  inv : Inv w
  begun : ∀ t, Begun (w.tasks t)
  once : Callers callers w
  turns : ∃ turns, Turns callers turns w

section InTurn

variable {env : Env} {w w' : World} {callers : List ℕ}

/-- On a new session nobody has called. -/
theorem inTurn_new (panelId receiverId : ℤ) (key : Option Bytes) (now : ℚ) :
    InTurn [] (World.new panelId receiverId key now) :=
  ⟨inv_new panelId receiverId key now, fun _ => begun_new, ⟨List.nodup_nil, by simp⟩,
    [], turns_new panelId receiverId key now⟩

/-- **Every step** keeps the requests in turns. -/
theorem InTurn.step {a : Action} (h : InTurn callers w) (hstep : w.step env a = some w') :
    InTurn (callers ++ a.caller.toList) w' := by
  obtain ⟨turns, hturns⟩ := h.turns
  exact ⟨inv_step h.inv hstep, fun t => begun_step (h.begun t) hstep, h.once.step hstep,
    turns_step h.inv h.begun hturns hstep⟩

/-- The turns do not depend on the name of the panel or on the start of `on_session`. -/
theorem InTurn.relabel (h : InTurn callers w) (panelId : ℤ) {new : List Entry}
    (hnew : ∀ e ∈ new, e = .sessionStarted) :
    InTurn callers
      { w with sess := { w.sess with panelId := panelId, log := w.sess.log ++ new } } := by
  obtain ⟨turns, hturns⟩ := h.turns
  have hnone : requestFrames new = [] := by
    refine requestFrames_eq_nil fun g data closed holders hmem => ?_
    cases hnew _ hmem
  refine ⟨inv_relabel h.inv panelId _, h.begun, ⟨h.once.nodup, h.once.called⟩, turns, ?_,
    hturns.order, hturns.said, hturns.going⟩
  dsimp only
  rw [requestFrames_append, hnone, List.append_nil, hturns.requests]

/-- The task that calls a command in a step of the handler. -/
def HandlerAction.caller : HandlerAction → Option ℕ
  | .app a => a.caller
  | _ => none

/-- **Every step of the handler keeps the turns.** -/
theorem Handler.inTurn_step {server : PanelServer} {h h' : Handler} {a : HandlerAction}
    (ho : Handler.Orderly env server h) (hturn : InTurn callers h.conn.world)
    (hstep : h.step server env a = some h') :
    InTurn (callers ++ a.caller.toList) h'.conn.world := by
  by_cases hcall : ∃ t cmd, a = .app (.call t cmd)
  · obtain ⟨t, cmd, rfl⟩ := hcall
    cases Handler.step_does hstep with
    | app _ _ hw => exact hturn.step hw
    | left ha => obtain ha | ha := ha <;> cases ha
  · have hnone : a.caller = none := by
      cases a with
      | app a =>
          cases a with
          | call t cmd => exact absurd ⟨t, cmd, rfl⟩ hcall
          | _ => rfl
      | _ => rfl
    rw [hnone, Option.toList_none, List.append_nil]
    refine Handler.step_world (fun w a' w' hw _ _ hcalled hstep' => ?_)
      (fun w panelId new hw hnew => hw.relabel panelId hnew) ho hstep hturn
    have hnone' : a'.caller = none := by
      cases a' with
      | call t cmd => exact absurd ⟨t, cmd, hcalled t cmd rfl⟩ hcall
      | _ => rfl
    have hw' := hw.step hstep'
    rwa [hnone', Option.toList_none, List.append_nil] at hw'

end InTurn

end Spcedp.Client
