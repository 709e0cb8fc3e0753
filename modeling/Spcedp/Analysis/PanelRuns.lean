import Spcedp.Analysis.Commands
import Spcedp.Interface.Panel

/-!
# Runs of a panel on its session

A step of a `PanelWorld` starts a command, applies an event or moves the session (`Moves`).
The panel changes by one call at a time, so that calls which overlap amount to calls one
after the other (`panel_eq_after`); and while one command holds the lock, no other reply
comes in, and only events change the panel (`panel_while_inCommand`).
-/

set_option autoImplicit false

namespace Spcedp

open Lib.Transition Spcedp.PyText Spcedp.Xmlcmd Spcedp.Events Spcedp.Client

/-- The panel after a list of calls, from a new panel on. -/
def Panel.after (calls : List PanelCall) : Panel := calls.foldl Panel.call {}

/-- The panel after one call more. -/
theorem Panel.after_snoc (calls : List PanelCall) (c : PanelCall) :
    after (calls ++ [c]) = (after calls).call c := by
  unfold after
  rw [List.foldl_append, List.foldl_cons, List.foldl_nil]

namespace PanelWorld

/-- The action hands the event to `apply_event`. -/
def Applies (a : PanelAction) (ev : SiaEvent) : Prop :=
  a = .applyEvent ev ∨ ∃ t, a = .reconcileEvent t ev ∧ ¬NeedsAreaStatus (upper ev.siaCode)

/-- What a step does. -/
inductive Moves (env : Env) (pw : PanelWorld) : PanelAction → PanelWorld → Prop
  | started {a t job world} : pw.world.step env (.call t job.command) = some world →
      (∀ ev ids, job = .reconcile ev ids → NeedsAreaStatus (upper ev.siaCode)) →
      Moves env pw a { pw with world := world, jobs := Function.update pw.jobs t (some job) }
  | applied {a ev} : Applies a ev → Moves env pw a (pw.applyEvent ev)
  | moved {b world} : pw.world.step env b = some world →
      Moves env pw (.session b) { pw with world := world, panel := pw.landed b world }

section

variable {env : Env} {pw pw' : PanelWorld} {a : PanelAction} {t : ℕ}

/-- **Every step** of the tasks on a panel is a move. -/
theorem step_moves (h : pw.step env a = some pw') : Moves env pw a pw' := by
  cases a with
  | refreshAreas u =>
      obtain ⟨world, hworld, rfl⟩ := Option.map_eq_some_iff.mp h
      exact .started hworld nofun
  | refreshZones u =>
      obtain ⟨world, hworld, rfl⟩ := Option.map_eq_some_iff.mp h
      exact .started hworld nofun
  | reconcileEvent u ev =>
      unfold step at h
      dsimp only at h
      split at h
      · rename_i hcode
        obtain ⟨world, hworld, rfl⟩ := Option.map_eq_some_iff.mp h
        refine .started hworld fun ev' ids hjob => ?_
        cases hjob
        exact hcode
      · rename_i hcode
        cases h
        exact .applied (.inr ⟨u, rfl, hcode⟩)
  | applyEvent ev =>
      cases h
      exact .applied (.inl rfl)
  | session b =>
      obtain ⟨world, hworld, rfl⟩ := Option.map_eq_some_iff.mp h
      exact .moved hworld

/-- The panel changes only where a reply lands. -/
theorem landed_cases (pw : PanelWorld) (b : Action) (world : World) : pw.landed b world = pw.panel ∨
    ∃ t job reply, b = .resume t ∧ pw.jobs t = some job ∧
      (world.tasks t).pc = .finished (.reply reply) ∧
      pw.landed b world = pw.panel.finish job reply := by
  cases b with
  | resume t =>
      unfold landed
      dsimp only
      split
      · rename_i job reply hjob hpc
        exact .inr ⟨t, job, reply, rfl, hjob, hpc, rfl⟩
      · exact .inl rfl
  | _ => exact .inl rfl

/-- A job that has its reply is a call of the panel. -/
theorem finish_eq_call (p : Panel) {job : Job} (reply : XmlReply)
    (hcode : ∀ ev ids, job = .reconcile ev ids → NeedsAreaStatus (upper ev.siaCode)) :
    ∃ c, p.finish job reply = p.call c := by
  cases job with
  | refreshAreas => exact ⟨.refreshAreas (.ok reply), rfl⟩
  | refreshZones => exact ⟨.refreshZones (.ok reply), rfl⟩
  | reconcile ev ids =>
      refine ⟨.reconcileEvent ev (.ok reply), ?_⟩
      have hcall : p.call (.reconcileEvent ev (.ok reply)) =
          (p.reconcileAreas ev p.areaIds reply).1 := congrArg Prod.fst (if_pos (hcode ev ids rfl))
      rw [hcall, Panel.reconcileAreas_eq]
      exact Panel.reconcileAreas_eq ids

/-! ## Overlapping calls -/

/-- The panel worlds that can come up. -/
def Occurs (env : Env) (pw : PanelWorld) : Prop :=
  ∃ panelId receiverId key now, Reachable (step env) (new panelId receiverId key now) pw

/-- The session is in order, only events that need a read wait for one, and the panel is one
that calls one after the other give. -/
structure Sound (pw : PanelWorld) : Prop where
  inv : Inv pw.world
  jobs : ∀ t ev ids, pw.jobs t = some (.reconcile ev ids) → NeedsAreaStatus (upper ev.siaCode)
  calls : ∃ calls, pw.panel = Panel.after calls

/-- A move keeps the invariant of the session. -/
theorem Moves.inv (h : Moves env pw a pw') (hinv : Inv pw.world) : Inv pw'.world := by
  cases h with
  | started hworld => exact inv_step hinv hworld
  | applied _ => exact hinv
  | moved hworld => exact inv_step hinv hworld

/-- A move keeps the panel as its calls have left it. -/
theorem Moves.sound (h : Moves env pw a pw') (hsound : Sound pw) : Sound pw' := by
  have hinv := h.inv hsound.inv
  obtain ⟨-, hjobs, calls, hcalls⟩ := hsound
  cases h with
  | @started a u job world hworld hcode =>
      refine ⟨hinv, fun t ev ids hjob => ?_, calls, hcalls⟩
      dsimp only at hjob
      by_cases ht : t = u
      · subst ht
        rw [Function.update_self, Option.some.injEq] at hjob
        exact hcode ev ids hjob
      · rw [Function.update_of_ne ht] at hjob
        exact hjobs t ev ids hjob
  | @applied a ev _ =>
      refine ⟨hinv, hjobs, calls ++ [.applyEvent ev], ?_⟩
      rw [Panel.after_snoc, ← hcalls]
      rfl
  | @moved b world hworld =>
      refine ⟨hinv, hjobs, ?_⟩
      obtain hsame | ⟨t, job, reply, -, hjob, -, hland⟩ := landed_cases pw b world
      · exact ⟨calls, hsame.trans hcalls⟩
      · obtain ⟨c, hc⟩ :=
          finish_eq_call pw.panel reply fun ev ids hrec => hjobs t ev ids (hrec ▸ hjob)
        refine ⟨calls ++ [c], ?_⟩
        rw [Panel.after_snoc, ← hcalls, ← hc]
        exact hland

/-- The panel is as its calls have left it, in every world that occurs. -/
theorem sound_occurs (h : pw.Occurs env) : Sound pw := by
  obtain ⟨panelId, receiverId, key, now, hreach⟩ := h
  refine hreach.invariant (fun _ _ _ hsound hstep => (step_moves hstep).sound hsound) ?_
  exact ⟨inv_new panelId receiverId key now, nofun, [], rfl⟩

/-- **Calls that overlap amount to calls one after the other.** -/
theorem panel_eq_after (h : pw.Occurs env) : ∃ calls, pw.panel = Panel.after calls :=
  (sound_occurs h).calls

/-! ## One command at a time -/

/-- Only an idle task calls a command. -/
theorem call_idle {w w' : World} {cmd : Command} (h : w.step env (.call t cmd) = some w') :
    (w.tasks t).pc = .idle := by
  unfold World.step at h
  dsimp only at h
  split at h
  · assumption
  · cases h

/-- A reply that lands belongs to the task that is in its command. -/
theorem resume_reply {w w' : World} {u : ℕ} {reply : XmlReply} (hinv : Inv w)
    (hstep : w.step env (.resume u) = some w') (hpc : (w'.tasks u).pc = .finished (.reply reply))
    (hin : (w.tasks t).pc.InCommand) : u = t := by
  by_contra hne
  cases step_change hstep with
  | @segment _ v r s given seg hruns hseg =>
      have hself : v = u := by
        cases hruns <;> rfl
      subst hself
      exact (runs_inside hinv hruns).alone hinv (Ne.symm hne) hin
  | gaveUp _ =>
      dsimp only at hpc
      rw [Function.update_self] at hpc
      cases hpc
  | interrupted h =>
      obtain h | h := h <;> cases h

/-- While a task is in its command, a step changes the panel by an event at most. -/
theorem Moves.panel (h : Moves env pw a pw') (hinv : Inv pw.world)
    (hin : (pw.world.tasks t).pc.InCommand) (hin' : (pw'.world.tasks t).pc.InCommand) :
    pw'.jobs t = pw.jobs t ∧
      (pw'.panel = pw.panel ∨ ∃ ev, pw'.panel = pw.panel.applied ev) := by
  cases h with
  | @started a u job world hworld hcode =>
      refine ⟨Function.update_of_ne ?_ _ _, .inl rfl⟩
      rintro rfl
      rw [call_idle hworld] at hin
      exact hin
  | @applied a ev _ => exact ⟨rfl, .inr ⟨ev, rfl⟩⟩
  | @moved b world hworld =>
      refine ⟨rfl, .inl ?_⟩
      obtain hsame | ⟨u, job, reply, rfl, -, hpc, -⟩ := landed_cases pw b world
      · exact hsame
      · obtain rfl := resume_reply hinv hworld hpc hin
        rw [hpc] at hin'
        exact hin'.elim

/-- A command that has begun stays in progress or ends, and does not begin again. -/
theorem Moves.pc (h : Moves env pw a pw') (t : ℕ) :
    ((pw.world.tasks t).pc.InCommand →
      (pw'.world.tasks t).pc.InCommand ∨ ∃ o, (pw'.world.tasks t).pc = .finished o) ∧
    ∀ o, (pw.world.tasks t).pc = .finished o → (pw'.world.tasks t).pc = .finished o := by
  cases h with
  | started hworld => exact step_pc hworld t
  | applied _ => exact ⟨.inl, fun _ ho => ho⟩
  | moved hworld => exact step_pc hworld t

/-- **While one command is in progress, only events change the panel.** -/
theorem panel_while_inCommand {as : List PanelAction} (hinv : Inv pw.world)
    (hin : (pw.world.tasks t).pc.InCommand) (hrun : run (step env) pw as = some pw') :
    Inv pw'.world ∧
    ((pw'.world.tasks t).pc.InCommand ∨ ∃ o, (pw'.world.tasks t).pc = .finished o) ∧
    ((pw'.world.tasks t).pc.InCommand → pw'.jobs t = pw.jobs t ∧
      ∃ evs : List SiaEvent, pw'.panel = evs.foldl Panel.applied pw.panel) := by
  refine run_induction (P := fun _ s => Inv s.world ∧
    ((s.world.tasks t).pc.InCommand ∨ ∃ o, (s.world.tasks t).pc = .finished o) ∧
    ((s.world.tasks t).pc.InCommand → s.jobs t = pw.jobs t ∧
      ∃ evs : List SiaEvent, s.panel = evs.foldl Panel.applied pw.panel)) ?_ ?_ as pw' hrun
  · exact ⟨hinv, .inl hin, fun _ => ⟨rfl, [], rfl⟩⟩
  · rintro - s a u - ⟨hs, hpc, hpanel⟩ hstep
    have hmoves := step_moves hstep
    obtain ⟨hstay, hend⟩ := hmoves.pc t
    refine ⟨hmoves.inv hs, hpc.elim hstay fun ⟨o, ho⟩ => .inr ⟨o, hend o ho⟩, fun hu => ?_⟩
    have hsin : (s.world.tasks t).pc.InCommand := by
      apply hpc.resolve_right
      rintro ⟨o, ho⟩
      rw [hend o ho] at hu
      exact hu
    obtain ⟨hjobs, evs, hevs⟩ := hpanel hsin
    obtain ⟨hjobs', hsame | ⟨ev, hev⟩⟩ := hmoves.panel hs hsin hu
    · exact ⟨hjobs'.trans hjobs, evs, hsame.trans hevs⟩
    · refine ⟨hjobs'.trans hjobs, evs ++ [ev], ?_⟩
      rw [hev, hevs, List.foldl_append]
      rfl

end

end PanelWorld

end Spcedp
