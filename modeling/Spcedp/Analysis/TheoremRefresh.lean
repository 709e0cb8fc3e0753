import Spcedp.Analysis.PanelRuns

/-!
# Events during a refresh

A refresh replaces its snapshot by what the panel reported, in fragments, some time before;
an event that is applied in the meantime survives exactly where the reply agrees with it
(`kept_iff_agrees`). Flags of areas are carried over, inputs of zones are not.
-/

set_option autoImplicit false

namespace Spcedp.PanelWorld

open Lib.Table Lib.Transition Spcedp.PyText Spcedp.Xmlcmd Spcedp.Events Spcedp.Client Panel

/-- The two refreshes. -/
inductive Refresh
  | areas
  | zones

def Refresh.job : Refresh → Job
  | areas => .refreshAreas
  | zones => .refreshZones

/-- The rows of its reply that a refresh reads. -/
def Refresh.rows : Refresh → XmlReply → List Row
  | areas => areaRows
  | zones => zoneRows

/-- In `before` the task `t` is in the command of a refresh, which it is from its first request
on, and so after every fragment of the reply. The event `ev` is applied there, and anything
may happen until the refresh installs the snapshot of `reply`, in the step to `after`. -/
structure Race (env : Env) (t : ℕ) (refresh : Refresh) (ev : SiaEvent) (reply : XmlReply)
    (before after : PanelWorld) : Prop where
  occurs : before.Occurs env
  job : before.jobs t = some refresh.job
  inCommand : (before.world.tasks t).pc.InCommand
  run : ∃ a meanwhile, Applies a ev ∧
    run (step env) before (a :: (meanwhile ++ [.session (.resume t)])) = some after
  ended : (after.world.tasks t).pc = .finished (.reply reply)
  loads : Loads (refresh.rows reply)

/-- The panel still shows the event: the zone it names is open or closed, or the area of the
alarm is triggered. -/
def Kept (refresh : Refresh) (ev : SiaEvent) (before after : Panel) : Prop :=
  match refresh with
  | .zones => ∀ z open_, zoneEvent ev = some (z, open_) →
      (after.zones.lookup z).map Zone.input = some (zoneToken open_)
  | .areas => ∀ a, before.alarmArea ev = some a → after.alarm a = some true

/-- The last row for the zone has the input that the event stands for; the area of the alarm is
known, and the last row for it does not report it unset. -/
def Agrees (refresh : Refresh) (ev : SiaEvent) (reply : XmlReply) (before : Panel) : Prop :=
  match refresh with
  | .zones => ∀ z open_, zoneEvent ev = some (z, open_) →
      ∃ row, lastRow rowId (zoneRows reply) z = some row ∧
        row.get (text "INPUT") = some (zoneToken open_)
  | .areas => ∀ a, before.alarmArea ev = some a → before.areas.lookup a ≠ none ∧
      ∃ row, lastRow rowId (areaRows reply) a = some row ∧ ¬ModeUnset row

section

variable {env : Env} {t : ℕ} {refresh : Refresh} {ev : SiaEvent} {reply : XmlReply}
  {before after : PanelWorld}

/-- The step of an event is its application. -/
theorem Applies.step {a : PanelAction} {pw pw' : PanelWorld} (h : Applies a ev)
    (hstep : pw.step env a = some pw') : pw' = pw.applyEvent ev := by
  obtain rfl | ⟨u, rfl, hcode⟩ := h
  · exact (Option.some.inj hstep).symm
  · exact (Option.some.inj ((if_neg hcode).symm.trans hstep)).symm

/-- A command that has ended does not run. -/
theorem resume_not_finished {w w' : World} (h : w.step env (.resume t) = some w') (o : Outcome) :
    (w.tasks t).pc ≠ .finished o := by
  intro hpc
  simp [World.step, World.resume, hpc] at h

/-- A row without an input is neither open nor closed. -/
theorem getD_eq_token {row : Row} {open_ : Bool} :
    (row.get (text "INPUT")).getD [] = zoneToken open_ ↔
      row.get (text "INPUT") = some (zoneToken open_) := by
  cases row.get (text "INPUT") with
  | none => cases open_ <;> simp [zoneToken, text]
  | some input => simp

/-- **The snapshot is installed on a panel that only events have changed.** -/
theorem Race.panel (h : Race env t refresh ev reply before after) : ∃ evs : List SiaEvent,
    after.panel = (evs.foldl applied (before.panel.applied ev)).finish refresh.job reply := by
  obtain ⟨hocc, hjob, hin, ⟨a, meanwhile, happlies, hrun⟩, hended, -⟩ := h
  rw [run_cons, Option.bind_eq_some_iff] at hrun
  obtain ⟨applied, hstep, hrun⟩ := hrun
  obtain rfl := happlies.step hstep
  obtain ⟨settled, hrun, hlast⟩ := run_snoc_iff.mp hrun
  have hinv : Inv (before.applyEvent ev).world := (sound_occurs hocc).inv
  obtain ⟨-, hpc, hpanel⟩ := panel_while_inCommand hinv (t := t) hin hrun
  obtain ⟨world, hworld, rfl⟩ := Option.map_eq_some_iff.mp hlast
  have hin' : (settled.world.tasks t).pc.InCommand := by
    apply hpc.resolve_right
    rintro ⟨o, ho⟩
    exact resume_not_finished hworld o ho
  obtain ⟨hjobs, evs, hevs⟩ := hpanel hin'
  refine ⟨evs, ?_⟩
  have hsettled : settled.jobs t = some refresh.job := hjobs.trans hjob
  dsimp only at hended ⊢
  unfold landed
  simp only [hsettled, hended]
  rw [hevs]
  rfl

/-- **A refresh keeps an event that is applied in the meantime exactly if its reply agrees with
the event.** -/
theorem kept_iff_agrees (h : Race env t refresh ev reply before after) :
    Kept refresh ev before.panel after.panel ↔ Agrees refresh ev reply before.panel := by
  obtain ⟨evs, hafter⟩ := h.panel
  have hloads := h.loads
  rw [hafter]
  generalize hp : evs.foldl applied (before.panel.applied ev) = p
  cases refresh with
  | zones =>
      refine forall₂_congr fun z open_ => imp_congr_right fun _ => ?_
      obtain ⟨p', hrefresh⟩ := (refreshZones_ok_iff (p := p)).mpr hloads
      have hfinish : p.finish Refresh.zones.job reply = p' := by
        change p.assigned (p.refreshZones reply) = p'
        rw [hrefresh]
        rfl
      rw [hfinish, (refreshZones_lookup hrefresh).2, Option.map_map, Option.map_eq_some_iff]
      refine exists_congr fun row => and_congr_right fun _ => ?_
      exact getD_eq_token
  | areas =>
      refine forall_congr' fun a => imp_congr_right fun harea => ?_
      obtain ⟨p', hrefresh⟩ := (refreshAreas_ok_iff (p := p)).mpr hloads
      have hfinish : p.finish Refresh.areas.job reply = p' := by
        change p.assigned (p.refreshAreas reply) = p'
        rw [hrefresh]
        rfl
      have halarm : p.alarm a = some true ↔ before.panel.areas.lookup a ≠ none := by
        obtain ⟨hknown, hset⟩ := alarm_foldl_applied (p := before.panel.applied ev) evs a
        rw [hp, applied_alarm, if_pos harea] at hknown hset
        unfold alarm at hknown hset ⊢
        cases hlookup : before.panel.areas.lookup a with
        | none => simp [hknown.mpr (by simp [hlookup])]
        | some area => simp [hset (by simp [hlookup])]
      rw [hfinish, refreshAreas_alarm hrefresh, Option.map_eq_some_iff, ← halarm]
      simp only [decide_eq_true_eq]
      constructor
      · rintro ⟨row, hrow, hset, hmode⟩
        exact ⟨hset, row, hrow, hmode⟩
      · rintro ⟨hset, row, hrow, hmode⟩
        exact ⟨row, hrow, hset, hmode⟩

end

/-! ## An event that is overtaken -/

/-- A row that shows zone 5 closed, and the two fragments of a reply with it. -/
def zoneRow : Row := [(text "ID", text "5"), (text "AREA", text "1"), (text "INPUT", text "0")]

def firstFragment : Wire.Bytes :=
  (text "<COMMAND_REPLY><ZONE_STATUS><ZONE ID=\"5\" AREA=\"1\" INPUT=\"0\"/>").map UInt8.ofNat

def lastFragment : Wire.Bytes := (text "</ZONE_STATUS></COMMAND_REPLY>").map UInt8.ofNat

/-- `expat` on that reply. -/
def zoneEnv : Env where
  aes := clearEnv.aes
  expat := fun xml =>
    if xml = firstFragment ++ lastFragment then
      .document (.node (text "COMMAND_REPLY") []
        [.node (text "ZONE_STATUS") [] [.node (text "ZONE") zoneRow []]])
    else .expatError

/-- Zone 5 is opened. -/
def push : Wire.Bytes := (text "E2[#1000|08521203062026|ZO|5|Front door||0]").map UInt8.ofNat

def opened : SiaEvent where
  spcId := 1000
  timestamp := some { year := 2026, month := 6, day := 3, hour := 8, minute := 52, second := 12 }
  timestampRaw := text "08521203062026"
  siaCode := text "ZO"
  address := text "5"
  description := text "Front door"
  verificationId := text "0"

/-- A frame that the panel sends. -/
def fromPanel (major : Wire.MajorCode) (minor : Wire.MinorCode) (payload : Wire.Bytes)
    (sequence : ℤ) : PanelAction :=
  .session (.dispatch {
    srcId := 1000
    dstId := 1001
    sequence := sequence
    major := major.value
    minor := minor.value
    payload := payload })

/-- Zone 5 is read. In a second refresh the fragment with its row comes in, and then the event. -/
def untilPush : List PanelAction := [
  .refreshZones 0,
  fromPanel .xmlCmd .reply (1 :: firstFragment ++ lastFragment) 1,
  .session (.resume 0),
  .session (.tick 1),
  .refreshZones 1,
  fromPanel .xmlCmd .reply (1 :: firstFragment) 2,
  .session (.resume 1),
  .session (.tick 1),
  .session (.resume 1),
  fromPanel .event .eventPush push 7]

/-- The event is applied, and the last fragment ends the refresh. -/
def fromApply : List PanelAction := [
  .reconcileEvent 2 opened,
  fromPanel .xmlCmd .reply (2 :: lastFragment) 3,
  .session (.resume 1)]

def zoneReply : XmlReply := [(text "ZONE_STATUS", [zoneRow])]

/-- The reply with which a command has ended. -/
def replyOf : Pc → Option XmlReply
  | .finished (.reply reply) => some reply
  | _ => none

/-- A place with a reply is the end with this reply. -/
theorem eq_of_replyOf {pc : Pc} {reply : XmlReply} (h : replyOf pc = some reply) :
    pc = .finished (.reply reply) := by
  unfold replyOf at h
  split at h
  · rw [Option.some.inj h]
  · cases h

/-- The input of zone 5. -/
def input (pw : PanelWorld) : Option Text := (pw.panel.zones.lookup 5).map Zone.input

/-- The event comes in behind the row and is applied before the refresh ends, and the zone is
closed again. -/
theorem race_overtaken : ∃ before after,
    run (step zoneEnv) (new 1000 1001 none 1) untilPush = some before ∧
    run (step zoneEnv) before fromApply = some after ∧
    Race zoneEnv 1 .zones opened zoneReply before after ∧ input after = some zoneClosed := by
  have hbefore : (run (step zoneEnv) (new 1000 1001 none 1) untilPush).map (fun pw =>
      (pw.jobs 1, (pw.world.tasks 1).pc.awaited)) = some (some .refreshZones, some (2, 3)) := by
    decide +kernel
  have hafter : (run (step zoneEnv) (new 1000 1001 none 1) (untilPush ++ fromApply)).map (fun pw =>
      (replyOf (pw.world.tasks 1).pc, input pw)) = some (some zoneReply, some zoneClosed) := by
    decide +kernel
  obtain ⟨before, hrun, hobs⟩ := Option.map_eq_some_iff.mp hbefore
  obtain ⟨after, hrun', hobs'⟩ := Option.map_eq_some_iff.mp hafter
  rw [run_append, hrun, Option.bind_some] at hrun'
  rw [Prod.mk.injEq] at hobs hobs'
  refine ⟨before, after, hrun, hrun', ⟨⟨1000, 1001, none, 1, _, hrun⟩, hobs.1, ?_,
    ⟨.reconcileEvent 2 opened, [fromPanel .xmlCmd .reply (2 :: lastFragment) 3],
      .inr ⟨2, rfl, by decide +kernel⟩, hrun'⟩, eq_of_replyOf hobs'.1, ?_⟩, hobs'.2⟩
  · rw [Pc.eq_of_awaited hobs.2]
    trivial
  · intro row hrow
    obtain rfl := List.mem_singleton.mp hrow
    exact (parseId_ok_iff.mp (rfl : parseId zoneRow = .ok (some 5))).1

/-- **A refresh overwrites an event that came in behind the row of its zone.** -/
theorem opened_overtaken : SiaEvent.parseBytes push = .ok opened ∧ ∃ before after,
    run (step zoneEnv) (new 1000 1001 none 1) untilPush = some before ∧
    run (step zoneEnv) before fromApply = some after ∧
    Race zoneEnv 1 .zones opened zoneReply before after ∧
    ¬Kept .zones opened before.panel after.panel := by
  obtain ⟨before, after, hbefore, hafter, hrace, hinput⟩ := race_overtaken
  refine ⟨by decide +kernel, before, after, hbefore, hafter, hrace, fun hkept => ?_⟩
  have hopen : input after = some zoneOpen := hkept 5 true (by decide +kernel)
  rw [hinput] at hopen
  revert hopen
  decide

/-- The run is one that the condition excludes. -/
theorem kept_iff_agrees_overtaken : ∃ before after,
    Race zoneEnv 1 .zones opened zoneReply before after ∧
    (Kept .zones opened before.panel after.panel ↔
      Agrees .zones opened zoneReply before.panel) := by
  obtain ⟨before, after, -, -, hrace, -⟩ := race_overtaken
  exact ⟨before, after, hrace, kept_iff_agrees hrace⟩

end Spcedp.PanelWorld
