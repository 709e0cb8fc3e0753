import Spcedp.Analysis.PanelRuns

/-!
# Alarms persist

The flag `triggered` is kept in the entry of its area, and a refresh carries it over from
the old entry to the new one. An alarm is thus lost when a reply leaves the area out and a
later one lists it again (`Readmits`), and in no other way.
-/

set_option autoImplicit false

namespace Spcedp

open Lib Lib.Table Spcedp.PyText Spcedp.Xmlcmd Spcedp.Events Spcedp.Client Panel

/-! ## Calls -/

namespace PanelCall

/-- The `AREA_STATUS` reply that a call gets. -/
def areaReply : PanelCall → Option XmlReply
  | refreshAreas (.ok reply) => some reply
  | reconcileEvent ev (.ok reply) =>
      if NeedsAreaStatus (upper ev.siaCode) then some reply else none
  | _ => none

/-- The event that a call hands to `apply_event`. -/
def event : PanelCall → Option SiaEvent
  | applyEvent ev => some ev
  | reconcileEvent ev _ => if NeedsAreaStatus (upper ev.siaCode) then none else some ev
  | _ => none

/-- The area that a call marks behind its refresh. -/
def verified : PanelCall → Option ℤ
  | reconcileEvent ev _ => verifiedArea ev
  | _ => none

/-- The reply of the call says that `a` is unset. -/
def ReportsUnset (c : PanelCall) (a : ℤ) : Prop := ∃ reply row,
  c.areaReply = some reply ∧ lastRow rowId (areaRows reply) a = some row ∧ ModeUnset row

/-- A call that goes to `apply_event` has no area reply. -/
theorem areaReply_of_event {c : PanelCall} {ev : SiaEvent} (h : c.event = some ev) :
    c.areaReply = none := by
  cases c with
  | applyEvent ev' => rfl
  | refreshAreas outcome => cases h
  | refreshZones outcome => cases h
  | reconcileEvent ev' outcome =>
      by_cases hcode : NeedsAreaStatus (upper ev'.siaCode)
      · exact absurd ((if_pos hcode).symm.trans h) nofun
      · cases outcome with
        | error outcome => rfl
        | ok reply => exact if_neg hcode

end PanelCall

/-- The call sets the flag of `a`: an alarm of a zone of `a`, or a verified alarm of `a`. -/
inductive Raises (p : Panel) (c : PanelCall) (a : ℤ) : Prop
  | alarm {ev} : c.event = some ev → p.alarmArea ev = some a → p.areas.lookup a ≠ none →
      Raises p c a
  | verified {reply} : c.areaReply = some reply → Loads (areaRows reply) →
      lastRow rowId (areaRows reply) a ≠ none → c.verified = some a → Raises p c a

/-- The call takes `a` into a snapshot without it, and neither reports it unset nor verifies
an alarm of it. -/
structure Readmits (p : Panel) (c : PanelCall) (a : ℤ) : Prop where
  absent : p.areas.lookup a = none
  listed : ∃ reply row, c.areaReply = some reply ∧ Loads (areaRows reply) ∧
    lastRow rowId (areaRows reply) a = some row ∧ ¬ModeUnset row
  unverified : c.verified ≠ some a

section

variable {p : Panel} {c : PanelCall} {a : ℤ}

/-- A call without an area reply changes flags by its event alone. -/
theorem call_areas_of_event (h : c.areaReply = none) :
    (p.call c).areas = raised p.areas (c.event.bind p.alarmArea) := by
  have happlied (ev : SiaEvent) : (p.applied ev).areas = raised p.areas (p.alarmArea ev) := by
    rw [applied_eq]
  cases c with
  | applyEvent ev => exact happlied ev
  | reconcileEvent ev outcome =>
      by_cases hcode : NeedsAreaStatus (upper ev.siaCode)
      · have hevent : (PanelCall.reconcileEvent ev outcome).event = none := if_pos hcode
        rw [hevent]
        cases outcome with
        | error outcome =>
            have hcall : p.call (.reconcileEvent ev (.error outcome)) = p :=
              congrArg Prod.fst (if_pos hcode)
            rw [hcall]
            rfl
        | ok reply => exact absurd ((if_pos hcode).symm.trans h) nofun
      · have hevent : (PanelCall.reconcileEvent ev outcome).event = some ev := if_neg hcode
        have hcall : p.call (.reconcileEvent ev outcome) = p.applied ev :=
          reconcileEvent_applied hcode
        rw [hevent, hcall, happlied]
        rfl
  | refreshAreas outcome =>
      cases outcome with
      | error outcome => rfl
      | ok reply => cases h
  | refreshZones outcome =>
      cases outcome with
      | error outcome => rfl
      | ok reply =>
          change (p.assigned (p.refreshZones reply)).areas = p.areas
          cases hzones : p.refreshZones reply with
          | error e => rfl
          | ok p' => exact (refreshZones_lookup hzones).1

/-- A call with an area reply refreshes the areas and marks a verified alarm. -/
theorem call_of_reply {reply : XmlReply} (h : c.areaReply = some reply) : p.call c =
    match p.refreshAreas reply with
    | .ok p' => { p' with areas := raised p'.areas c.verified }
    | .error _ => p := by
  cases c with
  | applyEvent ev => cases h
  | refreshZones outcome => cases h
  | refreshAreas outcome =>
      cases outcome with
      | error outcome => cases h
      | ok reply' =>
          cases h
          change p.assigned (p.refreshAreas reply) = _
          cases p.refreshAreas reply <;> rfl
  | reconcileEvent ev outcome =>
      cases outcome with
      | error outcome => cases h
      | ok reply' =>
          unfold PanelCall.areaReply at h
          dsimp only at h
          split at h
          · rename_i hcode
            cases h
            have hcall : p.call (.reconcileEvent ev (.ok reply)) =
                (p.reconcileAreas ev p.areaIds reply).1 := congrArg Prod.fst (if_pos hcode)
            rw [hcall, reconcileAreas_eq]
            rfl
          · cases h

/-- A refresh that raises changes nothing. -/
theorem call_of_not_loads {reply : XmlReply} (h : c.areaReply = some reply)
    (hloads : ¬Loads (areaRows reply)) : p.call c = p := by
  rw [call_of_reply h]
  cases hrefresh : p.refreshAreas reply with
  | error e => rfl
  | ok p' => exact absurd (refreshAreas_ok_iff.mp ⟨p', hrefresh⟩) hloads

/-- **The flags after a refresh.** -/
theorem call_alarm_of_loads {reply : XmlReply} (h : c.areaReply = some reply)
    (hloads : Loads (areaRows reply)) : (p.call c).alarm a =
      (lastRow rowId (areaRows reply) a).map fun row =>
        decide (c.verified = some a ∨ p.alarm a = some true ∧ ¬ModeUnset row) := by
  obtain ⟨p', hrefresh⟩ := refreshAreas_ok_iff.mpr hloads
  rw [call_of_reply h, hrefresh]
  dsimp only
  rw [alarm_of_raised (p := p') rfl, refreshAreas_alarm hrefresh]
  by_cases hv : c.verified = some a
  · rw [if_pos hv]
    cases lastRow rowId (areaRows reply) a <;> simp [hv]
  · rw [if_neg hv]
    simp [hv]

/-- A call that sets the flag of `a` leaves it set. -/
theorem Raises.alarm_call (h : Raises p c a) : (p.call c).alarm a = some true := by
  cases h with
  | @alarm ev hev harea hknown =>
      have hreply : c.areaReply = none := c.areaReply_of_event hev
      rw [alarm_of_raised (call_areas_of_event hreply), hev, Option.bind_some, if_pos harea]
      unfold Panel.alarm
      cases hlookup : p.areas.lookup a with
      | none => exact absurd hlookup hknown
      | some area => rfl
  | @verified reply hreply hloads hlisted hverified =>
      rw [call_alarm_of_loads hreply hloads]
      cases hrow : lastRow rowId (areaRows reply) a with
      | none => exact absurd hrow hlisted
      | some row => simp [hverified]

/-- An area that is taken in again has no alarm. -/
theorem Readmits.alarm_call (h : Readmits p c a) : (p.call c).alarm a = some false := by
  obtain ⟨habsent, ⟨reply, row, hreply, hloads, hrow, -⟩, hunverified⟩ := h
  rw [call_alarm_of_loads hreply hloads, hrow]
  simp [hunverified, alarm, habsent]

/-- **A flag that is not set** was not set before the call, or the call has reported the area
unset or has taken it in again. -/
theorem cases_of_alarm_call (h : (p.call c).alarm a = some false) :
    p.alarm a = some false ∨ c.ReportsUnset a ∨ Readmits p c a := by
  cases hreply : c.areaReply with
  | none =>
      rw [alarm_of_raised (call_areas_of_event hreply)] at h
      split at h
      · cases halarm : p.alarm a <;> simp [halarm] at h
      · exact .inl h
  | some reply =>
      by_cases hloads : Loads (areaRows reply)
      · rw [call_alarm_of_loads hreply hloads] at h
        cases hrow : lastRow rowId (areaRows reply) a with
        | none => simp [hrow] at h
        | some row =>
            rw [hrow, Option.map_some, Option.some.injEq, decide_eq_false_iff_not, not_or] at h
            obtain ⟨hunverified, hkept⟩ := h
            by_cases hunset : ModeUnset row
            · exact .inr (.inl ⟨reply, row, hreply, hrow, hunset⟩)
            cases hlookup : p.areas.lookup a with
            | none =>
                exact .inr (.inr
                  ⟨hlookup, ⟨reply, row, hreply, hloads, hrow, hunset⟩, hunverified⟩)
            | some area =>
                left
                cases hflag : area.triggered with
                | false => simp [alarm, hlookup, hflag]
                | true => exact absurd ⟨by simp [alarm, hlookup, hflag], hunset⟩ hkept
      · rw [call_of_not_loads hreply hloads] at h
        exact .inl h

end

/-! ## Runs -/

/-- Some call has set the flag of `a`, and no later one has reported the area unset. -/
def Outstanding (calls : List PanelCall) (a : ℤ) : Prop := ∃ before c later,
  calls = before ++ c :: later ∧ Raises (after before) c a ∧ ∀ c' ∈ later, ¬c'.ReportsUnset a

/-- Every area with an outstanding alarm that is known shows the alarm. -/
def AlarmsShown (calls : List PanelCall) : Prop :=
  ∀ a, Outstanding calls a → (after calls).alarm a ≠ some false

/-- An alarm stands if the last call raises it, or if it stood and the call does not clear it. -/
theorem outstanding_snoc {calls : List PanelCall} {c : PanelCall} {a : ℤ} :
    Outstanding (calls ++ [c]) a ↔
      Raises (after calls) c a ∨ Outstanding calls a ∧ ¬c.ReportsUnset a := by
  constructor
  · rintro ⟨before, c', later, hcalls, hraises, hlater⟩
    obtain rfl | ⟨later, last, rfl⟩ := later.eq_nil_or_concat
    · obtain ⟨rfl, rfl⟩ := List.append_singleton_inj.mp hcalls
      exact .inl hraises
    · rw [List.concat_eq_append, ← List.cons_append, ← List.append_assoc] at hcalls
      obtain ⟨rfl, rfl⟩ := List.append_singleton_inj.mp hcalls
      rw [List.concat_eq_append, List.forall_mem_append, List.forall_mem_singleton] at hlater
      exact .inr ⟨⟨before, c', later, rfl, hraises, hlater.1⟩, hlater.2⟩
  · rintro (hraises | ⟨⟨before, c', later, rfl, hraises, hlater⟩, hreports⟩)
    · exact ⟨calls, c, [], rfl, hraises, by simp⟩
    · refine ⟨before, c', later ++ [c], by simp, hraises, ?_⟩
      rw [List.forall_mem_append, List.forall_mem_singleton]
      exact ⟨hlater, hreports⟩

/-- **Alarms persist along a run exactly if no refresh takes an area with an outstanding alarm
in again.** -/
theorem alarms_persist_iff (calls : List PanelCall) :
    (∀ done, done <+: calls → AlarmsShown done) ↔
      ∀ done c, done ++ [c] <+: calls → ∀ a, Outstanding done a → ¬Readmits (after done) c a := by
  constructor
  · intro hshown done c hpre a hout hreadmits
    refine hshown _ hpre a (outstanding_snoc.mpr (.inr ⟨hout, ?_⟩)) ?_
    · obtain ⟨-, ⟨reply, row, hreply, -, hrow, hset⟩, -⟩ := hreadmits
      rintro ⟨reply', row', hreply', hrow', hunset⟩
      rw [hreply, Option.some.injEq] at hreply'
      subst hreply'
      rw [hrow, Option.some.injEq] at hrow'
      exact hset (hrow' ▸ hunset)
    · rw [after_snoc]
      exact hreadmits.alarm_call
  · intro hno done
    induction done using List.reverseRecOn with
    | nil =>
        rintro - a ⟨before, c, later, hcalls, -⟩
        cases before <;> cases hcalls
    | append_singleton done c ih =>
        intro hpre a hout hlost
        have hdone : done <+: calls := (List.prefix_append done [c]).trans hpre
        rw [after_snoc] at hlost
        obtain hraises | ⟨hout, hset⟩ := outstanding_snoc.mp hout
        · rw [hraises.alarm_call] at hlost
          cases hlost
        obtain hbefore | hunset | hreadmits := cases_of_alarm_call hlost
        · exact ih hdone a hout hbefore
        · exact hset hunset
        · exact hno done c hpre a hout hreadmits

/-! ## An alarm that is lost -/

/-- An `AREA_STATUS` reply with area 1, fully set. -/
def areaReply : XmlReply :=
  [(text "AREA_STATUS",
    [[(text "ID", text "1"), (text "NAME", text "Home"), (text "MODE", text "3")]])]

/-- A `ZONE_STATUS` reply with zone 5 of area 1. -/
def zoneReply : XmlReply :=
  [(text "ZONE_STATUS",
    [[(text "ID", text "5"), (text "AREA", text "1"), (text "INPUT", text "0")]])]

/-- A burglary alarm of zone 5. -/
def burglary : SiaEvent where
  spcId := 1000
  timestamp := none
  timestampRaw := text "08521203062026"
  siaCode := text "BA"
  address := text "5"
  description := text "Burglar"
  verificationId := text "0"

/-- Behind the alarm, one reply leaves area 1 out and the next one lists it again. -/
def readmission : List PanelCall := [
  .refreshZones (.ok zoneReply),
  .refreshAreas (.ok areaReply),
  .applyEvent burglary,
  .refreshAreas (.ok []),
  .refreshAreas (.ok areaReply)]

/-- **An alarm that no refresh has reported unset is not shown.** -/
theorem alarm_lost : Outstanding readmission 1 ∧ (after readmission).alarm 1 = some false := by
  refine ⟨⟨readmission.take 2, .applyEvent burglary, readmission.drop 3, rfl, ?_, ?_⟩, ?_⟩
  · exact .alarm rfl (by decide +kernel) (by decide +kernel)
  · rintro c hc ⟨reply, row, hreply, hrow, hunset⟩
    replace hc : c ∈ [.refreshAreas (.ok []), .refreshAreas (.ok areaReply)] := hc
    obtain rfl | rfl := List.mem_pair.mp hc
    · cases hreply
      cases hrow
    · cases hreply
      have hlisted : (lastRow rowId (areaRows areaReply) 1).all (¬ModeUnset ·) = true := by
        decide +kernel
      rw [hrow] at hlisted
      simp [hunset] at hlisted
  · decide +kernel

end Spcedp
