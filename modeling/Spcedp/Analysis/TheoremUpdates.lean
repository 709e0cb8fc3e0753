import Spcedp.Analysis.PanelRuns

/-!
# What an event reports

`apply_event` and `reconcile_event` name the zones and areas that they have changed. The
update is complete (`updates_reported`): an entry that it does not name is as it was. The
names are the IDs that the entries hold, and these stay the keys of the dictionaries.
-/

set_option autoImplicit false

namespace Spcedp

open Lib Lib.Table Spcedp.PyText Spcedp.Xmlcmd Spcedp.Events Spcedp.Client

/-! ## Keys and IDs -/

namespace Panel

/-- Every entry is stored under its ID. -/
structure KeyIds (p : Panel) : Prop where
  areas : ∀ a area, p.areas.lookup a = some area → area.id = a
  zones : ∀ z zone, p.zones.lookup z = some zone → zone.id = z

/-- The update names every entry in which the panels differ, and zones of the new panel only;
entries are still stored under their IDs. -/
structure Reported (p p' : Panel) (update : EventStateUpdate) : Prop where
  zones : ∀ z, p'.zones.lookup z ≠ p.zones.lookup z → z ∈ update.zoneIds
  areas : ∀ a, p'.areas.lookup a ≠ p.areas.lookup a → a ∈ update.areaIds
  known : ∀ z ∈ update.zoneIds, z ∈ p'.zones
  keyIds : p'.KeyIds

/-- The panels differ at most in the input of the zone `z` and in the flag of its area. -/
structure Confined (p p' : Panel) (z : ℤ) : Prop where
  otherZones : ∀ z', z' ≠ z → p'.zones.lookup z' = p.zones.lookup z'
  input : ∃ input,
    p'.zones.lookup z = (p.zones.lookup z).map fun zone => { zone with input := input }
  otherAreas : ∀ a, (p.zones.lookup z).map Zone.areaId ≠ some a →
    p'.areas.lookup a = p.areas.lookup a
  flag : ∀ a, ∃ triggered,
    p'.areas.lookup a = (p.areas.lookup a).map fun area => { area with triggered := triggered }

/-- What `apply_event` can do: nothing, open or close the zone that the event names, or open it
and raise the flag of its area. -/
inductive Effect (p : Panel) (code : Text) : Panel → EventStateUpdate → Prop
  | ignored : Effect p code p {}
  | zone {z zone open_} : opens code = some open_ → p.zones.lookup z = some zone →
      Effect p code
        { p with zones := p.zones.modify z fun zone => { zone with input := zoneToken open_ } }
        { zoneIds := {zone.id} }
  | alarm {z zone area open_} : opens code = some open_ → IsAlarm code →
      p.zones.lookup z = some zone → p.areas.lookup zone.areaId = some area →
      Effect p code
        { zones := p.zones.modify z fun zone => { zone with input := zoneToken open_ }
          areas := p.areas.modify zone.areaId fun area => { area with triggered := true } }
        { zoneIds := {zone.id}, areaIds := {area.id} }

section

variable {p p' : Panel} {ev : SiaEvent} {update : EventStateUpdate}

/-- Changing an entry and not its ID keeps every ID a key. -/
theorem id_of_modify {V : Type} {t : Table ℤ V} {id : V → ℤ} {f : V → V} {k : ℤ}
    (ht : ∀ n v, t.lookup n = some v → id v = n) (hf : ∀ v, id (f v) = id v) :
    ∀ n v, (t.modify k f).lookup n = some v → id v = n := by
  intro n v h
  rw [modify_lookup] at h
  split at h
  · obtain ⟨u, hu, rfl⟩ := Option.map_eq_some_iff.mp h
    rw [hf]
    exact ht n u hu
  · exact ht n v h

/-- An entry that is not the one changed is as it was. -/
theorem eq_of_modify_ne {V : Type} {t : Table ℤ V} {f : V → V} {k n : ℤ}
    (h : (t.modify k f).lookup n ≠ t.lookup n) : n = k := by
  by_contra hne
  rw [modify_lookup, if_neg hne] at h
  exact h rfl

/-- Where nothing changes, nothing need be reported. -/
theorem Reported.refl (h : p.KeyIds) : Reported p p {} where
  zones _ hz := absurd rfl hz
  areas _ ha := absurd rfl ha
  known z hz := absurd hz (Finset.notMem_empty z)
  keyIds := h

/-! ## `apply_event` -/

/-- **An event** that is applied has one of the effects of its code. -/
theorem applyEvent_effect (h : p.applyEvent ev = .ok (p', update)) :
    Effect p (upper ev.siaCode) p' update := by
  unfold applyEvent at h
  dsimp only at h
  split at h
  · cases hint : toInt (strip ev.address) with
    | error e =>
        rw [hint] at h
        cases h
    | ok target =>
        rw [hint] at h
        simp only [bind, Except.bind, pure, Except.pure] at h
        cases hopens : opens (upper ev.siaCode) with
        | none =>
            rw [hopens] at h
            cases h
            exact .ignored
        | some open_ =>
            rw [hopens] at h
            dsimp only at h
            cases hzone : p.zones.lookup target with
            | none =>
                rw [hzone] at h
                cases h
                exact .ignored
            | some zone =>
                rw [hzone] at h
                dsimp only at h
                split at h
                next halarm =>
                  cases harea : p.areas.lookup zone.areaId with
                  | none =>
                      rw [harea] at h
                      cases h
                      exact .zone hopens hzone
                  | some area =>
                      rw [harea] at h
                      cases h
                      exact .alarm hopens halarm hzone harea
                · cases h
                  exact .zone hopens hzone
  · cases h
    exact .ignored

/-- An effect is reported. -/
theorem Effect.reported {code : Text} (h : Effect p code p' update) (hkeys : p.KeyIds) :
    Reported p p' update := by
  cases h with
  | ignored => exact Reported.refl hkeys
  | @zone z zone open_ hopens hzone =>
      have hid := hkeys.zones z zone hzone
      refine ⟨fun z' hz' => ?_, fun a ha => absurd rfl ha, fun z' hz' => ?_,
        ⟨hkeys.areas, id_of_modify hkeys.zones fun _ => rfl⟩⟩
      · rw [Finset.mem_singleton, hid]
        exact eq_of_modify_ne hz'
      · rw [Finset.mem_singleton, hid] at hz'
        rw [← AList.lookup_isSome, modify_lookup, if_pos hz', hz', hzone]
        rfl
  | @alarm z zone area open_ hopens _ hzone harea =>
      have hid := hkeys.zones z zone hzone
      have hareaId := hkeys.areas zone.areaId area harea
      refine ⟨fun z' hz' => ?_, fun a ha => ?_, fun z' hz' => ?_,
        ⟨id_of_modify hkeys.areas fun _ => rfl, id_of_modify hkeys.zones fun _ => rfl⟩⟩
      · rw [Finset.mem_singleton, hid]
        exact eq_of_modify_ne hz'
      · rw [Finset.mem_singleton, hareaId]
        exact eq_of_modify_ne ha
      · rw [Finset.mem_singleton, hid] at hz'
        rw [← AList.lookup_isSome, modify_lookup, if_pos hz', hz', hzone]
        rfl

/-- The flag of an area that nobody raises is the one it has. -/
theorem map_flag_self (t : Table ℤ Area) (a : ℤ) : ∃ triggered,
    t.lookup a = (t.lookup a).map fun area => { area with triggered := triggered } := by
  cases t.lookup a with
  | none => exact ⟨false, rfl⟩
  | some area => exact ⟨area.triggered, rfl⟩

/-- A change at a key is seen at this key. -/
theorem modify_self {V : Type} (t : Table ℤ V) (k : ℤ) (f : V → V) :
    (t.modify k f).lookup k = (t.lookup k).map f := by
  rw [modify_lookup, if_pos rfl]

/-- An effect is confined to one zone. -/
theorem Effect.confined {code : Text} (h : Effect p code p' update) : ∃ z, Confined p p' z := by
  cases h with
  | ignored =>
      refine ⟨0, fun _ _ => rfl, ?_, fun _ _ => rfl, map_flag_self p.areas⟩
      cases p.zones.lookup 0 with
      | none => exact ⟨[], rfl⟩
      | some zone => exact ⟨zone.input, rfl⟩
  | @zone z zone open_ hopens hzone =>
      refine ⟨z, fun z' hz' => ?_, ⟨zoneToken open_, modify_self _ _ _⟩, fun _ _ => rfl,
        map_flag_self p.areas⟩
      rw [modify_lookup, if_neg hz']
  | @alarm z zone area open_ hopens _ hzone harea =>
      refine ⟨z, fun z' hz' => ?_, ⟨zoneToken open_, modify_self _ _ _⟩, fun a ha => ?_,
        fun a => ?_⟩
      · rw [modify_lookup, if_neg hz']
      · rw [hzone, Option.map_some] at ha
        rw [modify_lookup, if_neg fun h => ha (congrArg some h.symm)]
      · by_cases ha : a = zone.areaId
        · subst ha
          exact ⟨true, modify_self _ _ _⟩
        · dsimp only
          rw [modify_lookup, if_neg ha]
          exact map_flag_self p.areas a

/-- A change confined to flags is no change of a mode. -/
theorem Confined.armMode {z : ℤ} (h : Confined p p' z) (a : ℤ) :
    (p'.areas.lookup a).map Area.armMode = (p.areas.lookup a).map Area.armMode := by
  obtain ⟨triggered, hflag⟩ := h.flag a
  rw [hflag, Option.map_map]
  rfl

/-- No event that needs an `AREA_STATUS` read opens or closes a zone. -/
theorem opens_of_needsAreaStatus {code : Text} (h : NeedsAreaStatus code) : opens code = none := by
  unfold NeedsAreaStatus at h
  revert code
  decide

/-- An event that needs an area status has no effect of its own. -/
theorem Effect.eq_of_needsAreaStatus {code : Text} (h : Effect p code p' update)
    (hcode : NeedsAreaStatus code) : p' = p ∧ update = {} := by
  have hnone := opens_of_needsAreaStatus hcode
  cases h with
  | ignored => exact ⟨rfl, rfl⟩
  | zone hopens =>
      rw [hnone] at hopens
      cases hopens
  | alarm hopens =>
      rw [hnone] at hopens
      cases hopens

/-! ## `reconcile_event` -/

/-- The area IDs are those of the areas in the snapshot. -/
theorem mem_areaIds {a : ℤ} : a ∈ p.areaIds ↔ p.areas.lookup a ≠ none := by
  unfold areaIds
  rw [List.mem_toFinset, ← AList.mem_keys, ← AList.lookup_isSome, Option.isSome_iff_ne_none]

/-- `refresh_areas` keeps every entry under its own ID. -/
theorem refreshAreas_keyIds {reply : XmlReply} (hkeys : p.KeyIds)
    (h : p.refreshAreas reply = .ok p') : p'.KeyIds := by
  obtain ⟨hzones, hareas⟩ := refreshAreas_lookup h
  refine ⟨fun a area ha => ?_, by rw [hzones]; exact hkeys.zones⟩
  rw [hareas] at ha
  obtain ⟨row, -, rfl⟩ := Option.map_eq_some_iff.mp ha
  rfl

/-- `refresh_zones` keeps every entry under its own ID. -/
theorem refreshZones_keyIds {reply : XmlReply} (hkeys : p.KeyIds)
    (h : p.refreshZones reply = .ok p') : p'.KeyIds := by
  obtain ⟨hareas, hzones⟩ := refreshZones_lookup h
  refine ⟨by rw [hareas]; exact hkeys.areas, fun z zone hz => ?_⟩
  rw [hzones] at hz
  obtain ⟨row, -, rfl⟩ := Option.map_eq_some_iff.mp hz
  rfl

/-- An alarm that is raised keeps every entry under its own ID. -/
theorem raised_keyIds {area? : Option ℤ} (hkeys : p.KeyIds) :
    KeyIds { p with areas := raised p.areas area? } := by
  refine ⟨?_, hkeys.zones⟩
  cases area? with
  | none => exact hkeys.areas
  | some a => exact id_of_modify hkeys.areas fun _ => rfl

/-- What is marked behind a refresh is an area that the update names anyway. -/
theorem markVerified_update {ids : Finset ℤ} (hkeys : p.KeyIds)
    (h : (p.markVerified ev (ids ∪ p.areaIds)).2 = .ok update) :
    update = { areaIds := ids ∪ p.areaIds } := by
  unfold markVerified at h
  dsimp only at h
  split at h
  · cases hint : toInt (strip ev.address) with
    | error e =>
        rw [hint] at h
        cases h
    | ok target =>
        rw [hint] at h
        dsimp only at h
        cases harea : p.areas.lookup target with
        | none =>
            rw [harea] at h
            exact (Except.ok.inj h).symm
        | some area =>
            rw [harea] at h
            have hmem : area.id ∈ ids ∪ p.areaIds := by
              apply Finset.mem_union_right
              rw [mem_areaIds, hkeys.areas target area harea, harea]
              exact Option.some_ne_none area
            rw [← Except.ok.inj h, Finset.insert_eq_of_mem hmem]
  · exact (Except.ok.inj h).symm

/-- **What the area status changes** is reported. -/
theorem reconcileAreas_reported {reply : XmlReply} (hkeys : p.KeyIds)
    (h : p.reconcileAreas ev p.areaIds reply = (p', .ok update)) : Reported p p' update := by
  unfold reconcileAreas at h
  cases hrefresh : p.refreshAreas reply with
  | error e =>
      rw [hrefresh] at h
      cases (Prod.mk.inj h).2
  | ok p₁ =>
      rw [hrefresh] at h
      dsimp only at h
      have hkeys₁ := refreshAreas_keyIds hkeys hrefresh
      have hp' : p' = { p₁ with areas := raised p₁.areas (verifiedArea ev) } := by
        rw [← markVerified_eq, h]
      have hupdate : update = _ := markVerified_update hkeys₁ (by rw [h])
      subst hp' hupdate
      refine ⟨fun z hz => ?_, fun a ha => ?_, fun z hz => absurd hz (Finset.notMem_empty z),
        raised_keyIds hkeys₁⟩
      · exact absurd (by rw [(refreshAreas_lookup hrefresh).1]) hz
      · rw [Finset.mem_union, mem_areaIds, mem_areaIds]
        by_contra hnone
        push Not at hnone
        obtain ⟨hbefore, hafter⟩ := hnone
        apply ha
        rw [hbefore]
        dsimp only
        cases hverified : verifiedArea ev with
        | none => exact hafter
        | some b =>
            unfold raised
            dsimp only
            rw [modify_lookup, hafter]
            split
            · rfl
            · rfl

/-- A read of the areas leaves the zones alone, however it ends. -/
theorem reconcileEvent_zones {outcome : Except Outcome XmlReply}
    (hcode : NeedsAreaStatus (upper ev.siaCode)) :
    (p.reconcileEvent ev outcome).1.zones = p.zones := by
  unfold reconcileEvent
  rw [if_pos hcode]
  cases outcome with
  | error e => rfl
  | ok reply =>
      dsimp only
      rw [reconcileAreas_eq]
      cases hrefresh : p.refreshAreas reply with
      | error e => rfl
      | ok p₁ => exact (refreshAreas_lookup hrefresh).1

/-- **What `reconcile_event` changes** is reported. -/
theorem reconcileEvent_reported {outcome : Except Outcome XmlReply} (hkeys : p.KeyIds)
    (h : p.reconcileEvent ev outcome = (p', .ok update)) : Reported p p' update := by
  unfold reconcileEvent at h
  split at h
  · cases outcome with
    | error e => cases (Prod.mk.inj h).2
    | ok reply => exact reconcileAreas_reported hkeys h
  · cases happly : p.applyEvent ev with
    | error e =>
        rw [happly] at h
        cases (Prod.mk.inj h).2
    | ok r =>
        obtain ⟨p₁, update₁⟩ := r
        rw [happly] at h
        cases h
        exact (applyEvent_effect happly).reported hkeys

/-! ## Panels that occur -/

/-- Where a call raises, the panel is the one from before. -/
theorem keyIds_assigned {r : Except PanelError Panel} (hkeys : p.KeyIds)
    (h : ∀ p₁, r = .ok p₁ → p₁.KeyIds) : (p.assigned r).KeyIds := by
  cases r with
  | error e => exact hkeys
  | ok p₁ => exact h p₁ rfl

/-- An event keeps every entry under its own ID. -/
theorem keyIds_applied (hkeys : p.KeyIds) : (p.applied ev).KeyIds := by
  unfold applied
  apply keyIds_assigned hkeys
  intro p₁ h
  cases happly : p.applyEvent ev with
  | error e =>
      rw [happly] at h
      cases h
  | ok r =>
      rw [happly] at h
      cases h
      exact ((applyEvent_effect happly).reported hkeys).keyIds

/-- A call leaves every entry under its ID. -/
theorem keyIds_call (hkeys : p.KeyIds) (c : PanelCall) : (p.call c).KeyIds := by
  cases c with
  | applyEvent ev => exact keyIds_applied hkeys
  | refreshAreas outcome =>
      cases outcome with
      | error e => exact hkeys
      | ok reply => exact keyIds_assigned hkeys fun p₁ => refreshAreas_keyIds hkeys
  | refreshZones outcome =>
      cases outcome with
      | error e => exact hkeys
      | ok reply => exact keyIds_assigned hkeys fun p₁ => refreshZones_keyIds hkeys
  | reconcileEvent ev outcome =>
      by_cases hcode : NeedsAreaStatus (upper ev.siaCode)
      · unfold call reconcileEvent
        dsimp only
        rw [if_pos hcode]
        cases outcome with
        | error e => exact hkeys
        | ok reply =>
            dsimp only
            rw [reconcileAreas_eq]
            cases hrefresh : p.refreshAreas reply with
            | error e => exact hkeys
            | ok p₁ => exact raised_keyIds (refreshAreas_keyIds hkeys hrefresh)
      · unfold call
        dsimp only
        rw [reconcileEvent_applied hcode]
        exact keyIds_applied hkeys

/-- Every entry is under its own ID after any calls. -/
theorem keyIds_after (calls : List PanelCall) : (after calls).KeyIds := by
  induction calls using List.reverseRecOn with
  | nil =>
      refine ⟨fun a area h => ?_, fun z zone h => ?_⟩
      · cases h
      · cases h
  | append_singleton calls c ih =>
      rw [after_snoc]
      exact keyIds_call ih c

/-- **Entries are stored under their IDs**, on every panel, whatever overlaps on its session. -/
theorem keyIds_occurs {env : Env} {pw : PanelWorld} (h : pw.Occurs env) : pw.panel.KeyIds := by
  obtain ⟨calls, hcalls⟩ := PanelWorld.panel_eq_after h
  rw [hcalls]
  exact keyIds_after calls

/-- **Whatever overlaps on the session**, an event that is applied names what it changes, and one
that raises changes nothing. -/
theorem reported_occurs {env : Env} {pw pw' : PanelWorld} {a : PanelAction} (h : pw.Occurs env)
    (happlies : PanelWorld.Applies a ev) (hstep : pw.step env a = some pw') :
    pw'.panel = pw.panel ∨
      ∃ update, pw.panel.applyEvent ev = .ok (pw'.panel, update) ∧
        Reported pw.panel pw'.panel update := by
  have hafter : pw' = pw.applyEvent ev := by
    obtain rfl | ⟨t, rfl, hcode⟩ := happlies
    · exact (Option.some.inj hstep).symm
    · unfold PanelWorld.step at hstep
      dsimp only at hstep
      rw [if_neg hcode] at hstep
      exact (Option.some.inj hstep).symm
  subst hafter
  unfold PanelWorld.applyEvent applied
  dsimp only
  cases happly : pw.panel.applyEvent ev with
  | error e => exact .inl rfl
  | ok r =>
      obtain ⟨p', update⟩ := r
      exact .inr ⟨update, rfl, (applyEvent_effect happly).reported (keyIds_occurs h)⟩

end

/-- **Every change is reported, and nothing else moves.** On a panel whose entries are stored
under their IDs, an update names every entry that has changed. An event that is applied touches
the input of one zone and the flag of its area at most; the events that need a read leave the
zones alone, and where the read fails they leave everything as it was. -/
theorem updates_reported (p : Panel) (hkeys : p.KeyIds) (ev : SiaEvent)
    (outcome : Except Outcome XmlReply) :
    (∀ p' update, p.applyEvent ev = .ok (p', update) →
      Reported p p' update ∧ (∃ z, Confined p p' z) ∧
      (∀ a, (p'.areas.lookup a).map Area.armMode = (p.areas.lookup a).map Area.armMode) ∧
      (NeedsAreaStatus (upper ev.siaCode) → p' = p ∧ update = {})) ∧
    (∀ p' update, p.reconcileEvent ev outcome = (p', .ok update) → Reported p p' update) ∧
    (NeedsAreaStatus (upper ev.siaCode) → (p.reconcileEvent ev outcome).1.zones = p.zones ∧
      ∀ e, outcome = .error e → p.reconcileEvent ev outcome = (p, .error (.command e))) := by
  refine ⟨fun p' update h => ?_, fun p' update h => reconcileEvent_reported hkeys h,
    fun hcode => ⟨reconcileEvent_zones hcode, ?_⟩⟩
  · have heffect := applyEvent_effect h
    obtain ⟨z, hconfined⟩ := heffect.confined
    exact ⟨heffect.reported hkeys, ⟨z, hconfined⟩, hconfined.armMode,
      heffect.eq_of_needsAreaStatus⟩
  · rintro e rfl
    exact if_pos hcode

/-- Area 1 and a zone of it. -/
def furnished : Panel := after [
  .refreshAreas (.ok [(text "AREA_STATUS", [[(text "ID", text "1"), (text "MODE", text "3")]])]),
  .refreshZones (.ok [(text "ZONE_STATUS", [[(text "ID", text "5"), (text "AREA", text "1")]])])]

/-- A burglary in that zone. -/
def burglary : SiaEvent where
  spcId := 1000
  timestamp := none
  timestampRaw := []
  siaCode := text "ba"
  address := text " 5 "
  description := []
  verificationId := text "0"

/-- A burglary names its zone and the area, and nothing else changes. -/
theorem updates_reported_burglary : ∃ p' update,
    furnished.applyEvent burglary = .ok (p', update) ∧
    update = { zoneIds := {5}, areaIds := {1} } ∧ Reported furnished p' update ∧
    ∃ z, Confined furnished p' z := by
  have hupdate : (furnished.applyEvent burglary).toOption.map Prod.snd =
      some { zoneIds := {5}, areaIds := {1} } := by
    decide +kernel
  obtain ⟨happlied, -, -⟩ := updates_reported furnished (keyIds_after _) burglary (.ok [])
  cases happly : furnished.applyEvent burglary with
  | error e =>
      rw [happly] at hupdate
      cases hupdate
  | ok r =>
      obtain ⟨p', update⟩ := r
      rw [happly] at hupdate
      obtain ⟨hreported, hconfined, -, -⟩ := happlied p' update happly
      exact ⟨p', update, rfl, Option.some.inj hupdate, hreported, hconfined⟩

end Panel

end Spcedp
