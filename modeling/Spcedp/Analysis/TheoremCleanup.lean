import Spcedp.Analysis.TaskRuns
import Spcedp.Model.Connection

/-!
# Every command cleans up after itself

`cleanedUp_iff`: in every run, a call that has ended leaves no entry of its own in either
dictionary and does not hold the lock, and a call that ended with an error of its own has sent
nothing and registered nothing, if and only if it never came to send a request that does not fit
a frame (`Sending`). There the future is registered before the frame is encoded, and no `finally`
clause covers that.
-/

set_option autoImplicit false

namespace Spcedp.Client

open Lib.FairLock Lib.Transition Spcedp.PyText Spcedp.Wire Spcedp.Xmlcmd
open Lib.XmlTag (escape write flatMap_escape_of_notMem)

/-- An error raised before anything is sent: of the arguments, in building the request, or in
encoding it. -/
def Outcome.Local : Outcome → Prop
  | .badArgument | .buildError _ | .wireError _ => True
  | _ => False

/-- Task `t` made the future `n` in a run from `w₀`. -/
def Created (env : Env) (w₀ : World) (as : List Action) (t n : ℕ) : Prop :=
  ∃ w₁ a w₂, Happens (World.step env) w₀ as w₁ a w₂ ∧ a.Moves t ∧
    w₁.sess.futures.length ≤ n ∧ n < w₂.sess.futures.length

/-- Neither the write queue nor a dictionary has changed. -/
structure Untouched (s s' : Session) : Prop where
  writeQueue : s'.writeQueue = s.writeQueue
  pending : ∀ c, s'.pendingOf c = s.pendingOf c

/-- What a call that ended with `o` has left behind in `w`, after a run from `w₀`. -/
structure CleanedUp (env : Env) (w₀ : World) (as : List Action) (w : World) (t : ℕ) (o : Outcome) :
    Prop where
  pending : ∀ c q n, (w.sess.pendingOf c).lookup q = some n → ¬Created env w₀ as t n
  lock : t ∉ w.sess.commandLock.inside ∧ ¬w.sess.commandLock.Waits t
  untouched : o.Local → ∀ w₁ a w₂, Happens (World.step env) w₀ as w₁ a w₂ → a.Moves t →
    Untouched w₁.sess w₂.sess

/-- Task `t` passes the checks that stand before its request `r`, in its next step `a`: it holds
the lock or is given it, nobody has stopped it, the session is open and the panel has been
quiet. -/
inductive Sending (w : World) : Action → ℕ → Request → Prop
  | called {t cmd r} : (w.tasks t).pc = .idle → cmd.check = some r →
      (w.sess.commandLock.acquire t).2 = true → Sendable w.now w.sess → Sending w (.call t cmd) t r
  | woken {t r} : (w.tasks t).pc = .lockWait → (w.tasks t).request = some r →
      (w.tasks t).cancelRequested = false → (t, Waiter.woken) ∈ w.sess.commandLock.waiters →
      Sendable w.now w.sess → Sending w (.resume t) t r
  | slept {t r} : (w.tasks t).pc = .quiet → (w.tasks t).request = some r →
      (w.tasks t).cancelRequested = false → (w.tasks t).expired = false →
      Sendable w.now w.sess → Sending w (.resume t) t r

section

variable {env : Env} {w₀ w w' : World} {as : List Action} {a : Action} {t : ℕ}

/-! ## Its own errors -/

/-- An error of a call of its own is that its request cannot be built or encoded. -/
theorem Ending.unbuilt_of_local {r : Request} {o : Outcome} (h : Ending env w t r o)
    (ho : o.Local) (hwire : ∀ e, o ≠ .wireError e) :
    ∃ e, o = .buildError e ∧ ∀ continuation payload, r.payload continuation ≠ .ok payload := by
  cases h with
  | @unbuilt continuation o h =>
      obtain ⟨len, hlen⟩ | ⟨e, he⟩ := r.payload_uniform
      · obtain ⟨payload, hpayload, -⟩ := hlen continuation
        rw [hpayload] at h
        cases h
      · refine ⟨e, ?_, fun c payload => by rw [he]; exact nofun⟩
        rw [he, Except.error.injEq] at h
        exact h.symm
  | unencoded => exact absurd rfl (hwire _)
  | answered _ _ _ _ h => cases h <;> exact ho.elim
  | _ => exact ho.elim

/-- A request that fits is encoded. -/
theorem Ending.not_fits_of_wire {r : Request} {e : WireError}
    (h : Ending env w t r (.wireError e)) (hkey : ∀ k ∈ w.sess.key, k.length = 16) : ¬r.Fits := by
  intro hfits
  cases h with
  | unbuilt h =>
      obtain ⟨e', he'⟩ := buildError_of_payload h
      cases he'
  | unencoded hpayload hf henc =>
      obtain ⟨data, f', henc'⟩ := encode_of_fits env.aes hkey (hf ▸ hfits.length_le hpayload)
      rw [henc'] at henc
      cases henc
  | answered _ _ _ _ h => cases h

section Ends

variable {now : ℚ} {s s' : Session} {r : Request} {given : Option Bytes} {pc : Pc}
  {last last' : Option (Frame × ℕ)}

/-- Without a request a segment leaves queue and dictionaries alone. -/
theorem Ends.untouched (h : Ends env now s r given last s' pc last') (hlast : last' = none)
    (hpc : ∀ e, pc ≠ .finished (.wireError e)) : Untouched s s' := by
  cases h with
  | stopped => exact ⟨rfl, fun _ => rfl⟩
  | asleep => exact ⟨rfl, fun _ => rfl⟩
  | unbuilt => exact ⟨rfl, fun c => by cases c <;> rfl⟩
  | unencoded => exact absurd rfl (hpc _)
  | sent => cases hlast

/-- A future that a segment registers is the one that its task waits for. -/
theorem Ends.awaits (h : Ends env now s r given last s' pc last')
    (hpc : ∀ e, pc ≠ .finished (.wireError e)) :
    SameMaps s s' ∨ Registered s r.channel s' ∧ ∃ q, pc = .awaiting s.futures.length q := by
  obtain ⟨-, ⟨hsame, -⟩ | ⟨hreg, -⟩⟩ := ends_maps h
  · exact .inl hsame
  · cases h with
    | unencoded => exact absurd rfl (hpc _)
    | sent => exact .inr ⟨hreg, _, rfl⟩
    | _ =>
      have := congrArg List.length hreg.futures
      simp [Session.allocSeq] at this

/-- A request that is sent fits. -/
theorem Ends.fits (h : Ends env now s r given last s' pc last')
    (hkey : ∀ k ∈ s.key, k.length = 16) (hlast : last' ≠ none) : last ≠ none ∨ r.Fits := by
  cases h with
  | stopped => exact .inl hlast
  | asleep => exact .inl hlast
  | unbuilt => exact .inl hlast
  | unencoded => exact .inl hlast
  | sent _ hsend hpayload =>
      refine .inr (Request.fits_of_length_le hpayload ?_)
      by_contra hlong
      obtain ⟨data, f', henc, -⟩ := Session.send_cases hsend
      have hkey' : ∀ k ∈ (s.registered r.channel).key, k.length = 16 := by
        cases r.channel <;> exact hkey
      obtain ⟨e, herror, -⟩ := encode_too_large (s.request r.channel _) env.aes _ hkey'
        (not_le.mp hlong)
      rw [herror] at henc
      cases henc

end Ends

section Runs

variable {r : Request} {s : Session} {given : Option Bytes}

/-- A task that runs again has taken the future it waited for off its dictionary. -/
theorem Runs.lookup_ne (hruns : Runs w a t r s given) (hinv : Inv w) {n : ℕ} {q : ℤ}
    (hpc : (w.tasks t).pc = .awaiting n q) (c : Channel) (q' : ℤ) :
    (s.pendingOf c).lookup q' ≠ some n := by
  intro hlookup
  have hlookup' := (runs_inside hinv hruns).pending c q' n hlookup
  cases hruns with
  | called hidle => cases hidle.symm.trans hpc
  | woken hwait => cases hwait.symm.trans hpc
  | slept hquiet => cases hquiet.symm.trans hpc
  | @answered t r n₀ q₀ hpc₀ hreq =>
      cases hpc₀.symm.trans hpc
      obtain ⟨r', hreq', -, f, hf, hfc, hfq, -⟩ := hinv.awaited t n _ hpc₀
      rw [hreq, Option.some.injEq] at hreq'
      subst hreq'
      -- it is registered nowhere else
      obtain ⟨f', hf', hfc', hfq'⟩ := hinv.registered c q' n hlookup'
      rw [hf, Option.some.injEq] at hf'
      subst hf'
      rw [← hfc', hfc, ← hfq', hfq, Session.unregister, Session.pendingOf_setPending,
        AList.lookup_erase] at hlookup
      cases hlookup

/-- A task that has not sent a request yet starts from the session as it is. -/
theorem Runs.untouched (hruns : Runs w a t r s given) (hinv : Inv w)
    (hlast : (w.tasks t).lastRequest = none) : Untouched w.sess s := by
  cases hruns with
  | called => exact ⟨rfl, fun c => by cases c <;> rfl⟩
  | woken => exact ⟨rfl, fun c => by cases c <;> rfl⟩
  | slept => exact ⟨rfl, fun _ => rfl⟩
  | answered hpc =>
      obtain ⟨-, -, ⟨-, fr, hfr, -⟩, -⟩ := hinv.awaited _ _ _ hpc
      rw [hlast] at hfr
      cases hfr

end Runs

/-! ## The invariant -/

/-- What holds of the call of task `t` after every run from `w₀`: the one registered future of
its own is the one it waits for, and without a request it has touched nothing. -/
structure Tidy (env : Env) (w₀ : World) (as : List Action) (w : World) (t : ℕ) : Prop where
  created : ∀ n, Created env w₀ as t n → n < w.sess.futures.length
  pending : ∀ c q n, (w.sess.pendingOf c).lookup q = some n → Created env w₀ as t n →
    ∃ q', (w.tasks t).pc = .awaiting n q'
  local_ : ∀ o, (w.tasks t).pc = .finished o → o.Local → (w.tasks t).lastRequest = none
  untouched : (w.tasks t).lastRequest = none → ∀ w₁ a w₂,
    Happens (World.step env) w₀ as w₁ a w₂ → a.Moves t → Untouched w₁.sess w₂.sess
  fits : (w.tasks t).lastRequest ≠ none → ∀ r, (w.tasks t).request = some r → r.Fits

/-- Before the run nothing has been touched. -/
theorem tidy_nil (hpc : (w₀.tasks t).pc = .idle) (hlast : (w₀.tasks t).lastRequest = none) :
    Tidy env w₀ [] w₀ t := by
  refine ⟨?_, ?_, ?_, ?_, fun h => absurd hlast h⟩
  · rintro n ⟨w₁, a, w₂, h, -⟩
    exact absurd h not_happens_nil
  · rintro c q n - ⟨w₁, a, w₂, h, -⟩
    exact absurd h not_happens_nil
  · intro o ho
    rw [hpc] at ho
    cases ho
  · intro _ w₁ a w₂ h
    exact absurd h not_happens_nil

variable (hrun : run (World.step env) w₀ as = some w) (hstep : w.step env a = some w')

include hrun hstep in
/-- The futures that a task has made, one step later. -/
theorem created_snoc_iff {n : ℕ} : Created env w₀ (as ++ [a]) t n ↔
    Created env w₀ as t n ∨ a.Moves t ∧ w.sess.futures.length ≤ n ∧ n < w'.sess.futures.length := by
  unfold Created
  simp only [happens_last_iff hrun hstep]
  constructor
  · rintro ⟨w₁, b, w₂, h | ⟨rfl, rfl, rfl⟩, hmoves, hlen⟩
    · exact .inl ⟨w₁, b, w₂, h, hmoves, hlen⟩
    · exact .inr ⟨hmoves, hlen⟩
  · rintro (⟨w₁, b, w₂, h, hmoves, hlen⟩ | ⟨hmoves, hlen⟩)
    · exact ⟨w₁, b, w₂, .inl h, hmoves, hlen⟩
    · exact ⟨w, a, w', .inr ⟨rfl, rfl, rfl⟩, hmoves, hlen⟩

include hrun hstep in
/-- Others do not touch what a call leaves behind. -/
theorem Tidy.other (htidy : Tidy env w₀ as w t) (hinv : Inv w) (ha : ¬a.Moves t) :
    Tidy env w₀ (as ++ [a]) w' t := by
  have hgrows := step_grows hinv hstep
  have hsame := step_other hstep ha
  have hcreated (n : ℕ) (h : Created env w₀ (as ++ [a]) t n) : Created env w₀ as t n :=
    ((created_snoc_iff hrun hstep).mp h).resolve_right fun h => ha h.1
  refine ⟨fun n hn => (htidy.created n (hcreated n hn)).trans_le hgrows.length, ?_, ?_, ?_, ?_⟩
  · intro c q n hlookup hn
    rw [hsame.pc]
    obtain hold | hnew := hgrows.lookup c q n hlookup
    · exact htidy.pending c q n hold (hcreated n hn)
    · exact absurd (htidy.created n (hcreated n hn)) (not_lt.mpr hnew)
  · rw [hsame.pc, hsame.lastRequest]
    exact htidy.local_
  · rw [hsame.lastRequest]
    intro hlast w₁ b w₂ h hb
    obtain h | ⟨-, rfl, -⟩ := (happens_last_iff hrun hstep).mp h
    · exact htidy.untouched hlast w₁ b w₂ h hb
    · exact absurd hb ha
  · rw [hsame.lastRequest, hsame.request]
    exact htidy.fits

include hrun hstep in
/-- A step of the task outside the lock. -/
theorem Tidy.outside (htidy : Tidy env w₀ as w t) (hmaps : SameMaps w.sess w'.sess)
    (hqueue : w'.sess.writeQueue = w.sess.writeQueue)
    (hpc : ∀ n q, (w.tasks t).pc ≠ .awaiting n q) (hlast : (w.tasks t).lastRequest = none)
    (hlast' : (w'.tasks t).lastRequest = none) : Tidy env w₀ (as ++ [a]) w' t := by
  have hcreated (n : ℕ) (h : Created env w₀ (as ++ [a]) t n) : Created env w₀ as t n := by
    obtain h | ⟨-, hle, hlt⟩ := (created_snoc_iff hrun hstep).mp h
    · exact h
    · rw [hmaps.futures] at hlt
      omega
  refine ⟨fun n hn => hmaps.futures ▸ htidy.created n (hcreated n hn), ?_, fun _ _ _ => hlast', ?_,
    fun h => absurd hlast' h⟩
  · intro c q n hlookup hn
    rw [hmaps.pending] at hlookup
    obtain ⟨q', hq'⟩ := htidy.pending c q n hlookup (hcreated n hn)
    exact absurd hq' (hpc n q')
  · intro _ w₁ b w₂ h hb
    obtain h | ⟨rfl, -, rfl⟩ := (happens_last_iff hrun hstep).mp h
    · exact htidy.untouched hlast w₁ b w₂ h hb
    · exact ⟨hqueue, hmaps.pending⟩

include hrun hstep in
/-- What the task has created by then and is still pending after its segment, it awaits. -/
theorem Tidy.ran_pending {r : Request} {s : Session} {given : Option Bytes} {seg : Segment}
    (htidy : Tidy env w₀ as w t) (hinv : Inv w) (hwire : ∀ e, seg.2.pc ≠ .finished (.wireError e))
    (hruns : Runs w a t r s given)
    (hseg : SegmentEnd env w.now s r given (w.tasks t).lastRequest seg)
    (hw' : w' = w.settle t seg) {c : Channel} {q : ℤ} {n : ℕ}
    (hlookup : (w'.sess.pendingOf c).lookup q = some n)
    (hn : Created env w₀ (as ++ [a]) t n) : ∃ q', seg.2.pc = .awaiting n q' := by
  have hins := runs_inside hinv hruns
  have hsettle := settle_same w t seg
  have hnone (hn : Created env w₀ as t n) : (s.pendingOf c).lookup q ≠ some n := by
    intro hlookup
    obtain ⟨q', hpc⟩ := htidy.pending c q n (hins.pending c q n hlookup) hn
    exact hruns.lookup_ne hinv hpc c q hlookup
  rw [hw', hsettle.pending] at hlookup
  obtain hn | ⟨-, hle, hlt⟩ := (created_snoc_iff hrun hstep).mp hn
  · obtain hsame | ⟨hreg, -⟩ := hseg.ends.awaits hwire
    · rw [hsame.pending] at hlookup
      exact absurd hlookup (hnone hn)
    · obtain hold | hnew := hreg.grows.lookup c q n hlookup
      · exact absurd hold (hnone hn)
      · rw [hins.futures] at hnew
        exact absurd (htidy.created n hn) (not_lt.mpr hnew)
  · rw [hw', hsettle.futures] at hlt
    rw [← hins.futures] at hle
    obtain hsame | ⟨hreg, q', hpc⟩ := hseg.ends.awaits hwire
    · rw [hsame.futures] at hlt
      omega
    · rw [hreg.futures, List.length_append, List.length_singleton] at hlt
      exact ⟨q', by rw [hpc, show n = s.futures.length by omega]⟩

include hrun hstep in
/-- A step of the task inside the lock, unless its request cannot be encoded. -/
theorem Tidy.ran {r : Request} {s : Session} {given : Option Bytes} {seg : Segment}
    (htidy : Tidy env w₀ as w t) (hinv : Inv w) (hbegun : Begun (w.tasks t))
    (hkey : ∀ k ∈ w.sess.key, k.length = 16) (hwire : ∀ e, seg.2.pc ≠ .finished (.wireError e))
    (hr : (w.tasks t).pc = .idle ∨ (w.tasks t).request = some r) (hruns : Runs w a t r s given)
    (hseg : SegmentEnd env w.now s r given (w.tasks t).lastRequest seg)
    (hlaw : Lawful r (w.tasks t).lastRequest (w.tasks t).cancelRequested (Ending env w t r) seg)
    (hw' : w' = w.settle t seg) : Tidy env w₀ (as ++ [a]) w' t := by
  have hgrows := step_grows hinv hstep
  have hsettle := settle_same w t seg
  have htask : w'.tasks t = seg.2 := by rw [hw', settle_tasks, Function.update_self]
  have hlocal (o : Outcome) (ho : seg.2.pc = .finished o) (hl : o.Local) :=
    (hlaw.finished o ho).unbuilt_of_local hl fun e he => hwire e (he ▸ ho)
  refine ⟨?_, ?_, ?_, ?_, ?_⟩
  · intro n hn
    obtain hn | ⟨-, -, hlt⟩ := (created_snoc_iff hrun hstep).mp hn
    · exact (htidy.created n hn).trans_le hgrows.length
    · exact hlt
  · intro c q n hlookup hn
    rw [htask]
    exact htidy.ran_pending hrun hstep hinv hwire hruns hseg hw' hlookup hn
  · intro o ho hl
    rw [htask] at ho ⊢
    obtain ⟨e, -, hunbuilt⟩ := hlocal o ho hl
    rw [hlaw.built.resolve_right fun ⟨c, payload, h⟩ => hunbuilt c payload h]
    by_contra hlast
    obtain ⟨r', c, payload, hr', hpayload⟩ := hbegun.built hlast
    obtain hidle | hr := hr
    · exact hlast (hbegun.idle hidle).2
    · rw [hr, Option.some.injEq] at hr'
      exact hunbuilt c payload (hr' ▸ hpayload)
  · intro hlast w₁ b w₂ h hb
    have hbefore := lastRequest_step hstep hlast
    obtain h | ⟨rfl, -, rfl⟩ := (happens_last_iff hrun hstep).mp h
    · exact htidy.untouched hbefore w₁ b w₂ h hb
    · rw [htask] at hlast
      have huntouched := hseg.ends.untouched hlast hwire
      have hstart := hruns.untouched hinv hbefore
      obtain ⟨lock, hsess⟩ := settle_session w₁ t seg
      refine ⟨?_, fun c => ?_⟩
      · rw [hw', hsess]
        exact huntouched.writeQueue.trans hstart.writeQueue
      · rw [hw', hsettle.pending, huntouched.pending, hstart.pending]
  · rw [htask]
    intro hlast r' hr'
    rw [hseg.request, Option.some.injEq] at hr'
    subst hr'
    have hkey' : ∀ k ∈ s.key, k.length = 16 := by
      obtain ⟨-, lock, pendingXml, pendingBin, rfl⟩ := runs_session hruns
      exact hkey
    obtain hbefore | hfits := hseg.ends.fits hkey' hlast
    · refine htidy.fits hbefore r (hr.resolve_left fun hidle => ?_)
      exact hbefore (hbegun.idle hidle).2
    · exact hfits

include hrun hstep in
/-- **Every step keeps a call tidy**, unless its request cannot be encoded. -/
theorem tidy_step (htidy : Tidy env w₀ as w t) (hinv : Inv w) (hbegun : Begun (w.tasks t))
    (hkey : ∀ k ∈ w.sess.key, k.length = 16)
    (hwire : ∀ e, (w'.tasks t).pc ≠ .finished (.wireError e)) : Tidy env w₀ (as ++ [a]) w' t := by
  by_cases ha : a.Moves t
  · cases step_moved hstep ha with
    | refused hpc =>
        apply htidy.outside hrun hstep (.refl _) rfl (by simp [hpc]) (hbegun.idle hpc).2
        dsimp only
        rw [Function.update_self]
        exact (hbegun.idle hpc).2
    | enqueued hpc =>
        refine htidy.outside hrun hstep (sameMaps_lock _ _) rfl (by simp [hpc])
          (hbegun.idle hpc).2 ?_
        dsimp only
        rw [Function.update_self]
        exact (hbegun.idle hpc).2
    | gaveUp hpc =>
        refine htidy.outside hrun hstep (sameMaps_lock _ _) rfl (by simp [hpc])
          (hbegun.lockWait hpc) ?_
        dsimp only
        rw [Function.update_self]
        exact hbegun.lockWait hpc
    | ran hr hruns hseg hlaw =>
        rw [settle_tasks, Function.update_self] at hwire
        exact htidy.ran hrun hstep hinv hbegun hkey hwire hr hruns hseg hlaw rfl
  · exact htidy.other hrun hstep hinv ha

end

/-! ## A request that does not fit -/

/-- A frame that cannot be encoded is not queued. -/
theorem send_of_encode_error {aes : AesEcb} {s : Session} {f : Frame} {e : WireError}
    (h : f.encode aes s.key = .error e) : s.send aes f = .error e := by
  unfold Session.send
  rw [h]
  rfl

/-- **The leak.** A request that can be built but does not fit leaves its future registered. -/
theorem sendRequest_too_long (env : Env) (task : Task) {s : Session} {r : Request} {payload : Bytes}
    (hkey : ∀ k ∈ s.key, k.length = 16) (hpayload : r.payload (task.rounds ≠ 0) = .ok payload)
    (hlen : 65514 < payload.length) : ∃ e, sendRequest env s task r =
      (s.registered r.channel, { task with pc := .finished (.wireError e) }) := by
  obtain ⟨e, henc, -⟩ := encode_too_large (s.request r.channel payload) env.aes s.key hkey hlen
  have hkey' : (s.registered r.channel).key = s.key := by cases r.channel <;> rfl
  rw [← hkey'] at henc
  have hsend : (s.allocSeq.1.register r.channel s.allocSeq.2).send env.aes
      (s.allocSeq.1.frame r.channel.major MinorCode.request.value payload s.allocSeq.2) =
        .error e :=
    send_of_encode_error henc
  refine ⟨e, ?_⟩
  unfold sendRequest
  dsimp only
  rw [hpayload]
  dsimp only
  rw [register_frame, hsend]
  rfl

section

variable {env : Env} {w₀ w w' : World} {as : List Action} {a : Action} {t : ℕ} {r : Request}

/-- A step that sends a request is a turn of its task. -/
theorem Sending.moves (h : Sending w a t r) : a.Moves t := by
  cases h with
  | called => exact .inr ⟨_, rfl⟩
  | woken => exact .inl rfl
  | slept => exact .inl rfl

/-- A call that passes the checks comes to `sendRequest`. -/
theorem Sending.step_eq (env : Env) (h : Sending w a t r) : ∃ (s : Session) (task : Task),
    w.step env a = some (w.settle t (sendRequest env s task r)) ∧ task.request = some r ∧
      Sendable w.now s ∧ s.key = w.sess.key ∧ s.futures = w.sess.futures := by
  cases h with
  | @called _ cmd _ hpc hcheck hgot hsend =>
      let s : Session := { w.sess with commandLock := (w.sess.commandLock.acquire t).1 }
      have hsend' : Sendable w.now s := ⟨hsend.open_, hsend.quiet⟩
      have hstep : w.step env (.call t cmd) = some (w.call env t cmd) := by
        simp only [World.step, hpc]
      let task : Task := { w.tasks t with request := some r }
      refine ⟨s, { task with assembler := [], rounds := 0, expired := false }, ?_, rfl, hsend', rfl,
        rfl⟩
      rw [hstep]
      unfold World.call
      rw [hcheck]
      dsimp only
      rw [if_pos hgot, enterCommand_of_sendable hsend']
  | woken hpc hr hcancel hwoken hsend =>
      let s : Session := { w.sess with commandLock := w.sess.commandLock.enter t }
      have hsend' : Sendable w.now s := ⟨hsend.open_, hsend.quiet⟩
      refine ⟨s, { w.tasks t with assembler := [], rounds := 0, expired := false }, ?_, hr, hsend',
        rfl, rfl⟩
      rw [resume_woken hpc hr hcancel hwoken, enterCommand_of_sendable hsend']
  | slept hpc hr hcancel hexpired hsend =>
      refine ⟨w.sess, w.tasks t, ?_, hr, hsend, rfl, rfl⟩
      rw [resume_slept hpc hr hcancel hexpired, waitToSend_of_sendable hsend]

/-- **A request that does not fit**: the call ends there, and its future stays registered. -/
theorem Sending.leaks (h : Sending w a t r) (hinv : Inv w)
    (hkey : ∀ k ∈ w.sess.key, k.length = 16) (hfits : ¬r.Fits) (hstep : w.step env a = some w') :
    (∃ e, (w'.tasks t).pc = .finished (.wireError e)) ∧ ¬Untouched w.sess w'.sess := by
  obtain ⟨s, task, hstep', -, -, hkey', hfutures⟩ := h.step_eq env
  obtain ⟨payload, hpayload, hlong⟩ := Request.payload_of_not_fits hfits (task.rounds ≠ 0)
  obtain ⟨e, hseg⟩ := sendRequest_too_long env task (hkey' ▸ hkey) hpayload hlong
  rw [hstep', hseg, Option.some.injEq] at hstep
  rw [← hstep]
  refine ⟨⟨e, by rw [settle_tasks, Function.update_self]⟩, fun huntouched => ?_⟩
  obtain ⟨hreg, -⟩ := registered_registered s r.channel
  have hlookup : (w.sess.pendingOf r.channel).lookup s.allocSeq.2 = some s.futures.length := by
    rw [← huntouched.pending, (settle_same w t _).pending, hreg.pending]
    exact AList.lookup_insert _
  obtain ⟨f, hf, -⟩ := hinv.registered _ _ _ hlookup
  rw [hfutures, List.getElem?_eq_none le_rfl] at hf
  cases hf

/-- A task that is resumed and cannot encode its request had not been stopped. -/
theorem unstopped_of_wire {e : WireError} (hr : (w.tasks t).request = some r)
    (hstep : w.step env (.resume t) = some w')
    (hend : (w'.tasks t).pc = .finished (.wireError e)) :
    ((w.tasks t).pc = .lockWait → (w.tasks t).cancelRequested = false) ∧
    ((w.tasks t).pc = .quiet →
      (w.tasks t).cancelRequested = false ∧ (w.tasks t).expired = false) := by
  refine ⟨fun hpc => ?_, fun hpc => ?_⟩
  · rw [← Bool.not_eq_true]
    intro hcancel
    simp only [World.step, World.resume, hpc, hr] at hstep
    rw [if_pos hcancel, Option.some.injEq] at hstep
    rw [← hstep] at hend
    dsimp only at hend
    rw [Function.update_self] at hend
    cases hend
  · simp only [World.step, World.resume, hpc, hr, Option.some.injEq] at hstep
    rw [← hstep, settle_tasks, Function.update_self] at hend
    unfold wakeQuiet at hend
    split at hend
    · cases hend
    · rename_i hcancel
      split at hend
      · cases hend
      · rename_i hexpired
        exact ⟨Bool.not_eq_true _ ▸ hcancel, Bool.not_eq_true _ ▸ hexpired⟩

/-- **A call whose request cannot be encoded** came to send a request that does not fit. -/
theorem Tidy.sending_of_wire (htidy : Tidy env w₀ as w t) (hinv : Inv w)
    (hkey : ∀ k ∈ w.sess.key, k.length = 16) (hstep : w.step env a = some w')
    (hopen : ∀ e, (w.tasks t).pc ≠ .finished (.wireError e)) {e : WireError}
    (hend : (w'.tasks t).pc = .finished (.wireError e)) : ∃ r, Sending w a t r ∧ ¬r.Fits := by
  have ha : a.Moves t := by
    by_contra ha
    rw [(step_other hstep ha).pc] at hend
    exact hopen e hend
  have hend' := hend
  cases step_moved hstep ha with
  | refused =>
      dsimp only at hend
      rw [Function.update_self] at hend
      cases hend
  | enqueued =>
      dsimp only at hend
      rw [Function.update_self] at hend
      cases hend
  | gaveUp =>
      dsimp only at hend
      rw [Function.update_self] at hend
      cases hend
  | @ran r s given seg hr hruns hseg hlaw =>
      rw [settle_tasks, Function.update_self] at hend
      have hsend := hseg.ends.sendable_of_wire hend
      have hfits := (hlaw.finished _ hend).not_fits_of_wire hkey
      refine ⟨r, ?_, hfits⟩
      cases hruns with
      | called hpc hcheck hgot => exact .called hpc hcheck hgot ⟨hsend.open_, hsend.quiet⟩
      | woken hpc hwoken =>
          have hr := hr.resolve_left (by simp [hpc])
          have hcancel := (unstopped_of_wire hr hstep hend').1 hpc
          exact .woken hpc hr hcancel hwoken ⟨hsend.open_, hsend.quiet⟩
      | slept hpc =>
          have hr := hr.resolve_left (by simp [hpc])
          obtain ⟨hcancel, hexpired⟩ := (unstopped_of_wire hr hstep hend').2 hpc
          exact .slept hpc hr hcancel hexpired hsend
      | answered hpc hr =>
          -- a request that is sent again has fitted before
          obtain ⟨-, -, ⟨-, fr, hfr, -⟩, -⟩ := hinv.awaited _ _ _ hpc
          exact absurd (htidy.fits (by rw [hfr]; exact Option.some_ne_none _) r hr) hfits

/-- A call that has ended stays so. -/
theorem finished_of_run {o : Outcome} (hrun : run (World.step env) w as = some w')
    (hend : (w.tasks t).pc = .finished o) : (w'.tasks t).pc = .finished o :=
  run_invariant (I := fun w => (w.tasks t).pc = .finished o)
    (fun _ _ _ h hstep => (step_pc hstep t).2 o h) hend hrun

/-- **A call that never comes to send a request that does not fit** is tidy throughout, and is
not ended by the encoder. -/
theorem tidy_of_run {panelId receiverId : ℤ} {key : Key} {now : ℚ}
    (hrun : run (World.step env) (World.new panelId receiverId key.val now) as = some w) :
    (∀ w₁ a w₂ r, Happens (World.step env) (World.new panelId receiverId key.val now) as w₁ a w₂ →
      Sending w₁ a t r → r.Fits) →
    (∀ e, (w.tasks t).pc ≠ .finished (.wireError e)) ∧
      Tidy env (World.new panelId receiverId key.val now) as w t := by
  apply run_induction (P := fun as w => (∀ w₁ a w₂ r,
    Happens (World.step env) (World.new panelId receiverId key.val now) as w₁ a w₂ →
      Sending w₁ a t r → r.Fits) → (∀ e, (w.tasks t).pc ≠ .finished (.wireError e)) ∧
    Tidy env (World.new panelId receiverId key.val now) as w t) ?_ ?_ as w hrun
  · exact fun _ => ⟨nofun, tidy_nil rfl rfl⟩
  · intro as w a w' hrun ih hstep hsends
    have hcoherent := coherent_of_run hrun
    have hkey : ∀ k ∈ w.sess.key, k.length = 16 := hcoherent.key ▸ key.property
    obtain ⟨hopen, htidy⟩ := ih fun w₁ b w₂ r h =>
      hsends w₁ b w₂ r ((happens_last_iff hrun hstep).mpr (.inl h))
    have hwire (e : WireError) : (w'.tasks t).pc ≠ .finished (.wireError e) := by
      intro hend
      obtain ⟨r, hsending, hfits⟩ := htidy.sending_of_wire hcoherent.inv hkey hstep hopen hend
      exact hfits (hsends w a w' r
        ((happens_last_iff hrun hstep).mpr (.inr ⟨rfl, rfl, rfl⟩)) hsending)
    exact ⟨hwire, tidy_step hrun hstep htidy hcoherent.inv (hcoherent.begun t) hkey hwire⟩

end

/-! ## The theorem -/

/-- **Cleaning up.** After every run in which a call has ended, in whatever way, the call has
cleaned up if and only if it never came to send a request that does not fit a frame. -/
theorem cleanedUp_iff (env : Env) (panelId receiverId : ℤ) (key : Key) (now : ℚ)
    (as : List Action) (w : World) (t : ℕ) (o : Outcome)
    (hrun : run (World.step env) (World.new panelId receiverId key.val now) as = some w)
    (hend : (w.tasks t).pc = .finished o) :
    CleanedUp env (World.new panelId receiverId key.val now) as w t o ↔
      ∀ w₁ a w₂ r,
        Happens (World.step env) (World.new panelId receiverId key.val now) as w₁ a w₂ →
        Sending w₁ a t r → r.Fits := by
  constructor
  · intro hclean w₁ a w₂ r hhappens hsending
    by_contra hfits
    obtain ⟨before, after, rfl, hbefore, hstep⟩ := hhappens
    have hcoherent := coherent_of_run hbefore
    obtain ⟨⟨e, hwire⟩, htouched⟩ := hsending.leaks hcoherent.inv
      (hcoherent.key ▸ key.property) hfits hstep
    have hafter : run (World.step env) w₂ after = some w := by
      rw [run_append, hbefore, Option.bind_some, run_cons, hstep] at hrun
      exact hrun
    have hlast := finished_of_run hafter hwire
    rw [hend, Pc.finished.injEq] at hlast
    subst hlast
    exact htouched (hclean.untouched trivial w₁ a w₂ ⟨before, after, rfl, hbefore, hstep⟩
      hsending.moves)
  · intro hsends
    have hinv := (coherent_of_run hrun).inv
    obtain ⟨-, htidy⟩ := tidy_of_run hrun hsends
    refine ⟨?_, ⟨?_, ?_⟩, fun hl => htidy.untouched (htidy.local_ o hend hl)⟩
    · intro c q n hlookup hn
      obtain ⟨q', hpc⟩ := htidy.pending c q n hlookup hn
      rw [hend] at hpc
      cases hpc
    · rw [hinv.inside t, hend]
      exact id
    · rw [hinv.waits t, hend]
      exact nofun

/-- Has the call been cancelled? -/
def Pc.isCancelled : Pc → Bool
  | finished .cancelled => true
  | _ => false

/-- A place that tests as cancelled is the end by a cancellation. -/
theorem Pc.eq_of_isCancelled {pc : Pc} (h : pc.isCancelled = true) : pc = .finished .cancelled := by
  unfold isCancelled at h
  split at h
  · rfl
  · cases h

/-- A binary command fits. -/
theorem fits_of_channel {r : Request} (h : r.channel = .bin) : r.Fits := by
  intro payload hpayload
  cases r with
  | xml => cases h
  | binary op targetId timeout =>
      cases hpayload
      simp

/-- The request that a call comes to send is that of its task in the end. -/
theorem request_of_sending {env : Env} {panelId receiverId : ℤ} {key : Key} {now : ℚ}
    {as : List Action} {w w₁ w₂ : World} {a : Action} {t : ℕ} {r : Request}
    (hrun : run (World.step env) (World.new panelId receiverId key.val now) as = some w)
    (hhappens : Happens (World.step env) (World.new panelId receiverId key.val now) as w₁ a w₂)
    (h : Sending w₁ a t r) : (w.tasks t).request = some r := by
  obtain ⟨before, after, rfl, hbefore, hstep⟩ := hhappens
  have hcoherent := (coherent_of_run hbefore).step hstep
  have hafter : run (World.step env) w₂ after = some w := by
    rw [run_append, hbefore, Option.bind_some, run_cons, hstep] at hrun
    exact hrun
  have hstart : (w₂.tasks t).request = some r := by
    obtain ⟨s, task, hstep', hr, hsend, -⟩ := h.step_eq env
    rw [hstep', Option.some.injEq] at hstep
    rw [← hstep, settle_tasks, Function.update_self]
    exact (@sendRequest_ends env _ s task r none _ hsend hr rfl).request
  exact (run_invariant (I := fun w => Coherent key.val w ∧ (w.tasks t).request = some r)
    (fun _ _ _ h hstep => ⟨h.1.step hstep, request_step (h.1.begun t) hstep h.2⟩)
    ⟨hcoherent, hstart⟩ hafter).2

/-- A command that is cancelled while it waits for its reply. -/
theorem cleanedUp_cancelled : ∃ as w, (w.tasks 0).pc = .finished .cancelled ∧
    CleanedUp clearEnv (World.new 1000 1001 none 1) as w 0 .cancelled := by
  have hobs : (run (World.step clearEnv) (World.new 1000 1001 none 1)
      [.call 0 (.binary 1 1 5), .cancel 0, .resume 0]).map (fun w =>
        ((w.tasks 0).pc.isCancelled, (w.tasks 0).request.map Request.channel)) =
      some (true, some .bin) := by decide +kernel
  obtain ⟨w, hrun, hw⟩ := Option.map_eq_some_iff.mp hobs
  rw [Prod.mk.injEq] at hw
  have hpc := Pc.eq_of_isCancelled hw.1
  refine ⟨_, w, hpc, (cleanedUp_iff clearEnv 1000 1001 .clear 1 _ w 0 _ hrun hpc).mpr ?_⟩
  intro w₁ a w₂ r hhappens hsending
  have hr := @request_of_sending clearEnv 1000 1001 .clear 1 _ _ _ _ _ _ _ hrun hhappens hsending
  rw [hr] at hw
  exact fits_of_channel (Option.some_inj.mp hw.2)

/-! ## A request that is too long -/

/-- A text of capital letters is quoted as it is. -/
theorem quoteattr_capitals {data : Text} (h : ∀ c ∈ data, 0x41 ≤ c ∧ c ≤ 0x5A) :
    quoteattr data = [0x22] ++ data ++ [0x22] := by
  have hquote : 0x22 ∉ data := fun hmem => absurd (h 0x22 hmem).1 (by decide)
  have hkeys : ∀ k ∈ escapes.map Prod.fst, k < 0x41 := by decide
  have hplain : data.flatMap (escape escapes) = data := by
    apply flatMap_escape_of_notMem
    intro c hc hmem
    exact absurd (hkeys c hmem) (not_lt.mpr (h c hc).1)
  rw [quoteattr_eq, if_neg fun hboth => hquote hboth.1, if_neg hquote, hplain]

/-- The request for a command of capital letters is longer than its name. -/
theorem payload_capitals {data : Text} (h : ∀ c ∈ data, 0x41 ≤ c ∧ c ≤ 0x5A) (timeout : ℚ) :
    ∃ payload, (Request.xml data timeout []).payload false = .ok payload ∧
      data.length < payload.length := by
  have hascii : ∀ c ∈ write quoteattr (requestElement data []), c < 0x80 :=
    write_ascii (fun c hc => (h c hc).2.trans_lt (by decide)) (by simp [shownAttrs])
      (by simp [shownAttrs])
  refine ⟨fragFirst :: (write quoteattr (requestElement data [])).map UInt8.ofNat, ?_, ?_⟩
  · unfold Request.payload
    dsimp only
    rw [buildRequest_eq data false (by simp) (by simp), encodeAscii_eq hascii]
    rfl
  · unfold write requestElement
    rw [List.flatMap_cons, quoteattr_capitals h]
    simp only [List.length_cons, List.length_map, List.length_append]
    omega

/-- A command of 65515 capital letters: its request can be built, but not encoded. -/
theorem oversized_not_cleanedUp : ∃ as w e,
    run (World.step clearEnv) (World.new 1000 1001 none 1) as = some w ∧
    (w.tasks 0).pc = .finished (.wireError e) ∧
    ¬CleanedUp clearEnv (World.new 1000 1001 none 1) as w 0 (.wireError e) := by
  have hcapitals : ∀ c ∈ List.replicate 65515 0x41, 0x41 ≤ c ∧ c ≤ 0x5A := by
    intro c hc
    rw [List.eq_of_mem_replicate hc]
    omega
  obtain ⟨payload, hpayload, hlen⟩ := payload_capitals hcapitals 5
  rw [List.length_replicate] at hlen
  generalize List.replicate 65515 0x41 = commandId at hpayload
  have hfits : ¬(Request.xml commandId 5 []).Fits := fun h =>
    absurd (h payload hpayload) (by omega)
  have hsending : Sending (World.new 1000 1001 none 1) (.call 0 (.xml commandId 5 [])) 0
      (.xml commandId 5 []) :=
    .called rfl (check_xml commandId 5) (by decide) ⟨rfl, by decide +kernel⟩
  obtain ⟨s, task, hstep, -⟩ := hsending.step_eq clearEnv
  obtain ⟨⟨e, hend⟩, htouched⟩ :=
    hsending.leaks (inv_new 1000 1001 none 1) (by simp [World.new]) hfits hstep
  refine ⟨[.call 0 (.xml commandId 5 [])], _, e, ?_, hend, fun h => htouched ?_⟩
  · rw [run_cons, hstep]
    rfl
  · exact h.untouched trivial _ _ _ ⟨[], [], rfl, rfl, hstep⟩ hsending.moves

end Spcedp.Client
