import Spcedp.Analysis.Commands

/-!
# What a step does to the futures

Futures are only added, and a dictionary gets no future that was there before (`step_grows`).
A future gets its state when it is made, from the reply that finds it registered, from what
fails the dictionaries, or from what interrupts the task that awaits it (`step_fate`).
-/

set_option autoImplicit false

namespace Spcedp.Client

open Lib.FairLock Lib.Transition Spcedp.Wire

/-! ## Futures and dictionaries -/

/-- Futures are only added, and no dictionary gets a future that was there before. -/
structure Grows (s s' : Session) : Prop where
  length : s.futures.length ≤ s'.futures.length
  lookup : ∀ c q n, (s'.pendingOf c).lookup q = some n →
    (s.pendingOf c).lookup q = some n ∨ s.futures.length ≤ n

/-- The futures are the same where the maps are. -/
theorem SameMaps.grows {s s' : Session} (h : SameMaps s s') : Grows s s' :=
  ⟨by rw [h.futures], fun c q n hl => .inl (by rwa [h.pending] at hl)⟩

/-- A step that settles futures adds none. -/
theorem Settles.grows {s s' : Session} (h : Settles s s') : Grows s s' := by
  refine ⟨?_, fun c q n hl => .inl (h.pending c q n hl)⟩
  by_contra hlt
  rw [not_le] at hlt
  obtain ⟨f', hf', -⟩ := h.futures _ _ (List.getElem?_eq_getElem hlt)
  rw [List.getElem?_eq_none le_rfl] at hf'
  cases hf'

/-- A registration adds a future behind the others. -/
theorem Registered.grows {s s' : Session} {c : Channel} (h : Registered s c s') : Grows s s' := by
  refine ⟨by rw [h.futures, List.length_append]; omega, fun c' q n hl => ?_⟩
  by_cases hc : c' = c
  · subst hc
    rw [h.pending] at hl
    by_cases hq : q = s.allocSeq.2
    · subst hq
      rw [AList.lookup_insert, Option.some.injEq] at hl
      exact .inr hl.le
    · rw [AList.lookup_insert_ne hq] at hl
      exact .inl hl
  · rw [h.other c' hc] at hl
    exact .inl hl

/-- **Futures and dictionaries along a step.** -/
theorem step_grows {env : Env} {w w' : World} {a : Action} (hinv : Inv w)
    (hstep : w.step env a = some w') : Grows w.sess w'.sess := by
  cases step_change hstep with
  | @segment a t r s given seg hruns hseg =>
      have hins := runs_inside hinv hruns
      have hsettle := settle_same w t seg
      have hgrows : Grows s seg.1 := by
        obtain ⟨-, hsame | hreg⟩ := ends_maps hseg.ends
        · exact hsame.1.grows
        · exact hreg.1.grows
      refine ⟨?_, fun c q n hl => ?_⟩
      · rw [hsettle.futures, ← hins.futures]
        exact hgrows.length
      · rw [hsettle.pending] at hl
        rw [← hins.futures]
        exact (hgrows.lookup c q n hl).imp_left (hins.pending c q n)
  | refused => exact (SameMaps.refl _).grows
  | enqueued => exact (sameMaps_lock _ _).grows
  | gaveUp => exact (sameMaps_lock _ _).grows
  | @interrupted a t =>
      dsimp only
      unfold World.interrupt
      split
      · exact (sameMaps_lock _ _).grows
      · exact ⟨length_complete.ge, fun c q n hl => .inl (by cases c <;> exact hl)⟩
      · exact (SameMaps.refl _).grows
  | dispatched => exact (settles_dispatch env.aes w.sess w.now _).grows
  | ticked => exact SameMaps.grows ⟨rfl, fun c => by cases c <;> rfl⟩
  | failed => exact (settles_failPending _ _).grows
  | closing => exact SameMaps.grows ⟨rfl, fun c => by cases c <;> rfl⟩
  | tornDown =>
      have hfail := (settles_failPending w.sess .panelDisconnected).grows
      exact ⟨hfail.length, fun c q n hl => hfail.lookup c q n (by cases c <;> exact hl)⟩
  | wrote => exact SameMaps.grows ⟨rfl, fun c => by cases c <;> rfl⟩

/-! ## The fate of a future -/

/-- A future that a failed dictionary leaves is the old one, or it has failed. -/
theorem failPending_future {s : Session} {e : SpcError} {n : ℕ} {f' : Future}
    (hf' : (s.failPending e).futures[n]? = some f') :
    s.futures[n]? = some f' ∨ f'.state = .failed e := by
  rw [Session.failPending_futures] at hf'
  obtain ⟨f, hf, hfail⟩ := Option.map_eq_some_iff.mp hf'
  split at hfail
  · right
    rw [← hfail]
  · left
    rw [hf, hfail]

/-- Completing one future with `outcome` leaves the others as they are. -/
theorem complete_future {futures : List Future} {m n : ℕ} {outcome : FutureState} {f' : Future}
    (hf' : (complete futures m outcome)[n]? = some f') :
    futures[n]? = some f' ∨
      f'.state = outcome ∧ n = m ∧ ∃ f, futures[n]? = some f ∧ f.state = .pending := by
  rw [complete_getElem?] at hf'
  obtain ⟨f, hf, hfail⟩ := Option.map_eq_some_iff.mp hf'
  split at hfail
  · rename_i h
    right
    rw [← hfail]
    exact ⟨rfl, h.1, f, hf, h.2⟩
  · left
    rw [hf, hfail]

/-- How the future `n` gets a state in a step by `a`. -/
inductive Fate (w : World) (a : Action) (n : ℕ) : FutureState → Prop
  | made : Fate w a n .pending
  | answered {g c f} : a = .dispatch g → IsReply c g →
      (w.sess.pendingOf c).lookup g.sequence = some n → w.sess.futures[n]? = some f →
      f.state = .pending → Fate w a n (.result g.payload)
  | failed {e} : a = .failPending e → Fate w a n (.failed e)
  | lost : a = .teardown → Fate w a n (.failed .panelDisconnected)
  | interrupted {t q} : a = .cancel t ∨ a = .expire t → (w.tasks t).pc = .awaiting n q →
      Fate w a n .cancelled

/-- **Where the state of a future comes from.** -/
theorem step_fate {env : Env} {w w' : World} {a : Action} (hinv : Inv w)
    (hstep : w.step env a = some w') {n : ℕ} {f' : Future} (hf' : w'.sess.futures[n]? = some f') :
    w.sess.futures[n]? = some f' ∨ Fate w a n f'.state := by
  cases step_change hstep with
  | @segment a t r s given seg hruns hseg =>
      have hins := runs_inside hinv hruns
      rw [(settle_same w t seg).futures] at hf'
      obtain ⟨-, hsame | hreg⟩ := ends_maps hseg.ends
      · rw [hsame.1.futures, hins.futures] at hf'
        exact .inl hf'
      · rw [hreg.1.futures, hins.futures] at hf'
        by_cases hn : n < w.sess.futures.length
        · rw [List.getElem?_append_left hn] at hf'
          exact .inl hf'
        · rw [List.getElem?_append_right (by omega)] at hf'
          obtain ⟨hlt, rfl⟩ := List.getElem?_eq_some_iff.mp hf'
          right
          simp only [List.getElem_singleton]
          exact .made
  | refused => exact .inl hf'
  | enqueued => exact .inl hf'
  | gaveUp => exact .inl hf'
  | @interrupted a t task ha =>
      dsimp only at hf'
      unfold World.interrupt at hf'
      split at hf'
      next => exact .inl hf'
      next m q hpc =>
        obtain h | ⟨h, rfl, -⟩ := complete_future hf'
        · exact .inl h
        · exact .inr (h ▸ .interrupted ha hpc)
      next => exact .inl hf'
  | @dispatched g =>
      dsimp only at hf'
      obtain ⟨-, h | ⟨c, m, hc, hlookup, hfutures, -⟩⟩ := dispatch_maps env.aes w.sess w.now g
      · rw [h.futures] at hf'
        exact .inl hf'
      · rw [hfutures] at hf'
        obtain h | ⟨h, rfl, f, hf, hpending⟩ := complete_future hf'
        · exact .inl h
        · exact .inr (h ▸ .answered rfl hc hlookup hf hpending)
  | ticked => exact .inl hf'
  | failed =>
      obtain h | h := failPending_future hf'
      · exact .inl h
      · exact .inr (h ▸ .failed rfl)
  | closing => exact .inl hf'
  | tornDown =>
      obtain h | h := failPending_future hf'
      · exact .inl h
      · exact .inr (h ▸ .lost rfl)
  | wrote => exact .inl hf'

end Spcedp.Client
