import Spcedp.Analysis.Futures

/-!
# Reply attribution

Whatever the order of calls, frames, timeouts, cancellations and teardown, a command gets
the reply to its own request or none (`attributed_of_occurs`). `Attributed` spells out
what that means in one state and for the step out of it.
-/

set_option autoImplicit false

namespace Spcedp.Client

open Lib.FairLock Lib.Transition Spcedp.Wire Spcedp.Xmlcmd

/-- The step from `w` to `w'` gives the future `n` its payload. -/
def Completes (w w' : World) (n : ℕ) : Prop :=
  ∃ f f' payload, w.sess.futures[n]? = some f ∧ f.state = .pending ∧
    w'.sess.futures[n]? = some f' ∧ f'.state = .result payload

/-- Requests, futures and replies match in `w` and in every step out of it. -/
structure Attributed (env : Env) (w : World) : Prop where
  /-- At most one command awaits a reply. It alone holds the lock, and while its future is
  pending, that is registered once: in the dictionary of its channel, under the number of
  the request sent last. -/
  awaiting : ∀ t n q, (w.tasks t).pc = .awaiting n q →
    w.sess.commandLock.inside = [t] ∧
    (∀ u m p, (w.tasks u).pc = .awaiting m p → u = t) ∧
    ∃ fr f, (w.tasks t).lastRequest = some (fr, n) ∧ fr.sequence = q ∧
      w.sess.futures[n]? = some f ∧ fr.major = f.channel.major ∧
      (f.state = .pending →
        ∀ c p, (w.sess.pendingOf c).lookup p = some n ↔ c = f.channel ∧ p = fr.sequence)
  /-- A future gets a payload only from a dispatched reply on its channel, with its number,
  that finds it registered. -/
  completed : ∀ a w', w.step env a = some w' → ∀ n f' payload,
    w'.sess.futures[n]? = some f' → f'.state = .result payload →
      w.sess.futures[n]? = some f' ∨
      ∃ g f, a = .dispatch g ∧ w.sess.futures[n]? = some f ∧ f.state = .pending ∧
        (w.sess.pendingOf f.channel).lookup f.seq = some n ∧
        g.major = f.channel.major ∧ g.minor = f.channel.replyMinor ∧ g.sequence = f.seq ∧
        g.payload = payload
  /-- One step, and so one dispatched frame, completes at most one future. -/
  once : ∀ a w', w.step env a = some w' → ∀ n m, Completes w w' n → Completes w w' m → n = m
  /-- A binary command that returned normally was answered with `ReplyCode.OK`. -/
  ok : ∀ t, (w.tasks t).pc = .finished .ok → ∃ fr n f rest,
    (w.tasks t).lastRequest = some (fr, n) ∧ w.sess.futures[n]? = some f ∧
      f.state = .result (replyOk :: rest)

/-- **Reply attribution**, in every world that can come up. -/
theorem attributed_of_occurs (env : Env) (w : World) (hocc : w.Occurs env) : Attributed env w := by
  have hinv := inv_occurs hocc
  have hinside (t n : ℕ) (q : ℤ) (hpc : (w.tasks t).pc = .awaiting n q) :
      t ∈ w.sess.commandLock.inside := (hinv.inside t).mpr (by rw [hpc]; trivial)
  -- the reply that completes a future finds it registered
  have hcompletes {a : Action} {w' : World} {n : ℕ} (hstep : w.step env a = some w')
      (hn : Completes w w' n) : ∃ g c, a = .dispatch g ∧ IsReply c g ∧
        (w.sess.pendingOf c).lookup g.sequence = some n := by
    obtain ⟨f, f', payload, hf, hpending, hf', hresult⟩ := hn
    obtain h | hfate := step_fate hinv hstep hf'
    · rw [hf, Option.some.injEq] at h
      rw [h, hresult] at hpending
      cases hpending
    · rw [hresult] at hfate
      cases hfate with
      | answered hg hc hlookup => exact ⟨_, _, hg, hc, hlookup⟩
  refine ⟨?_, ?_, ?_, hinv.ok⟩
  · intro t n q hpc
    obtain ⟨r, -, ⟨payload, fr, hlast, hseq, hmajor, -⟩, f, hf, hc, hq, hreg⟩ :=
      hinv.awaited t n q hpc
    refine ⟨hinv.lock.inside_eq (hinside t n q hpc),
      fun u m p hu => hinv.lock.inside_unique (hinside u m p hu) (hinside t n q hpc), fr, f,
      hlast, hseq, hf, by rw [hmajor, hc], ?_⟩
    intro hstate c p
    constructor
    · intro hlookup
      obtain ⟨f₁, hf₁, hc₁, hq₁⟩ := hinv.registered c p n hlookup
      rw [hf, Option.some.injEq] at hf₁
      rw [← hf₁] at hc₁ hq₁
      exact ⟨hc₁.symm, by rw [hseq, ← hq, hq₁]⟩
    · rintro ⟨rfl, rfl⟩
      rw [hc, hseq]
      exact hreg hstate
  · intro a w' hstep n f' payload hf' hresult
    obtain h | hfate := step_fate hinv hstep hf'
    · exact .inl h
    · rw [hresult] at hfate
      cases hfate with
      | @answered g c f hg hc hlookup hf hpending =>
          obtain ⟨f₁, hf₁, hc₁, hq₁⟩ := hinv.registered c g.sequence n hlookup
          rw [hf, Option.some.injEq] at hf₁
          rw [← hf₁] at hc₁ hq₁
          subst hc₁
          exact .inr ⟨g, f, hg, hf, hpending, by rwa [hq₁], hc.1, hc.2, hq₁.symm, rfl⟩
  · intro a w' hstep n m hn hm
    obtain ⟨g, c, rfl, hc, hlookup⟩ := hcompletes hstep hn
    obtain ⟨g', c', hg', hc', hlookup'⟩ := hcompletes hstep hm
    cases hg'
    have hsame : c = c' := by
      have hmajor := hc.1.symm.trans hc'.1
      cases c <;> cases c' <;> simp_all [Channel.major]
    subst hsame
    rw [hlookup, Option.some.injEq] at hlookup'
    exact hlookup'

/-- A task that has armed area 1 awaits the reply. -/
theorem attributed_areaSet : ∃ w, (w.tasks 0).pc = .awaiting 0 1 ∧ Attributed clearEnv w := by
  obtain ⟨w, hocc, hpc⟩ := occurs_areaSet
  exact ⟨w, hpc, attributed_of_occurs clearEnv w hocc⟩

end Spcedp.Client
