import Mathlib.Algebra.BigOperators.Group.List.Basic
import Mathlib.Algebra.Ring.Nat
import Spcedp.Lib.Transition

/-!
# Fair runs come to an end

An infinite run is fair to some actions if it does not leave them out for ever while one of
them could always be taken. In every state one duty is next, until the goal is reached: an action
that fulfils it brings a rank down, and any other brings the rank down, or leaves both the rank and
the duty as they are. A run that is fair to every duty reaches the goal (`IsPath.leadsTo`).
-/

set_option autoImplicit false

namespace Lib.Transition

variable {S A D : Type} {step : S → A → Option S}

variable (step) in
/-- `σ` passes through its states by the actions `α`. -/
def IsPath (σ : ℕ → S) (α : ℕ → A) : Prop := ∀ n, step (σ n) (α n) = some (σ (n + 1))

variable (step) in
/-- One of the actions `own` can be taken. -/
def Enabled (own : S → A → Prop) (s : S) : Prop := ∃ a t, own s a ∧ step s a = some t

variable (step) in
/-- From no point on is one of the actions `own` always possible but never taken. -/
def WeakFair (own : S → A → Prop) (σ : ℕ → S) (α : ℕ → A) : Prop :=
  ∀ n, (∀ m, n ≤ m → Enabled step own (σ m)) → ∃ m, n ≤ m ∧ own (σ m) (α m)

/-- Whenever `P` holds, `Q` holds then or later. -/
def LeadsTo (P Q : S → Prop) (σ : ℕ → S) : Prop := ∀ n, P (σ n) → ∃ m, n ≤ m ∧ Q (σ m)

/-- The next duty can be fulfilled, and a step that neither reaches the goal nor brings the rank
down leaves it to do. -/
structure Ranking (step : S → A → Option S) (own : D → S → A → Prop) (before goal : S → Prop)
    (duty : S → D) (rank : S → ℕ) : Prop where
  falls : ∀ s a t, before s → step s a = some t → goal t ∨ before t ∧
    (rank t < rank s ∨ rank t = rank s ∧ duty t = duty s ∧ ¬own (duty s) s a)
  enabled : ∀ s, before s → Enabled step (own (duty s)) s

section

variable {own : D → S → A → Prop} {before goal : S → Prop} {duty : S → D} {rank : S → ℕ}
  {σ : ℕ → S} {α : ℕ → A}

/-- An infinite run stays among the states that are reached. -/
theorem IsPath.reachable (hpath : IsPath step σ α) (n : ℕ) : Reachable step (σ 0) (σ n) := by
  induction n with
  | zero => exact .refl
  | succ n ih => exact ih.snoc (hpath n)

/-- **A fair run reaches the goal.** -/
theorem IsPath.leadsTo (hpath : IsPath step σ α) (hfair : ∀ d, WeakFair step (own d) σ α)
    (hrank : Ranking step own before goal duty rank) : LeadsTo before goal σ := by
  intro n hn
  generalize hk : rank (σ n) = k
  induction k using Nat.strongRecOn generalizing n with
  | ind k ih =>
      by_contra hnone
      -- the rank does not come down, since the goal would be reached from there
      have hnext {m : ℕ} (hm : n ≤ m) (hb : before (σ m)) (hr : rank (σ m) = k) :
          before (σ (m + 1)) ∧ rank (σ (m + 1)) = k ∧ duty (σ (m + 1)) = duty (σ m) ∧
            ¬own (duty (σ m)) (σ m) (α m) := by
        obtain hgoal | ⟨hb', hlt | ⟨heq, hduty, hown⟩⟩ := hrank.falls _ _ _ hb (hpath m)
        · exact absurd ⟨m + 1, by omega, hgoal⟩ hnone
        · obtain ⟨p, hp, hgoal⟩ := ih _ (hr ▸ hlt) (m + 1) hb' rfl
          exact absurd ⟨p, by omega, hgoal⟩ hnone
        · exact ⟨hb', heq.trans hr, hduty, hown⟩
      have hstays {m : ℕ} (hm : n ≤ m) :
          before (σ m) ∧ rank (σ m) = k ∧ duty (σ m) = duty (σ n) := by
        induction m, hm using Nat.le_induction with
        | base => exact ⟨hn, hk, rfl⟩
        | succ m hm ih =>
            obtain ⟨hb, hr, hduty⟩ := ih
            obtain ⟨hb', hr', hduty', -⟩ := hnext hm hb hr
            exact ⟨hb', hr', hduty'.trans hduty⟩
      obtain ⟨m, hm, hown⟩ := hfair (duty (σ n)) n fun m hm => by
        rw [← (hstays hm).2.2]
        exact hrank.enabled _ (hstays hm).1
      obtain ⟨hb, hr, hduty⟩ := hstays hm
      exact (hnext hm hb hr).2.2.2 (hduty ▸ hown)

end

/-- **A rank that is a sum** over some of the summands before, none of which has grown, has come
down, or all summands are as they were. -/
theorem sum_lt_or_eq {T : Type} {f f' : T → ℕ} {l l' : List T} (hsub : l'.Sublist l)
    (hle : ∀ u ∈ l', f' u ≤ f u) (hpos : ∀ u ∈ l, 0 < f u) :
    (l'.map f').sum < (l.map f).sum ∨ l' = l ∧ ∀ u ∈ l, f' u = f u := by
  induction hsub with
  | slnil => exact .inr ⟨rfl, fun u hu => absurd hu List.not_mem_nil⟩
  | @cons l' l u _ ih =>
      have hu := hpos u List.mem_cons_self
      rw [List.map_cons, List.sum_cons]
      left
      obtain hlt | ⟨rfl, heq⟩ := ih hle fun v hv => hpos v (List.mem_cons_of_mem _ hv)
      · omega
      · rw [List.map_congr_left heq]
        omega
  | @cons_cons l' l u _ ih =>
      have hu := hle u List.mem_cons_self
      rw [List.map_cons, List.map_cons, List.sum_cons, List.sum_cons]
      obtain hlt | ⟨rfl, heq⟩ := ih (fun v hv => hle v (List.mem_cons_of_mem _ hv))
        fun v hv => hpos v (List.mem_cons_of_mem _ hv)
      · left
        omega
      · obtain hlt | hsame := hu.lt_or_eq
        · left
          rw [List.map_congr_left heq]
          omega
        · exact .inr ⟨rfl, List.forall_mem_cons.mpr ⟨hsame, heq⟩⟩

end Lib.Transition
