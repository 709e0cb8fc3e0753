import Mathlib.Data.List.Induction

/-!
# Runs of a transition function

`step s a` is the state after action `a`, or `none` where `a` cannot happen in `s`, and
`run` folds it over a list of actions. What holds at the start and is kept by every step
holds after every run (`run_invariant`); `run_induction` also knows the actions so far. Where each
step gives something out, `outputs` is what a run has given out (`put_eq_outputs_append`).
-/

set_option autoImplicit false

namespace Lib.Transition

variable {S A : Type} (step : S → A → Option S)

/-- The state after a list of actions. -/
def run (s : S) (as : List A) : Option S := as.foldlM step s

/-- Some actions lead from `s` to `t`. -/
def Reachable (s t : S) : Prop := ∃ as, run step s as = some t

variable {step} {s t u : S} {a : A} {as bs : List A}

/-- No actions lead nowhere. -/
@[simp] theorem run_nil : run step s [] = some s := rfl

/-- A run takes its first step first. -/
theorem run_cons : run step s (a :: as) = (step s a).bind fun t => run step t as := rfl

/-- A run splits where its list of actions does. -/
theorem run_append : run step s (as ++ bs) = (run step s as).bind fun t => run step t bs :=
  List.foldlM_append

/-- The last step of a run. -/
theorem run_snoc_iff :
    run step s (as ++ [a]) = some u ↔ ∃ t, run step s as = some t ∧ step t a = some u := by
  rw [run_append, Option.bind_eq_some_iff]
  simp [run]

/-- **Induction on runs**, along the actions taken. -/
theorem run_induction {P : List A → S → Prop} (hnil : P [] s)
    (hsnoc : ∀ as t a u, run step s as = some t → P as t → step t a = some u → P (as ++ [a]) u) :
    ∀ (as : List A) (t : S), run step s as = some t → P as t := by
  intro as
  induction as using List.reverseRecOn with
  | nil =>
      intro t hrun
      cases hrun
      exact hnil
  | append_singleton as a ih =>
      intro u hrun
      obtain ⟨t, hrun, hlast⟩ := run_snoc_iff.mp hrun
      exact hsnoc as t a u hrun (ih t hrun) hlast

/-- **Invariants.** -/
theorem run_invariant {I : S → Prop} (hstep : ∀ s a t, I s → step s a = some t → I t)
    (hs : I s) (hrun : run step s as = some t) : I t :=
  run_induction (P := fun _ t => I t) hs (fun _ t a u _ ht h => hstep t a u ht h) as t hrun

/-- What holds at the start and is kept by every step holds in every reachable state. -/
theorem Reachable.invariant {I : S → Prop} (hstep : ∀ s a t, I s → step s a = some t → I t)
    (hs : I s) (hreach : Reachable step s t) : I t := by
  obtain ⟨as, hrun⟩ := hreach
  exact run_invariant hstep hs hrun

/-- Every state can be reached from itself. -/
theorem Reachable.refl : Reachable step s s := ⟨[], rfl⟩

/-- What is a step away from a reachable state can be reached. -/
theorem Reachable.snoc (hst : Reachable step s t) (htu : step t a = some u) :
    Reachable step s u := by
  obtain ⟨as, hrun⟩ := hst
  exact ⟨as ++ [a], run_snoc_iff.mpr ⟨t, hrun, htu⟩⟩

variable (step) in
/-- The run from `s` by `as` takes the step from `t` by `a` to `u`. -/
def Happens (s : S) (as : List A) (t : S) (a : A) (u : S) : Prop :=
  ∃ bs cs, as = bs ++ a :: cs ∧ run step s bs = some t ∧ step t a = some u

/-- A step of a run is its last one, or one before it. -/
theorem happens_snoc_iff {b : A} :
    Happens step s (as ++ [b]) t a u ↔
      Happens step s as t a u ∨ run step s as = some t ∧ a = b ∧ step t a = some u := by
  constructor
  · rintro ⟨bs, cs, has, hrun, hstep⟩
    rcases List.eq_nil_or_concat cs with rfl | ⟨cs, c, rfl⟩
    · obtain ⟨rfl, hb⟩ := List.append_inj' has rfl
      exact .inr ⟨hrun, (List.singleton_inj.mp hb).symm, hstep⟩
    · refine .inl ⟨bs, cs, ?_, hrun, hstep⟩
      rw [List.concat_eq_append, ← List.cons_append, ← List.append_assoc] at has
      exact (List.append_inj' has rfl).1
  · rintro (⟨bs, cs, rfl, hrun, hstep⟩ | ⟨hrun, rfl, hstep⟩)
    · exact ⟨bs, cs ++ [b], by simp, hrun, hstep⟩
    · exact ⟨as, [], rfl, hrun, hstep⟩

/-- The steps of a run that has just taken the step from `t` by `a` to `u`. -/
theorem happens_last_iff {t' u' : S} {b : A} (hrun : run step s as = some t)
    (hstep : step t a = some u) :
    Happens step s (as ++ [a]) t' b u' ↔
      Happens step s as t' b u' ∨ t' = t ∧ b = a ∧ u' = u := by
  rw [happens_snoc_iff]
  refine or_congr_right ⟨?_, ?_⟩
  · rintro ⟨hrun', rfl, hstep'⟩
    rw [hrun, Option.some.injEq] at hrun'
    subst hrun'
    rw [hstep, Option.some.injEq] at hstep'
    exact ⟨rfl, rfl, hstep'.symm⟩
  · rintro ⟨rfl, rfl, rfl⟩
    exact ⟨hrun, rfl, hstep⟩

/-- In a run without actions nothing happens. -/
theorem not_happens_nil : ¬ Happens step s [] t a u := by
  rintro ⟨bs, cs, has, -⟩
  simp at has

/-! ## What a run gives out -/

/-- What the steps of a run give out, in order. -/
def outputs {O : Type} (step : S → A → Option S) (out : S → A → List O) : S → List A → List O
  | _, [] => []
  | s, a :: as =>
      match step s a with
      | some t => out s a ++ outputs step out t as
      | none => []

section Outputs

variable {O : Type} {out : S → A → List O}

/-- One more step. -/
theorem outputs_snoc (hrun : run step s as = some t) (hstep : step t a = some u) :
    outputs step out s (as ++ [a]) = outputs step out s as ++ out t a := by
  induction as generalizing s with
  | nil =>
      cases hrun
      simp [outputs, hstep]
  | cons b as ih =>
      rw [run_cons, Option.bind_eq_some_iff] at hrun
      obtain ⟨s', hfirst, hrun⟩ := hrun
      rw [List.cons_append, outputs, hfirst]
      dsimp only
      rw [ih hrun, outputs, hfirst, List.append_assoc]

/-- **First in, first out.** Where each step adds what it puts in at the end of what is held, and
gives out from its front, all that was put in has been given out or is held. -/
theorem put_eq_outputs_append (put held : S → List O)
    (hstep : ∀ t a u, Reachable step s t → step t a = some u →
      ∃ new, put u = put t ++ new ∧ out t a ++ held u = held t ++ new)
    (hs : put s = held s) :
    ∀ (as : List A) (t : S), run step s as = some t → put t = outputs step out s as ++ held t := by
  apply run_induction
  · exact hs
  · intro as t a u hrun ih hlast
    obtain ⟨new, hput, hheld⟩ := hstep t a u ⟨as, hrun⟩ hlast
    rw [outputs_snoc hrun hlast, hput, ih, List.append_assoc, List.append_assoc, hheld]

end Outputs

/-! ## Runs with a condition on each step -/

/-- A run from `s`, whose steps all meet `Q`. -/
inductive Conforms (step : S → A → Option S) (Q : S → A → S → Prop) (s : S) : List A → S → Prop
  | nil : Conforms step Q s [] s
  | snoc {as : List A} {a : A} {t u : S} : Conforms step Q s as t → step t a = some u → Q t a u →
      Conforms step Q s (as ++ [a]) u

variable {Q : S → A → S → Prop}

/-- A run of one step. -/
theorem Conforms.single (hstep : step s a = some t) (hq : Q s a t) : Conforms step Q s [a] t :=
  .snoc .nil hstep hq

/-- A run with a condition is one. -/
theorem Conforms.run_eq (h : Conforms step Q s as t) : run step s as = some t := by
  induction h with
  | nil => rfl
  | snoc _ hstep _ ih => exact run_snoc_iff.mpr ⟨_, ih, hstep⟩

/-- The end of a run with a condition can be reached. -/
theorem Conforms.reachable (h : Conforms step Q s as t) : Reachable step s t := ⟨as, h.run_eq⟩

/-- A run meets a condition that holds of the states on its way. -/
theorem Conforms.of_run : ∀ (as : List A) (t : S), run step s as = some t →
    (∀ bs t a u, bs <+: as → run step s bs = some t → Q t a u) → Conforms step Q s as t := by
  refine run_induction (fun _ => .nil) fun as t a u hrun ih hstep hq => ?_
  refine .snoc (ih fun bs t b u hbs => hq bs t b u (hbs.trans (List.prefix_append _ _))) hstep ?_
  exact hq as t a u (List.prefix_append _ _) hrun

/-- Two runs in a row. -/
theorem Conforms.trans (h : Conforms step Q s as t) (h' : Conforms step Q t bs u) :
    Conforms step Q s (as ++ bs) u := by
  induction h' with
  | nil => rwa [List.append_nil]
  | snoc _ hstep hq ih =>
      rw [← List.append_assoc]
      exact .snoc ih hstep hq

/-- **Invariants**, of runs with a condition. -/
theorem Conforms.invariant {I : S → Prop} (h : Conforms step Q s as t)
    (hstep : ∀ s a t, I s → step s a = some t → Q s a t → I t) (hs : I s) : I t := by
  induction h with
  | nil => exact hs
  | snoc _ hlast hq ih => exact hstep _ _ _ ih hlast hq

end Lib.Transition
