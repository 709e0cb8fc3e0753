import Mathlib.Data.List.Basic
import Mathlib.Data.List.TakeWhile

/-!
# Fields between separators

Cutting a list at its first or at its last separator, and a run of letters off its front.
Each cut is characterised by what it takes apart: `cut x s` gives `(a, b)` exactly when `s`
is `a`, the separator and `b`, with no separator in `a`. How many cuts a list allows is the
number of its separators.
-/

set_option autoImplicit false

namespace Lib.Fields

variable {α : Type}

/-! ## Runs -/

/-- A run that a letter outside the class ends is what `takeWhile` takes and `dropWhile`
leaves. -/
theorem span_eq_iff {p : α → Bool} {s a b : List α} {y : α} (hy : p y = false) :
    s.takeWhile p = a ∧ s.dropWhile p = y :: b ↔ s = a ++ y :: b ∧ ∀ c ∈ a, p c := by
  constructor
  · rintro ⟨rfl, hdrop⟩
    refine ⟨?_, fun c hc => List.mem_takeWhile_imp hc⟩
    rw [← hdrop, List.takeWhile_append_dropWhile]
  · rintro ⟨rfl, hall⟩
    rw [List.takeWhile_append_of_pos hall, List.dropWhile_append_of_pos hall,
      List.takeWhile_cons_of_neg (by simp [hy]), List.dropWhile_cons_of_neg (by simp [hy])]
    simp

/-! ## One cut -/

variable [DecidableEq α]

/-- Cut at the first `x`. -/
def cut (x : α) (s : List α) : Option (List α × List α) :=
  if x ∈ s then some (s.takeWhile (· ≠ x), (s.dropWhile (· ≠ x)).drop 1) else none

/-- Cut at the last `x`. -/
def rcut (x : α) (s : List α) : Option (List α × List α) :=
  (cut x s.reverse).map fun p => (p.2.reverse, p.1.reverse)

variable {x : α} {s a b : List α}

/-- Without the separator there is no cut. -/
theorem cut_of_not_mem (h : x ∉ s) : cut x s = none := if_neg h

/-- The cut is at the first separator. -/
theorem cut_append_cons (h : x ∉ a) : cut x (a ++ x :: b) = some (a, b) := by
  have hspan : (a ++ x :: b).takeWhile (· ≠ x) = a ∧ (a ++ x :: b).dropWhile (· ≠ x) = x :: b :=
    (span_eq_iff (by simp)).mpr ⟨rfl, fun c hc => by simpa using ne_of_mem_of_not_mem hc h⟩
  rw [cut, if_pos (by simp), hspan.1, hspan.2]
  rfl

/-- **The first cut.** -/
theorem cut_eq_some_iff : cut x s = some (a, b) ↔ s = a ++ x :: b ∧ x ∉ a := by
  constructor
  · intro h
    by_cases hx : x ∈ s
    · obtain ⟨a', b', rfl, ha'⟩ := List.eq_append_cons_of_mem hx
      rw [cut_append_cons ha', Option.some.injEq, Prod.mk.injEq] at h
      obtain ⟨rfl, rfl⟩ := h
      exact ⟨rfl, ha'⟩
    · rw [cut_of_not_mem hx] at h
      cases h
  · rintro ⟨rfl, ha⟩
    exact cut_append_cons ha

/-- **The last cut.** -/
theorem rcut_eq_some_iff : rcut x s = some (a, b) ↔ s = a ++ x :: b ∧ x ∉ b := by
  have hmirror : rcut x s = some (a, b) ↔ cut x s.reverse = some (b.reverse, a.reverse) := by
    unfold rcut
    cases cut x s.reverse with
    | none => simp
    | some p =>
        rw [Option.map_some, Option.some.injEq, Option.some.injEq, Prod.mk.injEq]
        constructor
        · rintro ⟨rfl, rfl⟩
          simp
        · rintro rfl
          simp
  rw [hmirror, cut_eq_some_iff, List.mem_reverse]
  apply and_congr_left'
  rw [List.reverse_eq_iff]
  simp

/-! ## Counting separators -/

/-- The first of some separators, and how many are left behind it. -/
theorem exists_first (h : 1 ≤ s.count x) :
    ∃ a b, s = a ++ x :: b ∧ x ∉ a ∧ s.count x = b.count x + 1 := by
  obtain ⟨a, b, rfl, ha⟩ := List.eq_append_cons_of_mem (List.count_pos_iff.mp h)
  refine ⟨a, b, rfl, ha, ?_⟩
  rw [List.count_append, List.count_cons_self, List.count_eq_zero.mpr ha, Nat.zero_add]

/-- The last of some separators, and how many are left before it. -/
theorem exists_last (h : 1 ≤ s.count x) :
    ∃ a b, s = a ++ x :: b ∧ x ∉ b ∧ s.count x = a.count x + 1 := by
  rw [← List.count_reverse] at h
  obtain ⟨b, a, hs, hb, hcount⟩ := exists_first h
  rw [List.reverse_eq_iff] at hs
  refine ⟨a.reverse, b.reverse, by rw [hs]; simp, by simpa using hb, ?_⟩
  rw [List.count_reverse, ← hcount, List.count_reverse]

end Lib.Fields
