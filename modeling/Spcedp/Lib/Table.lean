import Mathlib.Data.List.AList
import Mathlib.Data.List.Induction

/-!
# Tables loaded from rows

`load` builds a table in one pass: a row gives an entry, nothing, or an error that ends the
pass. Of several rows with one key the last one counts (`load_lookup`).
-/

set_option autoImplicit false

namespace Lib

/-- A finite table with keys in `K`; the order of its entries is left open. -/
abbrev Table (K V : Type) := AList fun _ : K => V

namespace Table

variable {R E K V : Type} [DecidableEq K]

section

variable (key : V → K) (build : R → Except E (Option V))

/-- Enter one row. -/
def enter (t : Table K V) (row : R) : Except E (Table K V) :=
  match build row with
  | .ok (some v) => .ok (t.insert (key v) v)
  | .ok none => .ok t
  | .error e => .error e

/-- Enter the rows one after the other. -/
def load (rows : List R) : Except E (Table K V) := rows.foldlM (enter key build) ∅

/-- The value that a row gives. -/
def built (row : R) : Option V :=
  match build row with
  | .ok v => v
  | .error _ => none

/-- Change the entry at `k`, if there is one. -/
def modify (t : Table K V) (k : K) (f : V → V) : Table K V :=
  match t.lookup k with
  | some v => t.insert k (f v)
  | none => t

/-- The last row with the key `k`, when `ident` tells the key of a row. -/
def lastRow (ident : R → Option K) (rows : List R) (k : K) : Option R :=
  rows.reverse.find? fun row => ident row = some k

end

variable {key : V → K} {build : R → Except E (Option V)} {ident : R → Option K} {rows : List R}
  {row : R} {t t' : Table K V} {k : K}

/-- A change at one key is seen at this key only. -/
theorem modify_lookup (t : Table K V) (k k' : K) (f : V → V) : (t.modify k f).lookup k' =
    if k' = k then (t.lookup k').map f else t.lookup k' := by
  unfold modify
  by_cases hk : k' = k
  · subst hk
    cases h : t.lookup k' <;> simp [h]
  · rw [if_neg hk]
    cases h : t.lookup k with
    | none => rfl
    | some v => exact AList.lookup_insert_ne hk

/-- There is nothing to change at a key that is not there. -/
theorem modify_of_none {t : Table K V} {k : K} {f : V → V} (h : t.lookup k = none) :
    t.modify k f = t := by
  unfold modify
  rw [h]

/-- The last row is entered last. -/
theorem load_snoc : load key build (rows ++ [row]) = load key build rows >>= fun t =>
    enter key build t row := by
  unfold load
  rw [List.foldlM_append]
  congr 1
  funext t
  simp [List.foldlM]

/-- Without rows there is no last one. -/
@[simp] theorem lastRow_nil : lastRow ident ([] : List R) k = none := rfl

/-- One row more is the last one for its own key. -/
theorem lastRow_snoc : lastRow ident (rows ++ [row]) k =
    if ident row = some k then some row else lastRow ident rows k := by
  unfold lastRow
  rw [List.reverse_append, List.reverse_singleton, List.singleton_append, List.find?_cons]
  split <;> simp_all

/-- The row found has the key asked for. -/
theorem ident_lastRow (h : lastRow ident rows k = some row) : ident row = some k := by
  simpa using List.find?_some h

/-- The last row for a key is one of the rows. -/
theorem mem_of_lastRow (h : lastRow ident rows k = some row) : row ∈ rows :=
  List.mem_reverse.mp (List.mem_of_find?_eq_some h)

/-- The last row with a key stands in front of rows that have not that key. -/
theorem lastRow_eq_some_iff : lastRow ident rows k = some row ↔
    ident row = some k ∧ ∃ before after, rows = before ++ row :: after ∧
      ∀ r ∈ after, ident r ≠ some k := by
  unfold lastRow
  rw [List.find?_eq_some_iff_append]
  simp only [decide_eq_true_eq, Bool.not_eq_true', decide_eq_false_iff_not]
  refine and_congr_right fun _ => ?_
  constructor
  · rintro ⟨after, before, heq, hafter⟩
    refine ⟨before.reverse, after.reverse, ?_, fun r hr => hafter r (List.mem_reverse.mp hr)⟩
    rw [← List.reverse_reverse rows, heq]
    simp
  · rintro ⟨before, after, rfl, hafter⟩
    exact ⟨after.reverse, before.reverse, by simp, fun r hr => hafter r (List.mem_reverse.mp hr)⟩

/-- There is a last row for a key when there is a row for it. -/
theorem lastRow_isSome_iff :
    (lastRow ident rows k).isSome ↔ ∃ row ∈ rows, ident row = some k := by
  unfold lastRow
  simp [List.find?_isSome]

/-- Entering a row changes the entry at its key only. -/
theorem enter_lookup (hident : ∀ row v, build row = .ok v → ident row = v.map key)
    (h : enter key build t row = .ok t') :
    t'.lookup k = if ident row = some k then built build row else t.lookup k := by
  unfold enter at h
  unfold built
  cases hbuild : build row with
  | error e =>
      rw [hbuild] at h
      cases h
  | ok v =>
      have hid := hident row v hbuild
      rw [hbuild] at h
      cases v with
      | none =>
          cases h
          simp [hid]
      | some v =>
          cases h
          by_cases hk : key v = k
          · subst hk
            simp [hid]
          · simp [hid, hk, AList.lookup_insert_ne (Ne.symm hk)]

/-- **The last row with a key counts.** -/
theorem load_lookup (hident : ∀ row v, build row = .ok v → ident row = v.map key)
    (h : load key build rows = .ok t) :
    t.lookup k = (lastRow ident rows k).bind (built build) := by
  induction rows using List.reverseRecOn generalizing t with
  | nil =>
      cases h
      rfl
  | append_singleton rows row ih =>
      rw [load_snoc] at h
      cases hrows : load key build rows with
      | error e =>
          rw [hrows] at h
          cases h
      | ok t₀ =>
          rw [hrows] at h
          rw [enter_lookup hident h, ih hrows, lastRow_snoc]
          split <;> rfl

/-- A pass succeeds if no row is in error. -/
theorem load_ok_iff :
    (∃ t, load key build rows = .ok t) ↔ ∀ row ∈ rows, ∃ v, build row = .ok v := by
  induction rows using List.reverseRecOn with
  | nil => exact iff_of_true ⟨∅, rfl⟩ (by simp)
  | append_singleton rows row ih =>
      have henter (t : Table K V) :
          (∃ t', enter key build t row = .ok t') ↔ ∃ v, build row = .ok v := by
        unfold enter
        cases build row with
        | error e => simp
        | ok v => cases v <;> simp
      rw [load_snoc, List.forall_mem_append, ← ih]
      cases load key build rows with
      | error e => simp [Bind.bind, Except.bind]
      | ok t => simpa [Bind.bind, Except.bind] using henter t

end Table

end Lib
