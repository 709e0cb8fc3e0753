import Mathlib.Data.List.Basic
import Mathlib.Tactic.Cases

/-!
# Readers of a stream that comes in chunks

A `Reader` holds the symbols that have arrived and are not used up. At its turn it waits
for more, takes a piece off the front of what it holds, perhaps with an item read from
it, or fails. A chunk is pushed behind what is held, and the reader then takes turns
until it waits again.

`Takes` is a row of turns, with the pieces taken; `Runs` feeds chunk after chunk. A reader
is `Stable` if no symbol that comes later changes a decision. It then reads a stream in one
way, however the stream is cut (`Stable.runs_eq`). A reader with a patience of its own is
compared with a stable one by a `Simulates`, which may leave out some configurations.
-/

set_option autoImplicit false

namespace Lib.Stream

/-- What a reader does at its turn. -/
inductive Turn (C τ ε : Type)
  | wait (c : C)
  | take (c : C) (item : Option τ)
  | fail (c : C) (e : ε)

/-- Symbols taken off the front, and what was read from them. -/
structure Piece (α τ : Type) where
  symbols : List α
  item : Option τ
  deriving DecidableEq, Repr

structure Reader (C α τ ε : Type) where
  turn : C → Turn C τ ε
  held : C → List α
  push : C → List α → C
  held_push : ∀ c xs, held (push c xs) = held c ++ xs
  push_nil : ∀ c, push c [] = c
  push_push : ∀ c xs ys, push (push c xs) ys = push c (xs ++ ys)
  held_wait : ∀ c c', turn c = .wait c' → held c' = held c
  held_take : ∀ c c' item, turn c = .take c' item → ∃ p, p ≠ [] ∧ held c = p ++ held c'

section Pieces

variable {α τ : Type}

/-- The symbols of some pieces, in order. -/
def symbols (ps : List (Piece α τ)) : List α := (ps.map Piece.symbols).flatten

/-- The items of some pieces, in order. -/
def items (ps : List (Piece α τ)) : List τ := ps.filterMap Piece.item

/-- No pieces have no symbols. -/
@[simp] theorem symbols_nil : symbols ([] : List (Piece α τ)) = [] := rfl

/-- The symbols of the first piece come first. -/
@[simp] theorem symbols_cons (p : Piece α τ) (ps : List (Piece α τ)) :
    symbols (p :: ps) = p.symbols ++ symbols ps := rfl

/-- The symbols of two rows of pieces are in a row. -/
@[simp] theorem symbols_append (ps qs : List (Piece α τ)) :
    symbols (ps ++ qs) = symbols ps ++ symbols qs := by
  simp [symbols]

/-- No pieces give no items. -/
@[simp] theorem items_nil : items ([] : List (Piece α τ)) = [] := rfl

/-- The item of the first piece comes first, if it has one. -/
@[simp] theorem items_cons (p : Piece α τ) (ps : List (Piece α τ)) :
    items (p :: ps) = p.item.toList ++ items ps := by
  unfold items
  cases h : p.item with
  | none => rw [List.filterMap_cons_none h, Option.toList_none, List.nil_append]
  | some x => rw [List.filterMap_cons_some h, Option.toList_some, List.singleton_append]

/-- The items of two rows of pieces are in a row. -/
@[simp] theorem items_append (ps qs : List (Piece α τ)) :
    items (ps ++ qs) = items ps ++ items qs :=
  List.filterMap_append

end Pieces

variable {C A α τ ε : Type}

/-! ## Rows of turns -/

/-- Taking `ps` off, one piece at a turn, leads from the first configuration to the last. -/
inductive Takes (r : Reader C α τ ε) : C → List (Piece α τ) → C → Prop
  | refl (c : C) : Takes r c [] c
  | head {c c₁ c₂ : C} {p : List α} {item : Option τ} {ps : List (Piece α τ)} :
      r.turn c = .take c₁ item → r.held c = p ++ r.held c₁ → Takes r c₁ ps c₂ →
      Takes r c (⟨p, item⟩ :: ps) c₂

section Takes

variable {r : Reader C α τ ε} {c c₁ c₂ c₃ : C} {ps qs : List (Piece α τ)}

/-- No symbol is lost, doubled or moved. -/
theorem Takes.held (h : Takes r c ps c₁) : r.held c = symbols ps ++ r.held c₁ := by
  induction h with
  | refl c => rfl
  | head _ hheld _ ih => rw [hheld, ih, symbols_cons, List.append_assoc]

/-- Two rows of turns in a row. -/
theorem Takes.append (h : Takes r c ps c₁) (h' : Takes r c₁ qs c₂) : Takes r c (ps ++ qs) c₂ := by
  induction h with
  | refl c => exact h'
  | head hturn hheld _ ih => exact .head hturn hheld (ih h')

/-- What a turn keeps is kept by a row of turns; `I` may speak of the pieces so far. -/
theorem Takes.invariant {I : List (Piece α τ) → C → Prop}
    (hstep : ∀ past c c' p item, I past c → r.turn c = .take c' item →
      r.held c = p ++ r.held c' → I (past ++ [⟨p, item⟩]) c')
    (h : Takes r c ps c₁) : ∀ past, I past c → I (past ++ ps) c₁ := by
  induction h with
  | refl c =>
      intro past hI
      rwa [List.append_nil]
  | head hturn hheld _ ih =>
      intro past hI
      rw [List.append_cons]
      exact ih _ (hstep _ _ _ _ _ hI hturn hheld)

/-- Of two rows of turns from one configuration, one goes on from the other. -/
theorem Takes.linear (h : Takes r c ps c₁) :
    ∀ {qs : List (Piece α τ)} {c₂ : C}, Takes r c qs c₂ →
      (∃ more, qs = ps ++ more ∧ Takes r c₁ more c₂) ∨
      ∃ more, ps = qs ++ more ∧ Takes r c₂ more c₁ := by
  induction h with
  | refl c =>
      intro qs c₂ h'
      exact .inl ⟨qs, rfl, h'⟩
  | @head c d e p item ps hturn hheld htail ih =>
      intro qs c₂ h'
      cases h' with
      | refl => exact .inr ⟨_, rfl, .head hturn hheld htail⟩
      | @head _ d' _ p' item' qs hturn' hheld' htail' =>
          obtain ⟨rfl, rfl⟩ := Turn.take.inj (hturn.symm.trans hturn')
          obtain rfl := List.append_cancel_right (hheld.symm.trans hheld')
          obtain ⟨more, rfl, hmore⟩ | ⟨more, rfl, hmore⟩ := ih htail'
          · exact .inl ⟨more, rfl, hmore⟩
          · exact .inr ⟨more, rfl, hmore⟩

/-- The reader has no piece to take. -/
def Stuck (r : Reader C α τ ε) (c : C) : Prop := ∀ c' item, r.turn c ≠ .take c' item

/-- A reader that waits takes no piece. -/
theorem stuck_of_wait (h : r.turn c = .wait c₁) : Stuck r c := by
  intro c' item h'
  rw [h] at h'
  cases h'

/-- A reader that fails takes no piece. -/
theorem stuck_of_fail {e : ε} (h : r.turn c = .fail c₁ e) : Stuck r c := by
  intro c' item h'
  rw [h] at h'
  cases h'

/-- A reader that takes no piece stays where it is. -/
theorem Stuck.takes (hc : Stuck r c) (h : Takes r c ps c₁) : ps = [] ∧ c₁ = c := by
  cases h with
  | refl => exact ⟨rfl, rfl⟩
  | head hturn _ _ => exact absurd hturn (hc _ _)

/-- A row of turns that cannot go on goes on from every other one. -/
theorem Takes.toStuck (h : Takes r c ps c₁) (hc₁ : Stuck r c₁) (h' : Takes r c qs c₂) :
    ∃ more, ps = qs ++ more ∧ Takes r c₂ more c₁ := by
  obtain ⟨more, rfl, hmore⟩ | hmore := h.linear h'
  · obtain ⟨rfl, rfl⟩ := hc₁.takes hmore
    exact ⟨[], by simp, .refl _⟩
  · exact hmore

/-- Turns end at one configuration only. -/
theorem Takes.unique (h : Takes r c ps c₁) (hc₁ : Stuck r c₁) (h' : Takes r c qs c₂)
    (hc₂ : Stuck r c₂) : ps = qs ∧ c₁ = c₂ := by
  obtain ⟨more, rfl, hmore⟩ := h.toStuck hc₁ h'
  obtain ⟨rfl, rfl⟩ := hc₂.takes hmore
  exact ⟨List.append_nil _, rfl⟩

end Takes

/-! ## Runs over chunks -/

/-- The chunks are fed one after the other, and the reader waits at the end of each. -/
inductive Runs (r : Reader C α τ ε) : C → List (List α) → List (Piece α τ) → C → Prop
  | nil (c : C) : Runs r c [] [] c
  | cons {c c₁ c₂ c₃ : C} {x : List α} {xs : List (List α)} {ps qs : List (Piece α τ)} :
      Takes r (r.push c x) ps c₁ → r.turn c₁ = .wait c₂ → Runs r c₂ xs qs c₃ →
      Runs r c (x :: xs) (ps ++ qs) c₃

/-- Behind the chunks `before`, which gave the pieces `ps`, the chunk `x` is read and has
given `qs` when the reader is at `c'`. -/
def Visits (r : Reader C α τ ε) (c : C) (before : List (List α)) (x : List α)
    (ps qs : List (Piece α τ)) (c' : C) : Prop :=
  ∃ c₁, Runs r c before ps c₁ ∧ Takes r (r.push c₁ x) qs c'

/-- The reader takes `ps` off and waits. -/
def WaitsAfter (r : Reader C α τ ε) (c : C) (ps : List (Piece α τ)) : Prop :=
  ∃ c₁ c₂, Takes r c ps c₁ ∧ r.turn c₁ = .wait c₂

/-- The reader takes `ps` off and fails. -/
def FailsAfter (r : Reader C α τ ε) (c : C) (ps : List (Piece α τ)) (e : ε) : Prop :=
  ∃ c₁ c₂, Takes r c ps c₁ ∧ r.turn c₁ = .fail c₂ e

/-- The reader fails in one of the chunks: `ps` are the pieces from the chunks before that
one, `qs` those from the chunk itself. -/
def Fails (r : Reader C α τ ε) (c : C) (xs : List (List α)) (ps qs : List (Piece α τ)) (e : ε) :
    Prop :=
  ∃ before x after c₁, xs = before ++ x :: after ∧ Runs r c before ps c₁ ∧
    FailsAfter r (r.push c₁ x) qs e

section Runs

variable {r : Reader C α τ ε} {c c₁ c₂ : C} {xs before : List (List α)} {x : List α}
  {ps qs : List (Piece α τ)}

/-- No symbol is lost, doubled or moved in a run. -/
theorem Runs.held (h : Runs r c xs ps c₁) :
    r.held c ++ xs.flatten = symbols ps ++ r.held c₁ := by
  induction h with
  | nil c => simp
  | @cons c d d' e x xs ps qs htakes hwait _ ih =>
      have hheld := htakes.held
      rw [r.held_push, ← r.held_wait _ _ hwait] at hheld
      rw [List.flatten_cons, ← List.append_assoc, hheld, List.append_assoc, ih, symbols_append,
        List.append_assoc]

/-- No symbol is lost, doubled or moved on the way to a configuration. -/
theorem Visits.held (h : Visits r c before x ps qs c₁) :
    r.held c ++ before.flatten ++ x = symbols ps ++ symbols qs ++ r.held c₁ := by
  obtain ⟨c₂, hruns, htakes⟩ := h
  have hheld := htakes.held
  rw [r.held_push] at hheld
  rw [hruns.held, List.append_assoc, hheld, List.append_assoc]

/-- What feeding, turns and waiting keep is kept by a run. -/
theorem Runs.invariant {I : List (Piece α τ) → C → Prop}
    (hpush : ∀ past c x, I past c → I past (r.push c x))
    (hstep : ∀ past c c' p item, I past c → r.turn c = .take c' item →
      r.held c = p ++ r.held c' → I (past ++ [⟨p, item⟩]) c')
    (hwait : ∀ past c c', I past c → r.turn c = .wait c' → I past c')
    (h : Runs r c xs ps c₁) : ∀ past, I past c → I (past ++ ps) c₁ := by
  induction h with
  | nil c =>
      intro past hI
      rwa [List.append_nil]
  | cons htakes hturn _ ih =>
      intro past hI
      rw [← List.append_assoc]
      exact ih _ (hwait _ _ _ (htakes.invariant hstep past (hpush _ _ _ hI)) hturn)

end Runs

/-! ## Stable readers -/

/-- Later symbols change no decision, and waiting leaves the reader as it is. -/
structure Stable (r : Reader C α τ ε) : Prop where
  wait : ∀ c c', r.turn c = .wait c' → c' = c
  take : ∀ c c' item xs, r.turn c = .take c' item →
    r.turn (r.push c xs) = .take (r.push c' xs) item
  fail : ∀ c c' e xs, r.turn c = .fail c' e → ∃ c'', r.turn (r.push c xs) = .fail c'' e

section Stable

variable {r : Reader C α τ ε} {c c₁ c₂ : C} {xs ys before after : List (List α)} {x : List α}
  {ps qs ps' qs' : List (Piece α τ)} {e e' : ε}

/-- What comes later does not change the pieces taken. -/
theorem Stable.takes_push (hr : Stable r) (h : Takes r c ps c₁) (xs : List α) :
    Takes r (r.push c xs) ps (r.push c₁ xs) := by
  induction h with
  | refl c => exact .refl _
  | head hturn hheld _ ih =>
      refine .head (hr.take _ _ _ xs hturn) ?_ ih
      rw [r.held_push, r.held_push, hheld, List.append_assoc]

/-- A run over chunks is a row of turns on the stream as a whole. -/
theorem Stable.runs_takes (hr : Stable r) (h : Runs r c xs ps c₁) :
    Takes r (r.push c xs.flatten) ps c₁ := by
  induction h with
  | nil c =>
      rw [List.flatten_nil, r.push_nil]
      exact .refl c
  | cons htakes hwait _ ih =>
      obtain rfl := hr.wait _ _ hwait
      rw [List.flatten_cons, ← r.push_push]
      exact (hr.takes_push htakes _).append ih

/-- The reader waits at the end of a run if it did at the start. -/
theorem Stable.runs_wait (hr : Stable r) (h : Runs r c xs ps c₁) (hc : r.turn c = .wait c) :
    r.turn c₁ = .wait c₁ := by
  induction h with
  | nil c => exact hc
  | cons _ hwait _ ih =>
      obtain rfl := hr.wait _ _ hwait
      exact ih hwait

/-- What is seen in a chunk is seen in the stream as a whole. -/
theorem Stable.visits_takes (hr : Stable r) (h : Visits r c before x ps qs c₁)
    (after : List (List α)) :
    Takes r (r.push c (before ++ x :: after).flatten) (ps ++ qs) (r.push c₁ after.flatten) := by
  obtain ⟨c₂, hruns, htakes⟩ := h
  have hbefore := hr.takes_push (hr.runs_takes hruns) (x ++ after.flatten)
  rw [r.push_push, ← r.push_push c₂] at hbefore
  rw [List.flatten_append, List.flatten_cons]
  exact hbefore.append (hr.takes_push htakes _)

/-- A failure in a chunk is one of the stream as a whole. -/
theorem Stable.fails_failsAfter (hr : Stable r) (h : Fails r c xs ps qs e) :
    FailsAfter r (r.push c xs.flatten) (ps ++ qs) e := by
  obtain ⟨before, x, after, c₁, rfl, hruns, c₂, c₃, htakes, hfail⟩ := h
  obtain ⟨c₄, hfail'⟩ := hr.fail _ _ _ after.flatten hfail
  exact ⟨_, c₄, hr.visits_takes ⟨c₁, hruns, htakes⟩ after, hfail'⟩

/-- A reader fails in one way. -/
theorem FailsAfter.unique (h : FailsAfter r c ps e) (h' : FailsAfter r c qs e') :
    ps = qs ∧ e = e' := by
  obtain ⟨c₁, d₁, htakes, hfail⟩ := h
  obtain ⟨c₂, d₂, htakes', hfail'⟩ := h'
  obtain ⟨rfl, rfl⟩ := htakes.unique (stuck_of_fail hfail) htakes' (stuck_of_fail hfail')
  obtain ⟨-, rfl⟩ := Turn.fail.inj (hfail.symm.trans hfail')
  exact ⟨rfl, rfl⟩

/-- **Chunking does not matter to a stable reader**: two runs over one stream take the same
pieces and end alike. -/
theorem Stable.runs_eq (hr : Stable r) (hc : r.turn c = .wait c) (h : Runs r c xs ps c₁)
    (h' : Runs r c ys qs c₂) (hcut : xs.flatten = ys.flatten) : ps = qs ∧ c₁ = c₂ := by
  have htakes := hr.runs_takes h
  rw [hcut] at htakes
  exact htakes.unique (stuck_of_wait (hr.runs_wait h hc)) (hr.runs_takes h')
    (stuck_of_wait (hr.runs_wait h' hc))

/-- **Chunking does not matter to a failure**: it is the same, behind the same pieces. -/
theorem Stable.fails_eq (hr : Stable r) (h : Fails r c xs ps qs e) (h' : Fails r c ys ps' qs' e')
    (hcut : xs.flatten = ys.flatten) : ps ++ qs = ps' ++ qs' ∧ e = e' := by
  have hfails := hr.fails_failsAfter h
  rw [hcut] at hfails
  exact hfails.unique (hr.fails_failsAfter h')

/-- A stream does not fail in one way of cutting it and pass in another. -/
theorem Stable.not_runs_of_fails (hr : Stable r) (hc : r.turn c = .wait c)
    (h : Runs r c xs ps c₁) (h' : Fails r c ys qs qs' e) (hcut : xs.flatten = ys.flatten) :
    False := by
  have htakes := hr.runs_takes h
  have hwait := hr.runs_wait h hc
  obtain ⟨c₂, c₃, htakes', hfail⟩ := hr.fails_failsAfter h'
  rw [← hcut] at htakes'
  obtain ⟨-, rfl⟩ := htakes.unique (stuck_of_wait hwait) htakes' (stuck_of_fail hfail)
  rw [hwait] at hfail
  cases hfail

/-- The chunks before the failing one give all the items before the failure if and only if
some part of the stream that ends with a chunk does so without failing. -/
theorem Stable.fails_items_iff (hr : Stable r) (hc : r.turn c = .wait c)
    (h : Fails r c xs ps qs e) : items ps = items (ps ++ qs) ↔
      ∃ seen, seen <+: xs ∧ ∃ ps', WaitsAfter r (r.push c seen.flatten) ps' ∧
        items ps' = items (ps ++ qs) := by
  obtain ⟨before, x, after, c₁, rfl, hruns, hfails⟩ := h
  have htakes := hr.runs_takes hruns
  have hwait := hr.runs_wait hruns hc
  constructor
  · intro hitems
    exact ⟨before, List.prefix_append _ _, ps, ⟨c₁, c₁, htakes, hwait⟩, hitems⟩
  · rintro ⟨seen, hseen, ps', ⟨c₂, c₃, htakes', hwait'⟩, hitems'⟩
    -- the part that was seen ends with one of the chunks before the failing one
    have hbefore : seen <+: before := by
      obtain hle | ⟨more, rfl⟩ := List.prefix_or_prefix_of_prefix hseen (List.prefix_append _ _)
      · exact hle
      cases more with
      | nil =>
          simp only [List.append_nil, List.prefix_rfl]
      | cons y more =>
          rw [List.prefix_append_right_inj] at hseen
          obtain ⟨rfl, -⟩ := List.cons_prefix_cons.mp hseen
          have hfails' : Fails r c (before ++ y :: more) ps qs e :=
            ⟨before, y, more, c₁, rfl, hruns, hfails⟩
          obtain ⟨c₄, c₅, htakes'', hfail⟩ := hr.fails_failsAfter hfails'
          obtain ⟨-, rfl⟩ := htakes'.unique (stuck_of_wait hwait') htakes'' (stuck_of_fail hfail)
          rw [hwait'] at hfail
          cases hfail
    obtain ⟨more, rfl⟩ := hbefore
    have hpush := hr.takes_push htakes' more.flatten
    rw [r.push_push, ← List.flatten_append] at hpush
    obtain ⟨rest, rfl, -⟩ := htakes.toStuck (stuck_of_wait hwait) hpush
    -- behind them no more items come
    have hlen := congrArg List.length hitems'
    simp only [items_append, List.length_append] at hlen
    have hqs : items qs = [] := List.eq_nil_of_length_eq_zero (by omega)
    rw [items_append _ qs, hqs, List.append_nil]

end Stable

/-! ## Simulation -/

/-- Seen through `view`, the reader `r` does what `a` does, at its configurations that are
`ok`. -/
structure Simulates (r : Reader C α τ ε) (a : Reader A α τ ε) (view : C → A) (ok : C → Prop) :
    Prop where
  held : ∀ c, a.held (view c) = r.held c
  push : ∀ c xs, view (r.push c xs) = a.push (view c) xs
  wait : ∀ c c', ok c → r.turn c = .wait c' → a.turn (view c) = .wait (view c')
  take : ∀ c c' item, ok c → r.turn c = .take c' item → a.turn (view c) = .take (view c') item
  fail : ∀ c c' e, ok c → r.turn c = .fail c' e → ∃ a', a.turn (view c) = .fail a' e

/-- Feeding the chunks leads to a configuration that is not `ok`. -/
def Strays (r : Reader C α τ ε) (ok : C → Prop) (c : C) (xs : List (List α)) : Prop :=
  ∃ before x after ps qs c', xs = before ++ x :: after ∧ Visits r c before x ps qs c' ∧ ¬ok c'

section Simulates

variable {r : Reader C α τ ε} {a : Reader A α τ ε} {view : C → A} {ok : C → Prop} {c c₁ c₂ : C}
  {xs : List (List α)} {x : List α} {ps qs : List (Piece α τ)} {e : ε}

/-- A row of turns is simulated up to the first configuration that is not `ok`. -/
theorem Simulates.takes (hsim : Simulates r a view ok) (h : Takes r c ps c₁) :
    (∃ qs c', Takes r c qs c' ∧ Takes a (view c) qs (view c') ∧ ¬ok c') ∨
      Takes a (view c) ps (view c₁) ∧ ok c₁ := by
  induction h with
  | refl c =>
      by_cases hok : ok c
      · exact .inr ⟨.refl _, hok⟩
      · exact .inl ⟨[], c, .refl c, .refl _, hok⟩
  | @head c d c' p item ps hturn hheld htakes ih =>
      by_cases hok : ok c
      · have hturn' := hsim.take _ _ _ hok hturn
        have hheld' : a.held (view c) = p ++ a.held (view d) := by
          rw [hsim.held, hsim.held, hheld]
        obtain ⟨qs, c'', hqs, hqs', hbad⟩ | ⟨hps, hok'⟩ := ih
        · exact .inl ⟨_, c'', .head hturn hheld hqs, .head hturn' hheld' hqs', hbad⟩
        · exact .inr ⟨.head hturn' hheld' hps, hok'⟩
      · exact .inl ⟨[], c, .refl c, .refl _, hok⟩

/-- A run is simulated up to the first configuration that is not `ok`. -/
theorem Simulates.runs (hsim : Simulates r a view ok) (h : Runs r c xs ps c₁) :
    (∃ before x after ps qs c', xs = before ++ x :: after ∧ Visits r c before x ps qs c' ∧
      Visits a (view c) before x ps qs (view c') ∧ ¬ok c') ∨ Runs a (view c) xs ps (view c₁) := by
  induction h with
  | nil c => exact .inr (.nil _)
  | @cons c d d' c' x xs ps qs htakes hwait hruns ih =>
      obtain ⟨qs', c'', hqs, hqs', hbad⟩ | ⟨hps, hok⟩ := hsim.takes htakes
      · rw [hsim.push] at hqs'
        exact .inl ⟨[], x, xs, [], qs', c'', rfl, ⟨c, .nil c, hqs⟩, ⟨_, .nil _, hqs'⟩, hbad⟩
      · rw [hsim.push] at hps
        have hwait' := hsim.wait _ _ hok hwait
        obtain ⟨before, y, after, ps₁, qs₁, c'', rfl, ⟨c₃, hr, ht⟩, ⟨a₃, hr', ht'⟩, hbad⟩ |
          hruns' := ih
        · exact .inl ⟨x :: before, y, after, ps ++ ps₁, qs₁, c'', rfl,
            ⟨c₃, .cons htakes hwait hr, ht⟩, ⟨a₃, .cons hps hwait' hr', ht'⟩, hbad⟩
        · exact .inr (.cons hps hwait' hruns')

/-- **A run that stays `ok` is one of the simulating reader.** -/
theorem Simulates.runs_of_not_strays (hsim : Simulates r a view ok) (h : Runs r c xs ps c₁)
    (hstray : ¬Strays r ok c xs) : Runs a (view c) xs ps (view c₁) := by
  obtain ⟨before, x, after, ps', qs, c', hcut, hvisits, -, hbad⟩ | hruns := hsim.runs h
  · exact absurd ⟨before, x, after, ps', qs, c', hcut, hvisits, hbad⟩ hstray
  · exact hruns

/-- **A failure of a run that stays `ok` is one of the simulating reader.** -/
theorem Simulates.fails_of_not_strays (hsim : Simulates r a view ok) (h : Fails r c xs ps qs e)
    (hstray : ¬Strays r ok c xs) : Fails a (view c) xs ps qs e := by
  obtain ⟨before, x, after, c₁, rfl, hruns, c₂, c₃, htakes, hfail⟩ := h
  have hbefore : ¬Strays r ok c before := by
    rintro ⟨b, y, aft, ps', qs', c', rfl, hvisits, hbad⟩
    exact hstray ⟨b, y, aft ++ x :: after, ps', qs', c', by simp, hvisits, hbad⟩
  obtain ⟨qs', c', hqs, -, hbad⟩ | ⟨htakes', hok⟩ := hsim.takes htakes
  · exact absurd ⟨before, x, after, ps, qs', c', rfl, ⟨c₁, hruns, hqs⟩, hbad⟩ hstray
  · obtain ⟨a', hfail'⟩ := hsim.fail _ _ _ hok hfail
    rw [hsim.push] at htakes'
    exact ⟨before, x, after, view c₁, rfl, hsim.runs_of_not_strays hruns hbefore, _, a', htakes',
      hfail'⟩

/-- Where the reader strays, both readers come to the first configuration that is not `ok`. -/
theorem Simulates.strays (hsim : Simulates r a view ok) (h : Strays r ok c xs) :
    ∃ before x after ps qs c', xs = before ++ x :: after ∧ Visits r c before x ps qs c' ∧
      Visits a (view c) before x ps qs (view c') ∧ ¬ok c' := by
  obtain ⟨before, x, after, ps, qs, c', rfl, ⟨c₁, hruns, htakes⟩, hbad⟩ := h
  obtain ⟨b, y, aft, ps', qs', c'', rfl, hvisits, hvisits', hbad'⟩ | hruns' := hsim.runs hruns
  · exact ⟨b, y, aft ++ x :: after, ps', qs', c'', by simp, hvisits, hvisits', hbad'⟩
  · obtain ⟨qs', c'', hqs, hqs', hbad'⟩ | ⟨-, hok⟩ := hsim.takes htakes
    · rw [hsim.push] at hqs'
      exact ⟨before, x, after, ps, qs', c'', rfl, ⟨c₁, hruns, hqs⟩, ⟨_, hruns', hqs'⟩, hbad'⟩
    · exact absurd hok hbad

end Simulates

end Lib.Stream
