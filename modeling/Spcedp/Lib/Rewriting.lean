import Mathlib.Data.List.Basic
import Mathlib.Data.List.TakeWhile

/-!
# Two readings of a text

A letter is read plainly as one symbol; a rewriting reads it the same way, or garbles it into
two or more marks. What a rewritten text says between marks, the plain text says too: an
unmarked beginning or end of the one is the same beginning or end of the other, and the two
texts are equal only where nothing is garbled.
-/

set_option autoImplicit false

namespace Lib

/-- A reading of letters that garbles some of them. -/
structure Rewriting (α β : Type) where
  plain : α → β
  image : α → List β
  mark : β → Prop
  image_cases : ∀ a, image a = [plain a] ∨ 2 ≤ (image a).length ∧ ∀ y ∈ image a, mark y

namespace Rewriting

variable {α β : Type} (f : Rewriting α β)

/-- The letter is read plainly. -/
def Kept (a : α) : Prop := f.image a = [f.plain a]

variable {f} {t : List α} {y : β}

/-- Where every symbol is kept, rewriting is symbol by symbol. -/
theorem flatMap_eq_map (h : ∀ a ∈ t, f.Kept a) : t.flatMap f.image = t.map f.plain := by
  induction t with
  | nil => rfl
  | cons a t ih =>
      rw [List.flatMap_cons, List.map_cons, h a (by simp), ih fun b hb => h b (by simp [hb])]
      rfl

/-- Rewriting drops no symbol. -/
theorem length_le_flatMap (t : List α) : t.length ≤ (t.flatMap f.image).length := by
  induction t with
  | nil => simp
  | cons a t ih =>
      rw [List.flatMap_cons, List.length_append, List.length_cons]
      rcases f.image_cases a with h | ⟨h, -⟩
      · rw [h, List.length_singleton]
        omega
      · omega

/-- **The readings agree** only on a text of which nothing is garbled. -/
theorem flatMap_eq_map_iff : t.flatMap f.image = t.map f.plain ↔ ∀ a ∈ t, f.Kept a := by
  refine ⟨?_, flatMap_eq_map⟩
  intro h
  induction t with
  | nil => simp
  | cons a t ih =>
      rw [List.flatMap_cons, List.map_cons] at h
      rcases f.image_cases a with ha | ⟨ha, -⟩
      · rw [ha, List.singleton_append, List.cons.injEq] at h
        intro b hb
        rcases List.mem_cons.mp hb with rfl | hb
        · exact ha
        · exact ih h.2 b hb
      · have hlen := congrArg List.length h
        rw [List.length_append, List.length_cons, List.length_map] at hlen
        have := length_le_flatMap (f := f) t
        omega

/-- An unmarked beginning of the rewritten text is read plainly. -/
theorem split_left {a b : List β} (h : t.flatMap f.image = a ++ b) (ha : ∀ y ∈ a, ¬ f.mark y) :
    ∃ t₁ t₂, t = t₁ ++ t₂ ∧ t₁.map f.plain = a ∧ (∀ c ∈ t₁, f.Kept c) ∧
      t₂.flatMap f.image = b := by
  induction a generalizing t with
  | nil => exact ⟨[], t, rfl, rfl, by simp, h⟩
  | cons y a ih =>
      cases t with
      | nil => cases h
      | cons c t =>
          rw [List.flatMap_cons, List.cons_append] at h
          rcases f.image_cases c with hc | ⟨hlen, hc⟩
          · rw [hc, List.singleton_append, List.cons.injEq] at h
            obtain ⟨t₁, t₂, rfl, rfl, hkept, rfl⟩ := ih h.2 fun z hz => ha z (by simp [hz])
            refine ⟨c :: t₁, t₂, rfl, by rw [List.map_cons, h.1], ?_, rfl⟩
            simpa using ⟨hc, hkept⟩
          · cases himage : f.image c with
            | nil => simp [himage] at hlen
            | cons z zs =>
                rw [himage, List.cons_append, List.cons.injEq] at h
                exact absurd (hc z (by simp [himage])) (h.1 ▸ ha y (by simp))

/-- The same rewriting, read from the right. -/
def mirror (f : Rewriting α β) : Rewriting α β where
  plain := f.plain
  image a := (f.image a).reverse
  mark := f.mark
  image_cases a := by
    rcases f.image_cases a with h | h
    · exact .inl (by rw [h, List.reverse_singleton])
    · exact .inr (by simpa using h)

/-- The mirror image keeps the same symbols. -/
theorem mirror_kept_iff {a : α} : f.mirror.Kept a ↔ f.Kept a := by
  unfold Kept mirror
  rw [List.reverse_eq_iff, List.reverse_singleton]

/-- Rewriting backwards is rewriting with the mirror image. -/
theorem reverse_flatMap (t : List α) :
    (t.flatMap f.image).reverse = t.reverse.flatMap f.mirror.image := by
  rw [List.reverse_flatMap]
  rfl

/-- An unmarked end of the rewritten text is read plainly. -/
theorem split_right {a b : List β} (h : t.flatMap f.image = a ++ b) (hb : ∀ y ∈ b, ¬ f.mark y) :
    ∃ t₁ t₂, t = t₁ ++ t₂ ∧ t₁.flatMap f.image = a ∧ (∀ c ∈ t₂, f.Kept c) ∧
      t₂.map f.plain = b := by
  have hmirror : t.reverse.flatMap f.mirror.image = b.reverse ++ a.reverse := by
    rw [← reverse_flatMap, h, List.reverse_append]
  obtain ⟨t₂, t₁, ht, hplain, hkept, hrest⟩ :=
    split_left (f := f.mirror) hmirror fun y hy => hb y (List.mem_reverse.mp hy)
  refine ⟨t₁.reverse, t₂.reverse, ?_, ?_, ?_, ?_⟩
  · rw [← List.reverse_append, ← ht, List.reverse_reverse]
  · rw [← List.reverse_inj, reverse_flatMap, List.reverse_reverse, hrest]
  · intro c hc
    exact mirror_kept_iff.mp (hkept c (by simpa using hc))
  · rw [List.map_reverse, ← List.reverse_inj, List.reverse_reverse]
    exact hplain

/-- A symbol that only kept letters stand for is as frequent in both readings. -/
theorem count_flatMap [DecidableEq β] (hmark : ¬ f.mark y) (hkept : ∀ a, f.plain a = y → f.Kept a)
    (t : List α) : (t.flatMap f.image).count y = (t.map f.plain).count y := by
  induction t with
  | nil => rfl
  | cons a t ih =>
      rw [List.flatMap_cons, List.count_append, ih, List.map_cons, List.count_cons, Nat.add_comm]
      congr 1
      rcases f.image_cases a with h | ⟨hlen, h⟩
      · rw [h, List.count_singleton]
      · have himage : y ∉ f.image a := fun hy => hmark (h y hy)
        have hplain : f.plain a ≠ y := by
          intro hy
          rw [hkept a hy] at hlen
          simp at hlen
        rw [List.count_eq_zero.mpr himage, if_neg (by simpa using hplain)]

/-- Dropping letters that only kept letters stand for commutes with the rewriting. -/
theorem dropWhile_flatMap {p : β → Bool} (hmark : ∀ y, f.mark y → p y = false)
    (hkept : ∀ a, p (f.plain a) → f.Kept a) (t : List α) :
    (t.flatMap f.image).dropWhile p = (t.dropWhile fun a => p (f.plain a)).flatMap f.image := by
  induction t with
  | nil => rfl
  | cons a t ih =>
      rw [List.flatMap_cons]
      by_cases ha : p (f.plain a) = true
      · have hplain : (a :: t).dropWhile (fun a => p (f.plain a)) =
            t.dropWhile fun a => p (f.plain a) := List.dropWhile_cons_of_pos ha
        rw [hkept a ha, List.singleton_append, List.dropWhile_cons_of_pos ha, hplain, ih]
      · have hplain : (a :: t).dropWhile (fun a => p (f.plain a)) = a :: t :=
          List.dropWhile_cons_of_neg ha
        rw [hplain, List.flatMap_cons]
        rcases f.image_cases a with h | ⟨hlen, h⟩
        · rw [h, List.singleton_append, List.dropWhile_cons_of_neg ha]
        · cases himage : f.image a with
          | nil => simp [himage] at hlen
          | cons z zs =>
              have hz : p z = false := hmark z (h z (by simp [himage]))
              rw [List.cons_append, List.dropWhile_cons_of_neg (by simp [hz])]

end Rewriting

end Lib
