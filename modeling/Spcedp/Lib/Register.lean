import Mathlib.Data.List.Basic
import Mathlib.Data.Set.Function

/-!
# Registers

A register is a state into which the letters of a word go one after the other; `f s i` is the
state after the letter at position `i`. If every round is injective in the state, then two
words that differ in one letter end in different states, however many letters follow
(`foldl_ne`). `P` holds the states that can occur.
-/

set_option autoImplicit false

namespace Lib.Register

variable {S I : Type} {P : Set S} {f g : S → I → S} {l : List I} {s t : S} {i : I}

/-- Rounds that stay within `P` do so over a whole word. -/
theorem foldl_mem (hP : ∀ s ∈ P, ∀ i, f s i ∈ P) (hs : s ∈ P) : l.foldl f s ∈ P := by
  induction l generalizing s with
  | nil => exact hs
  | cons i l ih => exact ih (hP s hs i)

/-- Injective rounds keep different states apart. -/
theorem foldl_injOn (hP : ∀ s ∈ P, ∀ i, f s i ∈ P) (hinj : ∀ i, Set.InjOn (fun s => f s i) P) :
    Set.InjOn (fun s => l.foldl f s) P := by
  induction l with
  | nil => exact Set.injOn_id P
  | cons i l ih =>
      intro s hs t ht heq
      apply hinj i hs ht
      exact ih (hP s hs i) (hP t ht i) heq

/-- **A single difference shows.** Two registers that agree in all rounds of a word but one,
and in that one on no state, end in different states. -/
theorem foldl_ne (hPf : ∀ s ∈ P, ∀ i, f s i ∈ P) (hPg : ∀ s ∈ P, ∀ i, g s i ∈ P)
    (hinj : ∀ i, Set.InjOn (fun s => f s i) P) (hl : l.Nodup) (hi : i ∈ l)
    (hsame : ∀ j ∈ l, j ≠ i → ∀ s, f s j = g s j) (hdiff : ∀ s ∈ P, f s i ≠ g s i) (hs : s ∈ P) :
    l.foldl f s ≠ l.foldl g s := by
  obtain ⟨before, after, rfl⟩ := List.append_of_mem hi
  obtain ⟨-, hafter, hbefore⟩ := List.nodup_append.mp hl
  have hne : ∀ j ∈ before ++ after, j ≠ i := by
    rintro j hj rfl
    obtain hj | hj := List.mem_append.mp hj
    · exact hbefore j hj j (by simp) rfl
    · exact (List.nodup_cons.mp hafter).1 hj
  have hpre : before.foldl f s = before.foldl g s := by
    apply List.foldl_ext
    intro t j hj
    exact hsame j (by simp [hj]) (hne j (by simp [hj])) t
  have hpost : ∀ t, after.foldl f t = after.foldl g t := by
    intro t
    apply List.foldl_ext
    intro u j hj
    exact hsame j (by simp [hj]) (hne j (by simp [hj])) u
  have hmem : before.foldl g s ∈ P := foldl_mem hPg hs
  rw [List.foldl_append, List.foldl_append, List.foldl_cons, List.foldl_cons, hpre, ← hpost]
  intro heq
  apply hdiff _ hmem
  exact foldl_injOn hPf hinj (hPf _ hmem i) (hPg _ hmem i) heq

end Lib.Register
