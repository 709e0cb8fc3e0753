import Spcedp.Model.Xmlcmd
import Mathlib.Data.List.Infix

/-!
# What the assembler makes of the pieces of a reply

A reply is cut into pieces, and each piece comes behind a marker byte. As long as a piece is
missing, the closing tag has not been seen, wherever the cuts are: it stands only at the end
of the reply, and the last piece is not empty (`assemble_middle`). The last piece completes
the reply (`assemble_last`).
-/

set_option autoImplicit false

namespace Spcedp.Xmlcmd

open Spcedp.PyText

section Patterns

variable {α : Type} [DecidableEq α] {pattern s : List α}

/-- `in` finds a pattern exactly where it is a piece of the text. -/
theorem occursIn_iff : occursIn pattern s = true ↔ pattern <:+: s := by
  unfold occursIn
  simp only [List.any_eq_true, List.mem_tails, List.isPrefixOf_iff_prefix]
  rw [List.infix_iff_prefix_suffix]
  exact exists_congr fun t => and_comm

omit [DecidableEq α] in
/-- The pattern occurs exactly once, as a suffix. -/
structure OnlyAtEnd (pattern s : List α) : Prop where
  suffix : pattern <:+ s
  once : ∀ u v, s = u ++ pattern ++ v → v = []

/-- A pattern at the end of a text occurs in it. -/
theorem OnlyAtEnd.occurs (h : OnlyAtEnd pattern s) : occursIn pattern s = true :=
  occursIn_iff.mpr h.suffix.isInfix

/-- A pattern at the end of a text, but not in the text without its last letter. -/
theorem onlyAtEnd_of_dropLast (hsuffix : pattern <:+ s)
    (honce : occursIn pattern s.dropLast = false) : OnlyAtEnd pattern s := by
  refine ⟨hsuffix, fun u v hs => ?_⟩
  by_contra hv
  rw [Bool.eq_false_iff, ne_eq, occursIn_iff] at honce
  apply honce
  rw [hs, List.dropLast_append_of_ne_nil hv]
  exact ⟨u, v.dropLast, rfl⟩

/-- A proper prefix does not have the pattern. -/
theorem OnlyAtEnd.not_occurs (h : OnlyAtEnd pattern s) {p rest : List α} (hs : p ++ rest = s)
    (hrest : rest ≠ []) : occursIn pattern p = false := by
  rw [Bool.eq_false_iff, ne_eq, occursIn_iff]
  rintro ⟨u, v, rfl⟩
  have hv := h.once u (v ++ rest) (by rw [← hs, List.append_assoc, List.append_assoc])
  exact hrest (List.append_eq_nil_iff.mp hv).2

end Patterns

/-- The reply `b` is cut into `pieces`, the last of which is not empty. -/
structure Cut (b : List UInt8) (pieces : List (List UInt8)) : Prop where
  flatten : pieces.flatten = b
  last : ∀ piece ∈ pieces.getLast?, piece ≠ []

section Pieces

variable {b : List UInt8} {pieces : List (List UInt8)} {i : ℕ} {piece : List UInt8}

/-- One piece more. -/
theorem flatten_take_succ (hpiece : pieces[i]? = some piece) :
    (pieces.take (i + 1)).flatten = (pieces.take i).flatten ++ piece := by
  rw [List.take_add_one, hpiece, List.flatten_append]
  simp

/-- The first pieces are the start of the reply. -/
theorem Cut.flatten_take (hcut : Cut b pieces) (i : ℕ) :
    (pieces.take i).flatten ++ (pieces.drop i).flatten = b := by
  rw [← List.flatten_append, List.take_append_drop, hcut.flatten]

/-- As long as a piece is missing, so are some bytes. -/
theorem Cut.rest_ne_nil (hcut : Cut b pieces) (hi : i < pieces.length) :
    (pieces.drop i).flatten ≠ [] := by
  intro hnil
  rw [List.flatten_eq_nil_iff] at hnil
  have hne : pieces.drop i ≠ [] := by
    rw [ne_eq, List.drop_eq_nil_iff]
    omega
  apply hcut.last ((pieces.drop i).getLast hne)
  · rw [List.getLast_drop, List.getLast?_eq_some_getLast]
    rfl
  · exact hnil _ (List.getLast_mem hne)

/-- Some of the pieces are no longer than the whole. -/
theorem Cut.length_take_le (hcut : Cut b pieces) (i : ℕ) :
    (pieces.take i).flatten.length ≤ b.length := by
  rw [← hcut.flatten_take i, List.length_append]
  omega

variable (hcut : Cut b pieces) (htag : OnlyAtEnd closingTag b) (hsize : b.length ≤ maxReplyBytes)
  (hpiece : pieces[i]? = some piece) (marker : UInt8)

include hcut htag hsize hpiece in
/-- **A piece that is not the last** leaves the assembler waiting. -/
theorem assemble_middle (hi : i + 1 < pieces.length) :
    assemble (pieces.take i).flatten (marker :: piece) =
      .ok ((pieces.take (i + 1)).flatten, none) := by
  have hlen := (hcut.length_take_le (i + 1)).trans hsize
  have htag' := htag.not_occurs (hcut.flatten_take (i + 1)) (hcut.rest_ne_nil hi)
  unfold assemble
  dsimp only
  rw [← flatten_take_succ hpiece, if_neg (not_lt.mpr hlen), htag', if_neg Bool.false_ne_true]

include hcut htag hsize hpiece in
/-- **The last piece** completes the reply. -/
theorem assemble_last (hi : i + 1 = pieces.length) :
    assemble (pieces.take i).flatten (marker :: piece) = .ok ([], some b) := by
  have hwhole : (pieces.take i).flatten ++ piece = b := by
    rw [← flatten_take_succ hpiece, hi, List.take_length, hcut.flatten]
  unfold assemble
  dsimp only
  rw [hwhole, if_neg (not_lt.mpr hsize), if_pos htag.occurs]

end Pieces

end Spcedp.Xmlcmd
