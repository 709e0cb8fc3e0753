import Mathlib.Algebra.Group.End
import Mathlib.Data.Nat.Basic
import Mathlib.Logic.Equiv.Basic

/-!
# Ciphers on whole blocks

`WholeBlockCipher n k` is what a caller may rely on when it encrypts a string made
of whole blocks of `n` bytes under a key of `k` bytes: the length is kept and
decryption undoes encryption, in both orders.

`ecb` builds one from any keyed permutation of single blocks, by applying the
permutation to each block in turn.
-/

set_option autoImplicit false

namespace Lib.BlockCipher

/-- A keyed, length-preserving bijection on the strings made of whole blocks. -/
structure WholeBlockCipher (blockSize keySize : ℕ) where
  encrypt : List UInt8 → List UInt8 → List UInt8
  decrypt : List UInt8 → List UInt8 → List UInt8
  length_encrypt : ∀ key x, key.length = keySize → blockSize ∣ x.length →
    (encrypt key x).length = x.length
  length_decrypt : ∀ key x, key.length = keySize → blockSize ∣ x.length →
    (decrypt key x).length = x.length
  decrypt_encrypt : ∀ key x, key.length = keySize → blockSize ∣ x.length →
    decrypt key (encrypt key x) = x
  encrypt_decrypt : ∀ key x, key.length = keySize → blockSize ∣ x.length →
    encrypt key (decrypt key x) = x

/-- One block of `n` bytes. -/
abbrev Block (n : ℕ) := { b : List UInt8 // b.length = n }

/-- Apply `f` to each whole block of a string; a shorter rest is left alone. -/
def mapBlocks {n : ℕ} (f : Block n → Block n) (x : List UInt8) : List UInt8 :=
  if h : 0 < n ∧ n ≤ x.length then
    (f ⟨x.take n, by rw [List.length_take]; omega⟩).val ++ mapBlocks f (x.drop n)
  else x
termination_by x.length
decreasing_by rw [List.length_drop]; omega

section

variable {n : ℕ} (f g : Block n → Block n)

/-- Applying a block function keeps the length of the string. -/
theorem length_mapBlocks (x : List UInt8) : (mapBlocks f x).length = x.length := by
  induction x using mapBlocks.induct (n := n) with
  | case1 x h ih =>
      rw [mapBlocks, dif_pos h, List.length_append, (f _).property, ih, List.length_drop]
      omega
  | case2 x h => rw [mapBlocks, dif_neg h]

/-- Block functions that undo each other do so blockwise on whole strings. -/
theorem mapBlocks_mapBlocks (hfg : ∀ b, g (f b) = b) (x : List UInt8) :
    mapBlocks g (mapBlocks f x) = x := by
  induction x using mapBlocks.induct (n := n) with
  | case1 x h ih =>
      have hhead := (f ⟨x.take n, by rw [List.length_take]; omega⟩).property
      have hlen : n ≤ (mapBlocks f x).length := by rw [length_mapBlocks]; exact h.2
      have htake :
          (mapBlocks f x).take n = (f ⟨x.take n, by rw [List.length_take]; omega⟩).val := by
        rw [mapBlocks, dif_pos h, List.take_left' hhead]
      have hdrop : (mapBlocks f x).drop n = mapBlocks f (x.drop n) := by
        rw [mapBlocks, dif_pos h, List.drop_left' hhead]
      rw [mapBlocks, dif_pos ⟨h.1, hlen⟩, hdrop, ih]
      simp only [htake, Subtype.coe_eta, hfg, List.take_append_drop]
  | case2 x h => rw [mapBlocks.eq_def f, dif_neg h, mapBlocks, dif_neg h]

end

/-- Electronic codebook mode over a keyed permutation of blocks. -/
def ecb {blockSize keySize : ℕ} (perm : List UInt8 → Equiv.Perm (Block blockSize)) :
    WholeBlockCipher blockSize keySize where
  encrypt key := mapBlocks (perm key)
  decrypt key := mapBlocks (perm key).symm
  length_encrypt _ x _ _ := length_mapBlocks _ x
  length_decrypt _ x _ _ := length_mapBlocks _ x
  decrypt_encrypt key x _ _ := mapBlocks_mapBlocks _ _ (perm key).symm_apply_apply x
  encrypt_decrypt key x _ _ := mapBlocks_mapBlocks _ _ (perm key).apply_symm_apply x

end Lib.BlockCipher
