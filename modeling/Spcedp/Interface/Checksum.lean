import Spcedp.Interface.Layout
import Spcedp.Lib.Register

/-!
# The checksum as a register

`edp_checksum` is no standard CRC: the byte is added to the low half of the state, without
carry, after the shift. In numbers a round doubles the 16-bit state, adds the byte in its low
half and, if a bit was shifted out, XORs a polynomial with an odd low half
(`checksumByte_eq`). The parity of the low half therefore tells the two cases apart, and a
round is injective in the state as well as in the byte.
-/

set_option autoImplicit false

namespace Spcedp.Wire

open Lib

/-- The states of the loop: both halves are bytes. -/
def byteStates : Set (ℕ × ℕ) := {s | s.1 < 2 ^ 8 ∧ s.2 < 2 ^ 8}

/-! ## One round -/

/-- The low half of the state, and the high half, before the polynomial. -/
def shiftedLow (low : ℕ) (b : UInt8) : ℕ := (2 * low + b.toNat) % 256
def shiftedHigh (low high : ℕ) : ℕ := (2 * high + low / 128) % 256

/-- The highest bit of a byte is set from 128 on. -/
theorem carry_iff {high : ℕ} (h : high < 2 ^ 8) : high &&& 0x80 ≠ 0 ↔ 128 ≤ high := by
  have hall : ∀ high < 2 ^ 8, high &&& 0x80 ≠ 0 ↔ 128 ≤ high := by decide +kernel
  exact hall high h

/-- One round in numbers. -/
theorem checksumByte_eq {low high : ℕ} (hlow : low < 2 ^ 8) (hhigh : high < 2 ^ 8) (b : UInt8) :
    checksumByte low high b =
      if 128 ≤ high then (shiftedLow low b ^^^ 0x97, shiftedHigh low high ^^^ 0xA0)
      else (shiftedLow low b, shiftedHigh low high) := by
  have hstate : ((high <<< 8 ||| low) <<< 1) &&& 0xFFFF = 2 * (256 * high + low) % 2 ^ 16 := by
    rw [← Nat.shiftLeft_add_eq_or_of_lt hlow, Nat.shiftLeft_eq, Nat.shiftLeft_eq,
      show (0xFFFF : ℕ) = 2 ^ 16 - 1 from rfl, Nat.and_two_pow_sub_one_eq_mod]
    omega
  have hbyte (x : ℕ) : x &&& 0xFF = x % 2 ^ 8 := Nat.and_two_pow_sub_one_eq_mod x 8
  have hl : ((((high <<< 8 ||| low) <<< 1) &&& 0xFFFF) &&& 0xFF) + b.toNat &&& 0xFF =
      shiftedLow low b := by
    unfold shiftedLow
    rw [hstate, hbyte, hbyte]
    omega
  have hh : ((((high <<< 8 ||| low) <<< 1) &&& 0xFFFF) >>> 8) &&& 0xFF =
      shiftedHigh low high := by
    unfold shiftedHigh
    rw [hstate, hbyte, Nat.shiftRight_eq_div_pow]
    omega
  unfold checksumByte
  dsimp only
  rw [hl, hh]
  by_cases hcarry : 128 ≤ high
  · rw [if_pos ((carry_iff hhigh).mpr hcarry), if_pos hcarry]
    rfl
  · rw [if_neg fun h => hcarry ((carry_iff hhigh).mp h), if_neg hcarry]

/-- The doubled state is even, so the low half has the parity of the byte. -/
theorem shiftedLow_mod_two (low : ℕ) (b : UInt8) : shiftedLow low b % 2 = b.toNat % 2 := by
  unfold shiftedLow
  omega

/-- Without the bit that is shifted out, doubling loses nothing. -/
theorem shifted_inj {low high low' high' : ℕ} {b : UInt8} (hs : (low, high) ∈ byteStates)
    (hs' : (low', high') ∈ byteStates) (hcarry : 128 ≤ high ↔ 128 ≤ high')
    (hl : shiftedLow low b = shiftedLow low' b)
    (hh : shiftedHigh low high = shiftedHigh low' high') : (low, high) = (low', high') := by
  obtain ⟨hlow, hhigh⟩ := hs
  obtain ⟨hlow', hhigh'⟩ := hs'
  unfold shiftedLow at hl
  unfold shiftedHigh at hh
  dsimp only at hlow hhigh hlow' hhigh'
  have hb : b.toNat < 256 := b.toNat_lt_size
  rw [Prod.mk.injEq]
  omega

/-- **A round is injective in the state.** -/
theorem checksumByte_injOn (b : UInt8) :
    Set.InjOn (fun s : ℕ × ℕ => checksumByte s.1 s.2 b) byteStates := by
  rintro ⟨low, high⟩ hs ⟨low', high'⟩ hs' heq
  have hpoly : (shiftedLow low b ^^^ 0x97) % 2 ≠ b.toNat % 2 := by
    have := shiftedLow_mod_two low b
    rw [Nat.xor_mod_two_eq]
    omega
  have hpoly' : (shiftedLow low' b ^^^ 0x97) % 2 ≠ b.toNat % 2 := by
    have := shiftedLow_mod_two low' b
    rw [Nat.xor_mod_two_eq]
    omega
  dsimp only at heq
  rw [checksumByte_eq hs.1 hs.2, checksumByte_eq hs'.1 hs'.2] at heq
  by_cases hcarry : 128 ≤ high
  · by_cases hcarry' : 128 ≤ high'
    · rw [if_pos hcarry, if_pos hcarry', Prod.mk.injEq] at heq
      exact shifted_inj hs hs' (iff_of_true hcarry hcarry') (Nat.xor_left_inj.mp heq.1)
        (Nat.xor_left_inj.mp heq.2)
    · rw [if_pos hcarry, if_neg hcarry', Prod.mk.injEq] at heq
      rw [heq.1] at hpoly
      exact absurd (shiftedLow_mod_two low' b) hpoly
  · by_cases hcarry' : 128 ≤ high'
    · rw [if_neg hcarry, if_pos hcarry', Prod.mk.injEq] at heq
      rw [← heq.1] at hpoly'
      exact absurd (shiftedLow_mod_two low b) hpoly'
    · rw [if_neg hcarry, if_neg hcarry', Prod.mk.injEq] at heq
      exact shifted_inj hs hs' (iff_of_false hcarry hcarry') heq.1 heq.2

/-- **A round is injective in the byte.** -/
theorem checksumByte_ne {s : ℕ × ℕ} (hs : s ∈ byteStates) {b b' : UInt8} (hne : b ≠ b') :
    checksumByte s.1 s.2 b ≠ checksumByte s.1 s.2 b' := by
  intro heq
  rw [checksumByte_eq hs.1 hs.2, checksumByte_eq hs.1 hs.2] at heq
  have hlow : shiftedLow s.1 b = shiftedLow s.1 b' := by
    split at heq
    · exact Nat.xor_left_inj.mp (Prod.mk.inj heq).1
    · exact (Prod.mk.inj heq).1
  apply hne
  apply UInt8.toNat_inj.mp
  have hb : b.toNat < 256 := b.toNat_lt_size
  have hb' : b'.toNat < 256 := b'.toNat_lt_size
  unfold shiftedLow at hlow
  omega

/-! ## The loop -/

/-- A round of the checksum stays within two bytes. -/
theorem checksumRound_mem (a : Bytes) {s : ℕ × ℕ} (hs : s ∈ byteStates) (i : ℕ) :
    checksumRound a s i ∈ byteStates := by
  unfold checksumRound
  split
  · exact hs
  · exact checksumByte_lt _ _ _

/-- No two states of the checksum become one in a round. -/
theorem checksumRound_injOn (a : Bytes) (i : ℕ) :
    Set.InjOn (fun s => checksumRound a s i) byteStates := by
  unfold checksumRound
  split
  · exact Set.injOn_id byteStates
  · exact checksumByte_injOn _

/-- **One byte that differs changes the state**, wherever it stands below the bound and outside
the slot, and however many bytes follow. -/
theorem checksumLoop_ne {a b : Bytes} {i stop : ℕ} (hi : i < stop) (hlow : i ≠ csumOffsetLow)
    (hhigh : i ≠ csumOffsetHigh) (hsame : ∀ j, j ≠ i → a.getD j 0 = b.getD j 0)
    (hdiff : a.getD i 0 ≠ b.getD i 0) : checksumLoop a stop ≠ checksumLoop b stop := by
  unfold checksumLoop
  refine Register.foldl_ne (P := byteStates) (i := i) (fun s hs j => checksumRound_mem a hs j)
    (fun s hs j => checksumRound_mem b hs j) (checksumRound_injOn a) List.nodup_range
    (List.mem_range.mpr hi) (fun j _ hj s => ?_) (fun s hs => ?_) ⟨by decide, by decide⟩
  · unfold checksumRound
    rw [hsame j hj]
  · unfold checksumRound
    rw [if_neg (not_or.mpr ⟨hlow, hhigh⟩), if_neg (not_or.mpr ⟨hlow, hhigh⟩)]
    exact checksumByte_ne hs hdiff

/-- Different states are different checksums. -/
theorem checksumValue_injOn : Set.InjOn checksumValue byteStates := by
  rintro ⟨low, high⟩ hs ⟨low', high'⟩ hs' heq
  obtain ⟨hlow, -⟩ := hs
  obtain ⟨hlow', -⟩ := hs'
  unfold checksumValue at heq
  dsimp only at hlow hlow' heq
  rw [← Nat.shiftLeft_add_eq_or_of_lt hlow, ← Nat.shiftLeft_add_eq_or_of_lt hlow',
    Nat.shiftLeft_eq, Nat.shiftLeft_eq] at heq
  rw [Prod.mk.injEq]
  omega

end Spcedp.Wire
