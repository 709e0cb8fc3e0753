import Spcedp.Lib.Rewriting
import Spcedp.Model.Events

/-!
# Decoding UTF-8

The decoder gives back every text that was encoded. With the separator byte replaced first it
does so only for the characters whose encoding has no such byte: in a longer character the
byte is taken for a separator, and the character is garbled.
-/

set_option autoImplicit false

namespace Spcedp.Events

open Spcedp.PyText

/-- `t.encode("utf-8")` of a text without lone surrogates. -/
def encodeUtf8 (t : List Char) : List UInt8 := t.flatMap String.utf8EncodeChar

/-- The text as its code points. -/
def codes (t : List Char) : Text := t.map Char.toNat

/-- A byte that only continues a character. -/
def Continues (b : UInt8) : Prop := 0x80 ≤ b.toNat ∧ b.toNat ≤ 0xBF

/-! ## Characters -/

/-- The first byte of a longer character announces the bytes `bs` that follow it, the first of
them from `low` to `high`, and with them spells the code point `n`. -/
structure Announces (b : UInt8) (bs : List UInt8) (value low high n : ℕ) : Prop where
  first : utf8First b.toNat = ([], .more value bs.length low high)
  lead : 0xC2 ≤ b.toNat
  nonempty : bs ≠ []
  continues : ∀ x ∈ bs, Continues x
  range : ∀ x ∈ bs.head?, low ≤ x.toNat ∧ x.toNat ≤ high
  high : high ≤ 0xBF
  spells : bs.foldl (fun v x => 64 * v + (x.toNat - 0x80)) value = n

/-- A number of one byte is that byte. -/
theorem toNat_ofNat {n : ℕ} (h : n < 256) : (UInt8.ofNat n).toNat = n := by
  rw [UInt8.toNat_ofNat', Nat.mod_eq_of_lt h]

/-- The first byte of a character of two announces the rest. -/
theorem announces_two {n : ℕ} (h₁ : ¬ n ≤ 0x7F) (h₂ : n ≤ 0x7FF) :
    Announces (.ofNat (n / 64 % 0x20 + 0xC0)) [.ofNat (n % 0x40 + 0x80)] (n / 64) 0x80 0xBF n := by
  have hb : (UInt8.ofNat (n / 64 % 0x20 + 0xC0)).toNat = n / 64 + 0xC0 := by
    rw [toNat_ofNat (by omega)]
    omega
  have hx := toNat_ofNat (n := n % 0x40 + 0x80) (by omega)
  exact {
    first := by
      rw [hb, utf8First, if_neg (by omega), if_pos (by omega)]
      simp
    lead := by omega
    nonempty := by simp
    continues := by
      intro x hx'
      rw [List.mem_singleton.mp hx', Continues]
      omega
    range := by
      intro x hx'
      obtain rfl := Option.some_inj.mp hx'
      omega
    high := le_rfl
    spells := by
      rw [List.foldl_cons, List.foldl_nil, hx]
      omega }

/-- The first byte of a character of three announces the rest. -/
theorem announces_three {n : ℕ} (h₂ : ¬ n ≤ 0x7FF) (h₃ : n ≤ 0xFFFF)
    (hvalid : n < 0xD800 ∨ 0xDFFF < n ∧ n < 0x110000) :
    Announces (.ofNat (n / 4096 % 0x10 + 0xE0))
      [.ofNat (n / 64 % 0x40 + 0x80), .ofNat (n % 0x40 + 0x80)] (n / 4096)
      (if n < 0x1000 then 0xA0 else 0x80) (if 0xD000 ≤ n ∧ n < 0xE000 then 0x9F else 0xBF) n := by
  have hb : (UInt8.ofNat (n / 4096 % 0x10 + 0xE0)).toNat = n / 4096 + 0xE0 := by
    rw [toNat_ofNat (by omega)]
    omega
  have hx := toNat_ofNat (n := n / 64 % 0x40 + 0x80) (by omega)
  have hy := toNat_ofNat (n := n % 0x40 + 0x80) (by omega)
  exact {
    first := by
      show utf8First _ = _
      rw [hb, utf8First, if_neg (by omega), if_neg (by omega)]
      by_cases hlow : n < 0x1000
      · rw [if_pos (by omega), if_pos hlow, if_neg (by omega), Nat.div_eq_of_lt hlow]
        rfl
      rw [if_neg (by omega), if_neg hlow]
      by_cases hhigh : 0xD000 ≤ n ∧ n < 0xE000
      · have hvalue : n / 4096 = 0xD := by omega
        rw [if_pos (by omega), if_pos hhigh, hvalue]
        rfl
      · rw [if_neg (by omega), if_pos (by omega), if_neg hhigh, Nat.add_sub_cancel]
        rfl
    lead := by omega
    nonempty := by simp
    continues := by
      intro x hx'
      simp only [List.mem_cons, List.not_mem_nil, or_false] at hx'
      rcases hx' with rfl | rfl <;> rw [Continues] <;> omega
    range := by
      intro x hx'
      obtain rfl := Option.some_inj.mp hx'
      split <;> split <;> omega
    high := by split <;> omega
    spells := by
      rw [List.foldl_cons, List.foldl_cons, List.foldl_nil, hx, hy]
      omega }

/-- The first byte of a character of four announces the rest. -/
theorem announces_four {n : ℕ} (h₃ : ¬ n ≤ 0xFFFF) (hvalid : n < 0x110000) :
    Announces (.ofNat (n / 262144 % 0x08 + 0xF0))
      [.ofNat (n / 4096 % 0x40 + 0x80), .ofNat (n / 64 % 0x40 + 0x80), .ofNat (n % 0x40 + 0x80)]
      (n / 262144) (if n < 0x40000 then 0x90 else 0x80) (if 0x100000 ≤ n then 0x8F else 0xBF)
      n := by
  have hb : (UInt8.ofNat (n / 262144 % 0x08 + 0xF0)).toNat = n / 262144 + 0xF0 := by
    rw [toNat_ofNat (by omega)]
    omega
  have hx := toNat_ofNat (n := n / 4096 % 0x40 + 0x80) (by omega)
  have hy := toNat_ofNat (n := n / 64 % 0x40 + 0x80) (by omega)
  have hz := toNat_ofNat (n := n % 0x40 + 0x80) (by omega)
  exact {
    first := by
      show utf8First _ = _
      rw [hb, utf8First, if_neg (by omega), if_neg (by omega), if_neg (by omega),
        if_neg (by omega), if_neg (by omega)]
      by_cases hlow : n < 0x40000
      · rw [if_pos (by omega), if_pos hlow, if_neg (by omega), Nat.div_eq_of_lt hlow]
        rfl
      rw [if_neg (by omega), if_neg hlow]
      by_cases hhigh : 0x100000 ≤ n
      · have hvalue : n / 262144 = 4 := by omega
        rw [if_pos (by omega), if_pos hhigh, hvalue]
        rfl
      · rw [if_neg (by omega), if_pos (by omega), if_neg hhigh, Nat.add_sub_cancel]
        rfl
    lead := by omega
    nonempty := by simp
    continues := by
      intro x hx'
      simp only [List.mem_cons, List.not_mem_nil, or_false] at hx'
      rcases hx' with rfl | rfl | rfl <;> rw [Continues] <;> omega
    range := by
      intro x hx'
      obtain rfl := Option.some_inj.mp hx'
      split <;> split <;> omega
    high := by split <;> omega
    spells := by
      rw [List.foldl_cons, List.foldl_cons, List.foldl_cons, List.foldl_nil, hx, hy, hz]
      omega }

/-- **Encoded characters.** A character is one byte below `0x80`, or a first byte and the bytes
that it announces. -/
theorem utf8EncodeChar_cases (c : Char) :
    (c.toNat < 0x80 ∧ String.utf8EncodeChar c = [UInt8.ofNat c.toNat]) ∨
      ∃ b bs value low high, String.utf8EncodeChar c = b :: bs ∧
        Announces b bs value low high c.toNat := by
  have hvalid : c.toNat < 0xD800 ∨ 0xDFFF < c.toNat ∧ c.toNat < 0x110000 := c.valid
  have hdef : c.val.toNat = c.toNat := rfl
  unfold String.utf8EncodeChar
  rw [hdef]
  generalize c.toNat = n at hvalid
  dsimp only
  by_cases h₁ : n ≤ 0x7F
  · exact .inl ⟨by omega, if_pos h₁⟩
  right
  rw [if_neg h₁]
  by_cases h₂ : n ≤ 0x7FF
  · rw [if_pos h₂]
    exact ⟨_, _, _, _, _, rfl, announces_two h₁ h₂⟩
  rw [if_neg h₂]
  by_cases h₃ : n ≤ 0xFFFF
  · rw [if_pos h₃]
    exact ⟨_, _, _, _, _, rfl, announces_three h₂ h₃ hvalid⟩
  · rw [if_neg h₃]
    exact ⟨_, _, _, _, _, rfl, announces_four h₃ (by omega)⟩

/-! ## The decoder -/

/-- The decoder reads a byte, and then the rest. -/
theorem utf8Loop_append_of_eq {s s' : Utf8} {b : UInt8} {out : Text}
    (h : utf8Byte s b.toNat = (out, s')) (rest : List UInt8) :
    utf8Loop s (b :: rest) = out ++ utf8Loop s' rest := by
  rw [utf8Loop, h]

/-- The bytes announced give the character. -/
theorem utf8Loop_more {bs : List UInt8} {value low high : ℕ} (hne : bs ≠ [])
    (hcont : ∀ x ∈ bs, Continues x) (hrange : ∀ x ∈ bs.head?, low ≤ x.toNat ∧ x.toNat ≤ high)
    (rest : List UInt8) :
    utf8Loop (.more value bs.length low high) (bs ++ rest) =
      bs.foldl (fun v x => 64 * v + (x.toNat - 0x80)) value :: utf8Loop .start rest := by
  induction bs generalizing value low high with
  | nil => cases hne rfl
  | cons b bs ih =>
      have hb := hrange b (by simp)
      cases bs with
      | nil =>
          have hbyte : utf8Byte (.more value 1 low high) b.toNat =
              ([64 * value + (b.toNat - 0x80)], .start) := by
            simp [utf8Byte, hb]
          exact utf8Loop_append_of_eq hbyte rest
      | cons b' bs =>
          have hbyte : utf8Byte (.more value (bs.length + 2) low high) b.toNat =
              ([], .more (64 * value + (b.toNat - 0x80)) (bs.length + 1) 0x80 0xBF) := by
            simp [utf8Byte, hb]
          rw [List.length_cons, List.length_cons, List.cons_append,
            utf8Loop_append_of_eq hbyte, List.nil_append, List.foldl_cons]
          exact ih (by simp) (fun x hx => hcont x (by simp [hx])) fun x hx =>
            hcont x (List.mem_cons_of_mem b (List.mem_of_mem_head? hx))

/-- One character. -/
theorem utf8Loop_char (c : Char) (rest : List UInt8) :
    utf8Loop .start (String.utf8EncodeChar c ++ rest) = c.toNat :: utf8Loop .start rest := by
  rcases utf8EncodeChar_cases c with ⟨hc, henc⟩ | ⟨b, bs, value, low, high, henc, h⟩
  · have hbyte : utf8Byte .start (UInt8.ofNat c.toNat).toNat = ([c.toNat], .start) := by
      rw [UInt8.toNat_ofNat', Nat.mod_eq_of_lt (by omega)]
      simp [utf8Byte, utf8First, hc]
    rw [henc, List.singleton_append, utf8Loop_append_of_eq hbyte]
    rfl
  · rw [henc, List.cons_append, utf8Loop_append_of_eq (s := .start) h.first, List.nil_append,
      utf8Loop_more h.nonempty h.continues h.range, h.spells]

/-- **Round trip.** What was encoded is decoded unchanged. -/
theorem decodeUtf8_encodeUtf8 (t : List Char) : decodeUtf8 (encodeUtf8 t) = codes t := by
  unfold decodeUtf8 encodeUtf8 codes
  induction t with
  | nil => rfl
  | cons c t ih => rw [List.flatMap_cons, utf8Loop_char, ih, List.map_cons]

/-! ## The separator -/

/-- What stands in a text for bytes that were taken apart. -/
def Mark (x : ℕ) : Prop := x = replacement ∨ x = 0xA6

/-- Separators are replaced byte by byte. -/
theorem replaceSeparator_append (p q : List UInt8) :
    replaceSeparator (p ++ q) = replaceSeparator p ++ replaceSeparator q := List.flatMap_append

/-- Another byte is not replaced. -/
theorem replaceSeparator_cons_of_ne {b : UInt8} (hb : b ≠ 0xA6) (p : List UInt8) :
    replaceSeparator (b :: p) = b :: replaceSeparator p := by
  rw [replaceSeparator, List.flatMap_cons, if_neg hb]
  rfl

/-- Bytes without a separator stay as they are. -/
theorem replaceSeparator_of_not_mem {p : List UInt8} (h : 0xA6 ∉ p) : replaceSeparator p = p := by
  induction p with
  | nil => rfl
  | cons b p ih =>
      rw [List.mem_cons, not_or] at h
      rw [replaceSeparator_cons_of_ne (Ne.symm h.1), ih h.2]

/-- Bytes that continue nothing are one mark each. -/
theorem utf8Loop_stray {bs : List UInt8} (h : ∀ x ∈ bs, Continues x) (rest : List UInt8) :
    utf8Loop .start (replaceSeparator bs ++ rest) =
      (bs.map fun b => if b = 0xA6 then 0xA6 else replacement) ++ utf8Loop .start rest := by
  induction bs with
  | nil => rfl
  | cons b bs ih =>
      have ih := ih fun x hx => h x (by simp [hx])
      obtain ⟨hlow, hhigh⟩ := h b (by simp)
      by_cases hb : b = 0xA6
      · subst hb
        show [] ++ ([0xA6] ++ utf8Loop .start (replaceSeparator bs ++ rest)) = _
        rw [ih]
        rfl
      · have hbyte : utf8Byte .start b.toNat = ([replacement], .start) := by
          show utf8First _ = _
          rw [utf8First, if_neg (by omega), if_neg (by omega), if_neg (by omega),
            if_neg (by omega), if_neg (by omega), if_neg (by omega), if_neg (by omega),
            if_neg (by omega)]
        rw [replaceSeparator_cons_of_ne hb, List.cons_append, utf8Loop_append_of_eq hbyte, ih,
          List.map_cons, if_neg hb]
        rfl

/-- **Garbling.** A character with the separator byte among its later bytes gives two or more
marks, and the next character is read as if nothing had happened. -/
theorem utf8Loop_garbled {bs : List UInt8} {value low high : ℕ} (hmem : 0xA6 ∈ bs)
    (hcont : ∀ x ∈ bs, Continues x) (hrange : ∀ x ∈ bs.head?, low ≤ x.toNat ∧ x.toNat ≤ high)
    (hhigh : high ≤ 0xBF) :
    ∃ out : Text, 2 ≤ out.length ∧ (∀ x ∈ out, Mark x) ∧ ∀ rest,
      utf8Loop (.more value bs.length low high) (replaceSeparator bs ++ rest) =
        out ++ utf8Loop .start rest := by
  induction bs generalizing value low high with
  | nil => cases hmem
  | cons b bs ih =>
      have hcont' : ∀ x ∈ bs, Continues x := fun x hx => hcont x (by simp [hx])
      by_cases hb : b = 0xA6
      · -- The first byte of the replacement ends the character; the rest continues nothing.
        subst hb
        refine ⟨replacement :: 0xA6 :: bs.map fun b => if b = 0xA6 then 0xA6 else replacement,
          by simp, ?_, fun rest => ?_⟩
        · intro x hx
          rcases List.mem_cons.mp hx with rfl | hx
          · exact .inl rfl
          rcases List.mem_cons.mp hx with rfl | hx
          · exact .inr rfl
          obtain ⟨b, -, rfl⟩ := List.mem_map.mp hx
          unfold Mark
          split <;> simp
        · have hbyte : utf8Byte (.more value (bs.length + 1) low high) (0xC2 : UInt8).toNat =
              ([replacement], .more 2 1 0x80 0xBF) := by
            have htwo : (0xC2 : UInt8).toNat = 0xC2 := rfl
            rw [utf8Byte, if_neg (by omega)]
            rfl
          show utf8Loop (.more value (bs.length + 1) low high)
            (0xC2 :: 0xA6 :: (replaceSeparator bs ++ rest)) = _
          rw [utf8Loop_append_of_eq hbyte]
          show [replacement] ++ ([0xA6] ++ utf8Loop .start (replaceSeparator bs ++ rest)) = _
          rw [utf8Loop_stray hcont']
          rfl
      · obtain ⟨hlow, hhigh'⟩ := hrange b (by simp)
        have hmem' : 0xA6 ∈ bs := (List.mem_cons.mp hmem).resolve_left (Ne.symm hb)
        have hlen : bs.length ≠ 0 := by
          intro hzero
          rw [List.length_eq_zero_iff.mp hzero] at hmem'
          cases hmem'
        have hbyte : utf8Byte (.more value (bs.length + 1) low high) b.toNat =
            ([], .more (64 * value + (b.toNat - 0x80)) bs.length 0x80 0xBF) := by
          rw [utf8Byte, if_pos ⟨hlow, hhigh'⟩]
          dsimp only
          rw [if_neg (by omega), Nat.add_sub_cancel]
        obtain ⟨out, htwo, hmark, hout⟩ := ih hmem' hcont'
          (fun x hx => hcont' x (List.mem_of_mem_head? hx)) le_rfl
        refine ⟨out, htwo, hmark, fun rest => ?_⟩
        rw [replaceSeparator_cons_of_ne hb, List.cons_append, List.length_cons,
          utf8Loop_append_of_eq hbyte, List.nil_append, hout]

/-- A character is reread as itself, or garbled when its encoding has the separator byte; the
characters behind it do not notice. -/
theorem utf8Loop_replaced (c : Char) :
    ∃ out : Text, (0xA6 ∉ String.utf8EncodeChar c ∧ out = [c.toNat] ∨
        0xA6 ∈ String.utf8EncodeChar c ∧ 2 ≤ out.length ∧ ∀ x ∈ out, Mark x) ∧
      ∀ rest, utf8Loop .start (replaceSeparator (String.utf8EncodeChar c) ++ rest) =
        out ++ utf8Loop .start rest := by
  have hsep : (0xA6 : UInt8).toNat = 0xA6 := rfl
  by_cases hmem : 0xA6 ∈ String.utf8EncodeChar c
  · rcases utf8EncodeChar_cases c with ⟨hc, henc⟩ | ⟨b, bs, value, low, high, henc, h⟩
    · rw [henc, List.mem_singleton, ← UInt8.toNat_inj, toNat_ofNat (by omega)] at hmem
      omega
    · have hb : b ≠ 0xA6 := by
        rintro rfl
        have := h.lead
        omega
      rw [henc] at hmem
      obtain ⟨out, htwo, hmark, hout⟩ := @utf8Loop_garbled bs value low high
        ((List.mem_cons.mp hmem).resolve_left (Ne.symm hb)) h.continues h.range h.high
      refine ⟨out, .inr ⟨henc ▸ hmem, htwo, hmark⟩, fun rest => ?_⟩
      rw [henc, replaceSeparator_cons_of_ne hb, List.cons_append,
        utf8Loop_append_of_eq (s := .start) h.first, List.nil_append, hout]
  · refine ⟨[c.toNat], .inl ⟨hmem, rfl⟩, fun rest => ?_⟩
    rw [replaceSeparator_of_not_mem hmem, utf8Loop_char]
    rfl

/-- The character as it is decoded once the separator is replaced. -/
def reread (c : Char) : Text := decodeUtf8 (replaceSeparator (String.utf8EncodeChar c))

/-- A character without the separator byte is read back; one with it becomes two marks or more. -/
theorem reread_spec (c : Char) :
    (0xA6 ∉ String.utf8EncodeChar c ∧ reread c = [c.toNat] ∨
      0xA6 ∈ String.utf8EncodeChar c ∧ 2 ≤ (reread c).length ∧ ∀ x ∈ reread c, Mark x) ∧
    ∀ rest, utf8Loop .start (replaceSeparator (String.utf8EncodeChar c) ++ rest) =
      reread c ++ utf8Loop .start rest := by
  obtain ⟨out, hcases, hout⟩ := utf8Loop_replaced c
  have hreread : reread c = out := by
    simpa [reread, decodeUtf8, utf8Loop] using hout []
  rw [hreread]
  exact ⟨hcases, hout⟩

/-- Decoding with the separator replaced, character by character. -/
def rereading : Lib.Rewriting Char ℕ where
  plain := Char.toNat
  image := reread
  mark := Mark
  image_cases c := (reread_spec c).1.imp And.right And.right

/-- The characters that are decoded as themselves. -/
theorem rereading_kept_iff (c : Char) : rereading.Kept c ↔ 0xA6 ∉ String.utf8EncodeChar c := by
  show reread c = [c.toNat] ↔ _
  rcases (reread_spec c).1 with ⟨hmem, h⟩ | ⟨hmem, hlen, -⟩
  · exact iff_of_true h hmem
  · refine iff_of_false ?_ (not_not.mpr hmem)
    intro h
    rw [h] at hlen
    simp at hlen

/-- **The decoder with the separator replaced** rereads every character for itself. -/
theorem decodeUtf8_replaceSeparator (t : List Char) :
    decodeUtf8 (replaceSeparator (encodeUtf8 t)) = t.flatMap rereading.image := by
  unfold decodeUtf8 encodeUtf8
  induction t with
  | nil => rfl
  | cons c t ih =>
      rw [List.flatMap_cons, replaceSeparator_append, (reread_spec c).2, ih, List.flatMap_cons]
      rfl

end Spcedp.Events
