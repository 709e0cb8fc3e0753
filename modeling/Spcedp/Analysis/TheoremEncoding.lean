import Spcedp.Interface.Events
import Spcedp.Interface.Utf8

/-!
# Events as bytes and as text

`SiaEvent.parseBytes_agrees_iff`: parsing the UTF-8 bytes of an event gives what parsing the
text gives exactly when no byte of it is the separator. In any other event a character is
garbled, in the description or elsewhere.
-/

set_option autoImplicit false

namespace Spcedp.Events

open Spcedp.PyText Lib

/-! ## What is not garbled -/

/-- ASCII characters are kept. -/
theorem kept_of_ascii {c : Char} (h : c.toNat < 0x80) : rereading.Kept c := by
  have henc : String.utf8EncodeChar c = [UInt8.ofNat c.toNat] := by
    have hdef : c.val.toNat = c.toNat := rfl
    unfold String.utf8EncodeChar
    rw [hdef]
    exact if_pos (by omega)
  rw [rereading_kept_iff, henc, List.mem_singleton, ← UInt8.toNat_inj, toNat_ofNat (by omega)]
  have hsep : (0xA6 : UInt8).toNat = 0xA6 := rfl
  omega

/-- The characters of white space. -/
def spaces : List ℕ :=
  (List.range 5).map (0x09 + ·) ++ (List.range 5).map (0x1C + ·) ++
    (List.range 11).map (0x2000 + ·) ++
    [0x85, 0xA0, 0x1680, 0x2028, 0x2029, 0x202F, 0x205F, 0x3000]

/-- A space is one of the listed spaces. -/
theorem mem_spaces {c : ℕ} (h : isSpace c) : c ∈ spaces := by
  unfold isSpace at h
  unfold spaces
  simp only [Bool.or_eq_true, Bool.and_eq_true, decide_eq_true_eq] at h
  rw [List.mem_append, List.mem_append, List.mem_append]
  rcases h with ((h | h) | h) | h
  · exact .inl (.inl (.inl (List.mem_map.mpr ⟨c - 0x09, List.mem_range.mpr (by omega), by omega⟩)))
  · exact .inl (.inl (.inr (List.mem_map.mpr ⟨c - 0x1C, List.mem_range.mpr (by omega), by omega⟩)))
  · exact .inl (.inr (List.mem_map.mpr ⟨c - 0x2000, List.mem_range.mpr (by omega), by omega⟩))
  · exact .inr h

/-- White space is not garbled, and no mark is white space. -/
theorem kept_of_isSpace {c : Char} (h : isSpace c.toNat) : rereading.Kept c := by
  have hall : ∀ n ∈ spaces, 0xA6 ∉ String.utf8EncodeChar (Char.ofNat n) := by decide +kernel
  rw [rereading_kept_iff]
  have := hall c.toNat (mem_spaces h)
  rwa [Char.ofNat_toNat] at this

/-- A mark is no space. -/
theorem not_isSpace_of_mark {y : ℕ} (h : Mark y) : isSpace y = false := by
  rcases h with rfl | rfl <;> decide

/-- A decimal is no mark. -/
theorem not_mark_of_isDecimal {y : ℕ} (h : isDecimal y) : ¬ Mark y := by
  rintro (rfl | rfl) <;> revert h <;> decide +kernel

/-- The text without white space at its ends. -/
def trim (t : List Char) : List Char :=
  ((t.dropWhile fun c => isSpace c.toNat).reverse.dropWhile fun c => isSpace c.toNat).reverse

/-- `strip` on code points is a trim of the characters. -/
theorem strip_codes (t : List Char) : strip (codes t) = codes (trim t) := by
  unfold strip codes trim
  rw [List.dropWhile_map, ← List.map_reverse, List.dropWhile_map, List.map_reverse]
  rfl

/-- Stripping commutes with the garbling. -/
theorem strip_reread (t : List Char) :
    strip (t.flatMap rereading.image) = (trim t).flatMap rereading.image := by
  unfold strip trim
  rw [Rewriting.dropWhile_flatMap (fun _ => not_isSpace_of_mark) (fun _ => kept_of_isSpace),
    Rewriting.reverse_flatMap,
    Rewriting.dropWhile_flatMap (f := rereading.mirror) (fun _ => not_isSpace_of_mark)
      fun _ h => Rewriting.mirror_kept_iff.mpr (kept_of_isSpace h),
    ← List.reverse_inj, List.reverse_reverse, Rewriting.reverse_flatMap, List.reverse_reverse]
  rfl

/-- What is stripped is not garbled. -/
theorem kept_of_trim {t : List Char} (h : ∀ c ∈ trim t, rereading.Kept c) :
    ∀ c ∈ t, rereading.Kept c := by
  have hdrop : ∀ l : List Char, (∀ c ∈ l.dropWhile fun c => isSpace c.toNat, rereading.Kept c) →
      ∀ c ∈ l, rereading.Kept c := by
    intro l hl c hc
    rw [← List.takeWhile_append_dropWhile (p := fun c : Char => isSpace c.toNat) (l := l),
      List.mem_append] at hc
    rcases hc with hc | hc
    · exact kept_of_isSpace (List.mem_takeWhile_imp (p := fun c : Char => isSpace c.toNat) hc)
    · exact hl c hc
  apply hdrop
  intro c hc
  refine hdrop _ (fun c hc => h c ?_) c (List.mem_reverse.mpr hc)
  rwa [trim, List.mem_reverse]

/-! ## Two parsers -/

/-- Where the garbled text is an event, the text is an event with the same id and timestamp, and
only what stands behind them can be garbled. -/
theorem grammar_of_reread {t : List Char} {d s r : Text}
    (h : Grammar (t.flatMap rereading.image) d s r) :
    ∃ q, Grammar (codes t) d s (codes q) ∧ q.flatMap rereading.image = r ∧
      ((∀ c ∈ q, rereading.Kept c) → ∀ c ∈ t, rereading.Kept c) := by
  obtain ⟨hshape, hd, hs, hpipes⟩ := h
  have hplain : ∀ y ∈ text "E2[#" ++ d ++ pipe :: s ++ [pipe], ¬ rereading.mark y := by
    intro y hy
    simp only [List.mem_append, List.mem_cons, List.not_mem_nil, or_false] at hy
    rcases hy with ((hy | hy) | rfl | hy) | rfl
    · have hhead : ∀ y ∈ text "E2[#", y ≠ replacement ∧ y ≠ 0xA6 := by decide
      rintro (hmark | hmark)
      · exact (hhead y hy).1 hmark
      · exact (hhead y hy).2 hmark
    · exact not_mark_of_isDecimal (hd.decimal y hy)
    · rintro (hmark | hmark) <;> cases hmark
    · exact not_mark_of_isDecimal (hs.decimal y hy)
    · rintro (hmark | hmark) <;> cases hmark
  obtain ⟨t₁, t₂, rfl, hfront, hkept₁, hback⟩ := Rewriting.split_left
    (f := rereading) (b := r ++ [0x5D]) (by simpa [envelope] using hshape) hplain
  obtain ⟨q, t₃, rfl, rfl, hkept₃, hend⟩ := Rewriting.split_right hback (by
    intro y hy
    rw [List.mem_singleton.mp hy]
    rintro (hmark | hmark) <;> cases hmark)
  have hcount : (q.flatMap rereading.image).count pipe = (codes q).count pipe := by
    refine Rewriting.count_flatMap (by rintro (hmark | hmark) <;> cases hmark) ?_ q
    intro c hc
    apply kept_of_ascii
    rw [show c.toNat = pipe from hc]
    decide
  refine ⟨q, ⟨?_, hd, hs, hcount ▸ hpipes⟩, rfl, ?_⟩
  · have hfront' : codes t₁ = _ := hfront
    have hend' : codes t₃ = _ := hend
    unfold codes at hfront' hend' ⊢
    rw [List.map_append, List.map_append, hfront', hend']
    simp [envelope]
  · intro hq c hc
    rcases List.mem_append.mp hc with hc | hc
    · exact hkept₁ c hc
    rcases List.mem_append.mp hc with hc | hc
    · exact hq c hc
    · exact hkept₃ c hc

/-- The bytes of `t` and `t` itself have one outcome: both are refused, or both are read as the
same event. -/
def Agree (t : List Char) : Prop :=
  (∃ err err', SiaEvent.parseBytes (encodeUtf8 t) = .error err ∧
    SiaEvent.parse (codes t) = .error err') ∨
  ∃ e, SiaEvent.parseBytes (encodeUtf8 t) = .ok e ∧ SiaEvent.parse (codes t) = .ok e

/-- Text and bytes with one outcome agree. -/
theorem agree_of_eq {t : List Char}
    (h : SiaEvent.parseBytes (encodeUtf8 t) = SiaEvent.parse (codes t)) : Agree t := by
  unfold Agree
  rw [h]
  cases SiaEvent.parse (codes t) with
  | error err => exact .inl ⟨err, err, rfl, rfl⟩
  | ok e => exact .inr ⟨e, rfl, rfl⟩

/-- What the bytes are read as, the text is in the grammar too. -/
theorem parseBytes_eq_ok {t : List Char} {e : SiaEvent}
    (h : SiaEvent.parseBytes (encodeUtf8 t) = .ok e) :
    ∃ d s r q, Reads d s r e ∧ Grammar (strip (codes t)) d s (codes q) ∧
      q.flatMap rereading.image = r ∧
      ((∀ c ∈ q, rereading.Kept c) → ∀ c ∈ t, rereading.Kept c) := by
  obtain ⟨x, hx, rfl⟩ := parse_eq_ok_iff.mp h
  rw [decodeUtf8_replaceSeparator, strip_reread] at hx
  obtain ⟨q, hgrammar, hq, hkept⟩ := grammar_of_reread (grammar_iff.mpr ⟨x, hx, rfl, rfl, rfl⟩)
  rw [← strip_codes] at hgrammar
  exact ⟨_, _, _, q, x.reads, hgrammar, hq, fun h => kept_of_trim (hkept h)⟩

/-- **Bytes and text.** The two forms of a text have one outcome exactly when the text is no
event at all, or the separator byte is nowhere in its bytes. -/
theorem SiaEvent.parseBytes_agrees_iff (t : List Char) :
    Agree t ↔ (∀ d s r, ¬ Grammar (strip (codes t)) d s r) ∨ 0xA6 ∉ encodeUtf8 t := by
  constructor
  · rintro (⟨err, err', -, htext⟩ | ⟨e, hbytes, htext⟩)
    · refine .inl fun d s r hgrammar => ?_
      obtain ⟨x, hx, -⟩ := grammar_iff.mp hgrammar
      rw [parse_eq_ok_iff.mpr ⟨x, hx, rfl⟩] at htext
      cases htext
    · refine .inr fun hsep => ?_
      obtain ⟨d, s, r, q, hreads, hgrammar, hq, hkept⟩ := parseBytes_eq_ok hbytes
      obtain ⟨x, hx, rfl, rfl, hrest⟩ := grammar_iff.mp hgrammar
      rw [parse_eq_ok_iff.mpr ⟨x, hx, rfl⟩, Except.ok.injEq] at htext
      -- Both readings have the same fields, so nothing behind the timestamp is garbled.
      have hsame : q.flatMap rereading.image = q.map rereading.plain := by
        rw [hq, hreads.fields, ← htext]
        exact hrest
      obtain ⟨c, hc, hmem⟩ := List.mem_flatMap.mp hsep
      exact (rereading_kept_iff c).mp (hkept (Rewriting.flatMap_eq_map_iff.mp hsame) c hc) hmem
  · rintro (hnone | hclean)
    · left
      cases hbytes : SiaEvent.parseBytes (encodeUtf8 t) with
      | ok e =>
          obtain ⟨d, s, r, q, -, hgrammar, -⟩ := parseBytes_eq_ok hbytes
          exact absurd hgrammar (hnone d s _)
      | error err =>
          cases htext : SiaEvent.parse (codes t) with
          | ok e =>
              obtain ⟨x, hx, -⟩ := parse_eq_ok_iff.mp htext
              exact absurd (grammar_iff.mpr ⟨x, hx, rfl, rfl, rfl⟩) (hnone _ _ _)
          | error err' => exact ⟨err, err', rfl, rfl⟩
    · apply agree_of_eq
      rw [SiaEvent.parseBytes, replaceSeparator_of_not_mem hclean, decodeUtf8_encodeUtf8]

/-- A Danish workshop: `æ` is `C3 A6` in UTF-8. -/
theorem SiaEvent.parseBytes_garbles :
    ¬ Agree "E2[#1000|08521203062026|BA|1|Værksted||0]".toList := by
  have hbytes : (SiaEvent.parseBytes (encodeUtf8
      "E2[#1000|08521203062026|BA|1|Værksted||0]".toList)).toOption.map SiaEvent.description =
      some (text "V\uFFFD¦rksted") := by decide +kernel
  have htext : (SiaEvent.parse (codes
      "E2[#1000|08521203062026|BA|1|Værksted||0]".toList)).toOption.map SiaEvent.description =
      some (text "Værksted") := by decide +kernel
  rintro (⟨err, err', h, -⟩ | ⟨e, h, h'⟩)
  · rw [h] at hbytes
    cases hbytes
  · rw [h] at hbytes
    rw [h'] at htext
    have hdiffer : text "V\uFFFD¦rksted" ≠ text "Værksted" := by decide +kernel
    exact hdiffer (Option.some_inj.mp (hbytes.symm.trans htext))

end Spcedp.Events
