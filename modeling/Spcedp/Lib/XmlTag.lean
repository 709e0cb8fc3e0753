import Mathlib.Data.List.Nodup
import Mathlib.Data.Nat.Notation

/-!
# Reading an empty element of XML

A reader for a document that is one empty-element tag and nothing else, over code points and
without a document type declaration: the characters, names, references and attribute values of
XML 1.0, with its normalisation of line ends and of attribute values. `read` is a fold of
`step`, one code point at a time.

`Denotes q s v` says that between quotes `q` the text `s` stands for the value `v`; its rules
build it up from single characters. `read_write` is the round trip: a tag whose attribute
values are spelled in any such way reads back as it was written.
-/

set_option autoImplicit false

namespace Lib.XmlTag

/-! ## Characters and names -/

/-- The code points of a literal. -/
def codes (s : String) : List ℕ := s.toList.map Char.toNat

/-- `Char`. -/
def isChar (c : ℕ) : Bool :=
  c ∈ [0x09, 0x0A, 0x0D] || (0x20 ≤ c && c ≤ 0xD7FF) || (0xE000 ≤ c && c ≤ 0xFFFD) ||
    (0x10000 ≤ c && c ≤ 0x10FFFF)

/-- `S`. -/
def isWhite (c : ℕ) : Bool := c ∈ [0x09, 0x0A, 0x0D, 0x20]

/-- First and last of the runs of `NameStartChar`. -/
def nameStartRuns : List (ℕ × ℕ) :=
  [(0x3A, 0x3A), (0x41, 0x5A), (0x5F, 0x5F), (0x61, 0x7A), (0xC0, 0xD6), (0xD8, 0xF6),
    (0xF8, 0x2FF), (0x370, 0x37D), (0x37F, 0x1FFF), (0x200C, 0x200D), (0x2070, 0x218F),
    (0x2C00, 0x2FEF), (0x3001, 0xD7FF), (0xF900, 0xFDCF), (0xFDF0, 0xFFFD), (0x10000, 0xEFFFF)]

/-- First and last of the runs that `NameChar` adds to them. -/
def nameOnlyRuns : List (ℕ × ℕ) :=
  [(0x2D, 0x2E), (0x30, 0x39), (0xB7, 0xB7), (0x300, 0x36F), (0x203F, 0x2040)]

def isNameStart (c : ℕ) : Bool := nameStartRuns.any fun run => run.1 ≤ c && c ≤ run.2

def isNameChar (c : ℕ) : Bool :=
  isNameStart c || nameOnlyRuns.any fun run => run.1 ≤ c && c ≤ run.2

/-- `Name`. -/
def IsName : List ℕ → Prop
  | [] => False
  | c :: n => isNameStart c ∧ ∀ d ∈ n, isNameChar d

/-! ## References -/

/-- The value of a digit in base sixteen, of either case. -/
def digitValue (c : ℕ) : Option ℕ :=
  if 0x30 ≤ c ∧ c ≤ 0x39 then some (c - 0x30)
  else if 0x41 ≤ c ∧ c ≤ 0x46 then some (c - 0x37)
  else if 0x61 ≤ c ∧ c ≤ 0x66 then some (c - 0x57)
  else none

/-- The character with the number that `ds` spells in base `b`. -/
def numbered (b : ℕ) (ds : List ℕ) : Option ℕ := do
  let values ← ds.mapM digitValue
  let c := values.foldl (fun n d => b * n + d) 0
  if ds ≠ [] ∧ (∀ d ∈ values, d < b) ∧ isChar c then some c else none

/-- The predefined entities. -/
def entities : List (List ℕ × ℕ) :=
  [(codes "lt", 0x3C), (codes "gt", 0x3E), (codes "amp", 0x26), (codes "apos", 0x27),
    (codes "quot", 0x22)]

/-- The character for which `&r;` stands. -/
def reference (r : List ℕ) : Option ℕ :=
  match r with
  | 0x23 :: 0x78 :: ds => numbered 16 ds
  | 0x23 :: ds => numbered 10 ds
  | _ => (entities.find? fun entity => entity.1 = r).map Prod.snd

/-! ## The reader -/

structure Element where
  tag : List ℕ
  attrs : List (List ℕ × List ℕ)
  deriving DecidableEq, Repr

/-- One more attribute. -/
def Element.add (e : Element) (name value : List ℕ) : Element :=
  { e with attrs := e.attrs ++ [(name, value)] }

/-- Where the reader is, with what it has read of the element: `e` holds the attributes that
are complete, `n` the name and `v` the value of the next one, `q` its quote, and `r` the name
in a reference. -/
inductive State
  | start
  | opened
  | tagName (n : List ℕ)
  | gap (e : Element)
  | attrName (e : Element) (n : List ℕ)
  | beforeEq (e : Element) (n : List ℕ)
  | afterEq (e : Element) (n : List ℕ)
  | value (e : Element) (n : List ℕ) (q : ℕ) (v : List ℕ)
  | ref (e : Element) (n : List ℕ) (q : ℕ) (v r : List ℕ)
  | afterValue (e : Element)
  | slash (e : Element)
  | done (e : Element)

/-- What follows a name or a value: white space, or the end of the tag. -/
def leave (e : Element) (c : ℕ) : Option State :=
  if isWhite c then some (.gap e) else if c = 0x2F then some (.slash e) else none

/-- One code point; `none` where the text is not well-formed. -/
def step (s : State) (c : ℕ) : Option State :=
  match s with
  | .start => if c = 0x3C then some .opened else none
  | .opened => if isNameStart c then some (.tagName [c]) else none
  | .tagName n => if isNameChar c then some (.tagName (n ++ [c])) else leave ⟨n, []⟩ c
  | .gap e => if isNameStart c then some (.attrName e [c]) else leave e c
  | .attrName e n =>
      if isNameChar c then some (.attrName e (n ++ [c]))
      else if isWhite c then some (.beforeEq e n)
      else if c = 0x3D then some (.afterEq e n)
      else none
  | .beforeEq e n =>
      if isWhite c then some (.beforeEq e n)
      else if c = 0x3D then some (.afterEq e n)
      else none
  | .afterEq e n =>
      if isWhite c then some (.afterEq e n)
      -- no attribute may be given twice
      else if (c = 0x22 ∨ c = 0x27) ∧ n ∉ e.attrs.map Prod.fst then some (.value e n c [])
      else none
  | .value e n q v =>
      if c = q then some (.afterValue (e.add n v))
      else if c = 0x3C then none
      else if c = 0x26 then some (.ref e n q v [])
      else some (.value e n q (v ++ [if isWhite c then 0x20 else c]))
  | .ref e n q v r =>
      if c = 0x3B then (reference r).map fun x => .value e n q (v ++ [x])
      else some (.ref e n q v (r ++ [c]))
  | .afterValue e => leave e c
  | .slash e => if c = 0x3E then some (.done e) else none
  | .done _ => none

def run (s : State) (text : List ℕ) : Option State := text.foldlM step s

/-- The normalisation of line ends. -/
def lineEnds : List ℕ → List ℕ
  | 0x0D :: 0x0A :: text => 0x0A :: lineEnds text
  | c :: text => (if c = 0x0D then 0x0A else c) :: lineEnds text
  | [] => []

/-- The element that a text consists of. -/
def read (text : List ℕ) : Option Element :=
  if text.all isChar then
    match run .start (lineEnds text) with
    | some (.done e) => some e
    | _ => none
  else none

/-- An empty element, its attribute values spelled by `spell`. -/
def write (spell : List ℕ → List ℕ) (e : Element) : List ℕ :=
  [0x3C] ++ e.tag ++
    (e.attrs.flatMap fun attr => [0x20] ++ attr.1 ++ [0x3D] ++ spell attr.2) ++ [0x20, 0x2F, 0x3E]

/-! ## Runs -/

/-- No symbols lead nowhere. -/
@[simp] theorem run_nil (s : State) : run s [] = some s := rfl

/-- The first symbol is read first. -/
@[simp] theorem run_cons (s : State) (c : ℕ) (t : List ℕ) :
    run s (c :: t) = (step s c).bind fun s' => run s' t := rfl

/-- A text is read in two parts. -/
theorem run_append {s s' : State} {t u : List ℕ} (h : run s t = some s') :
    run s (t ++ u) = run s' u := by
  unfold run at h ⊢
  rw [List.foldlM_append, h]
  rfl

/-- The name of a tag is read to its end. -/
theorem run_tagName {n m : List ℕ} (h : ∀ c ∈ m, isNameChar c) :
    run (.tagName n) m = some (.tagName (n ++ m)) := by
  induction m generalizing n with
  | nil => simp
  | cons c m ih =>
      have hstep : step (.tagName n) c = some (.tagName (n ++ [c])) := if_pos (h c (by simp))
      rw [run_cons, hstep, Option.bind_some, ih fun d hd => h d (by simp [hd])]
      simp

/-- The name of an attribute is read to its end. -/
theorem run_attrName {e : Element} {n m : List ℕ} (h : ∀ c ∈ m, isNameChar c) :
    run (.attrName e n) m = some (.attrName e (n ++ m)) := by
  induction m generalizing n with
  | nil => simp
  | cons c m ih =>
      have hstep : step (.attrName e n) c = some (.attrName e (n ++ [c])) :=
        if_pos (h c (by simp))
      rw [run_cons, hstep, Option.bind_some, ih fun d hd => h d (by simp [hd])]
      simp

/-- The reader takes every character of a reference up to the semicolon. -/
theorem run_ref {e : Element} {n v r m : List ℕ} {q : ℕ} (h : 0x3B ∉ m) :
    run (.ref e n q v r) m = some (.ref e n q v (r ++ m)) := by
  induction m generalizing r with
  | nil => simp
  | cons c m ih =>
      rw [List.mem_cons, not_or] at h
      have hstep : step (.ref e n q v r) c = some (.ref e n q v (r ++ [c])) :=
        if_neg (Ne.symm h.1)
      rw [run_cons, hstep, Option.bind_some, ih h.2]
      simp

/-! ## Spellings of a value -/

/-- A character that may stand in a text and begins no line end to be normalised. -/
def isPlain (c : ℕ) : Bool := isChar c && c ≠ 0x0D

/-- A character that stands for itself between quotes `q`. -/
def isVerbatim (q c : ℕ) : Bool :=
  isPlain c && c ∉ [q, 0x3C, 0x26] && (c = 0x20 || !isWhite c)

/-- `&r;`. -/
def refer (r : List ℕ) : List ℕ := [0x26] ++ r ++ [0x3B]

/-- Between quotes `q`, the text `s` stands for the value `v`. -/
structure Denotes (q : ℕ) (s v : List ℕ) : Prop where
  plain : ∀ c ∈ s, isPlain c
  run : ∀ e n w, run (.value e n q w) s = some (.value e n q (w ++ v))

namespace Denotes

variable {q c : ℕ} {s t v w r : List ℕ}

/-- Nothing denotes nothing. -/
theorem nil : Denotes q [] [] where
  plain := by simp
  run := by simp

/-- What two texts denote, they denote in a row. -/
theorem append (hs : Denotes q s v) (ht : Denotes q t w) : Denotes q (s ++ t) (v ++ w) where
  plain d hd := (List.mem_append.mp hd).elim (hs.plain d) (ht.plain d)
  run e n x := by rw [run_append (hs.run e n x), ht.run, List.append_assoc]

/-- A symbol that needs no escape denotes itself. -/
theorem verbatim (h : isVerbatim q c) : Denotes q [c] [c] := by
  unfold isVerbatim at h
  rw [Bool.and_eq_true, Bool.and_eq_true, decide_eq_true_eq] at h
  obtain ⟨⟨hplain, hmarkup⟩, hwhite⟩ := h
  simp only [List.mem_cons, List.not_mem_nil, or_false, not_or] at hmarkup
  obtain ⟨hquote, hless, hamp⟩ := hmarkup
  constructor
  · simpa using hplain
  · intro e n x
    have hsame : (if isWhite c = true then 0x20 else c) = c := by
      split_ifs with h
      · simpa [h, eq_comm] using hwhite
      · rfl
    have hstep : step (.value e n q x) c = some (.value e n q (x ++ [c])) := by
      unfold step
      dsimp only
      rw [if_neg hquote, if_neg hless, if_neg hamp, hsame]
    rw [run_cons, hstep]
    rfl

/-- A reference stands for its character, whatever the quotes are. -/
theorem ref (hr : reference r = some c) (hplain : ∀ d ∈ r, isPlain d ∧ d ≠ 0x3B)
    (hquote : q ≠ 0x26) : Denotes q (refer r) [c] where
  plain := by
    intro d hd
    unfold refer at hd
    simp only [List.mem_append, List.mem_singleton] at hd
    obtain (rfl | hd) | rfl := hd
    · decide
    · exact (hplain d hd).1
    · decide
  run e n x := by
    have hopen : step (.value e n q x) 0x26 = some (.ref e n q x []) := by
      unfold step
      dsimp only
      rw [if_neg (Ne.symm hquote), if_neg (by decide), if_pos rfl]
    have hclose : step (.ref e n q x r) 0x3B = some (.value e n q (x ++ [c])) := by
      unfold step
      dsimp only
      rw [if_pos rfl, hr]
      rfl
    have hname : Lib.XmlTag.run (.ref e n q x []) r = some (.ref e n q x r) :=
      run_ref fun h => (hplain _ h).2 rfl
    unfold refer
    rw [List.append_assoc, List.singleton_append, run_cons, hopen, Option.bind_some,
      run_append hname, run_cons, hclose]
    rfl

/-- A value may be spelled character by character. -/
theorem flatMap {f : ℕ → List ℕ} (h : ∀ c ∈ v, Denotes q (f c) [c]) :
    Denotes q (v.flatMap f) v := by
  induction v with
  | nil => exact nil
  | cons c v ih =>
      rw [List.flatMap_cons]
      exact append (h c (by simp)) (ih fun d hd => h d (by simp [hd]))

end Denotes

/-! ## Escaping -/

section

variable {table : List (ℕ × List ℕ)} {q : ℕ} {v : List ℕ}

/-- What is written for a character, where a table gives some of them a reference. -/
def escape (table : List (ℕ × List ℕ)) (c : ℕ) : List ℕ :=
  match table.find? fun entry => entry.1 = c with
  | some entry => refer entry.2
  | none => [c]

/-- The references of a table mean the characters that they stand for. -/
def IsTable (table : List (ℕ × List ℕ)) : Prop :=
  ∀ entry ∈ table, reference entry.2 = some entry.1 ∧ ∀ d ∈ entry.2, isPlain d ∧ d ≠ 0x3B

instance (table : List (ℕ × List ℕ)) : Decidable (IsTable table) :=
  inferInstanceAs (Decidable (∀ entry ∈ table,
    reference entry.2 = some entry.1 ∧ ∀ d ∈ entry.2, isPlain d ∧ d ≠ 0x3B))

/-- A symbol that is not in the table stays as it is. -/
theorem escape_of_notMem {c : ℕ} (h : c ∉ table.map Prod.fst) : escape table c = [c] := by
  have hnone : (table.find? fun entry => entry.1 = c) = none := by
    rw [List.find?_eq_none]
    intro entry hentry hc
    exact h (List.mem_map.mpr ⟨entry, hentry, of_decide_eq_true hc⟩)
  unfold escape
  rw [hnone]

/-- A text without symbols of the table stays as it is. -/
theorem flatMap_escape_of_notMem (h : ∀ c ∈ v, c ∉ table.map Prod.fst) :
    v.flatMap (escape table) = v := by
  induction v with
  | nil => rfl
  | cons c v ih =>
      rw [List.flatMap_cons, escape_of_notMem (h c (by simp)), ih fun d hd => h d (by simp [hd])]
      rfl

/-- What is escaped by a table stands for the value, if nothing is left out of the table that
needs a reference. -/
theorem denotes_escape (htable : IsTable table) (hq : q ≠ 0x26)
    (h : ∀ c ∈ v, c ∈ table.map Prod.fst ∨ isVerbatim q c) :
    Denotes q (v.flatMap (escape table)) v := by
  apply Denotes.flatMap
  intro c hc
  by_cases hmem : c ∈ table.map Prod.fst
  · unfold escape
    cases hfind : table.find? fun entry => entry.1 = c with
    | none =>
        obtain ⟨entry, hentry, rfl⟩ := List.mem_map.mp hmem
        have := List.find?_eq_none.mp hfind entry hentry
        simp at this
    | some entry =>
        obtain ⟨hr, hplain⟩ := htable entry (List.mem_of_find?_eq_some hfind)
        have hentry : entry.1 = c := by simpa using List.find?_some hfind
        rw [hentry] at hr
        exact Denotes.ref hr hplain hq
  · rw [escape_of_notMem hmem]
    exact Denotes.verbatim ((h c hc).resolve_left hmem)

/-- **The order of replacements.** Replacing one character after the other escapes the value
once, if no reference holds a character that is replaced later. -/
theorem foldl_replace (h : table.Pairwise fun a b => b.1 ∉ refer a.2) :
    table.foldl (fun data entry => data.flatMap fun x => if x = entry.1 then refer entry.2 else [x])
      v = v.flatMap (escape table) := by
  induction table generalizing v with
  | nil =>
      rw [flatMap_escape_of_notMem (by simp)]
      rfl
  | cons entry table ih =>
      obtain ⟨hlater, htable⟩ := List.pairwise_cons.mp h
      rw [List.foldl_cons, ih htable, List.flatMap_assoc]
      congr 1
      funext x
      by_cases hx : x = entry.1
      · have hmatch : escape (entry :: table) x = refer entry.2 := by
          unfold escape
          rw [List.find?_cons_of_pos (by simpa using hx.symm)]
        rw [if_pos hx, hmatch]
        apply flatMap_escape_of_notMem
        intro c hc hmem
        obtain ⟨b, hb, rfl⟩ := List.mem_map.mp hmem
        exact hlater b hb hc
      · have hskip : escape (entry :: table) x = escape table x := by
          unfold escape
          rw [List.find?_cons_of_neg (by simpa using Ne.symm hx)]
        rw [if_neg hx, hskip]
        simp

/-- What holds of the references and of the value holds of every character that is written. -/
theorem forall_mem_escape {P : ℕ → Prop} (htable : ∀ entry ∈ table, ∀ c ∈ refer entry.2, P c)
    (hv : ∀ c ∈ v, P c) : ∀ c ∈ v.flatMap (escape table), P c := by
  intro c hc
  obtain ⟨d, hd, hc⟩ := List.mem_flatMap.mp hc
  unfold escape at hc
  cases hfind : table.find? fun entry => entry.1 = d with
  | none =>
      rw [hfind, List.mem_singleton] at hc
      exact hc ▸ hv d hd
  | some entry =>
      rw [hfind] at hc
      exact htable entry (List.mem_of_find?_eq_some hfind) c hc

/-- Escaping neither brings in nor takes out a character that the table does not know. -/
theorem mem_flatMap_escape {c : ℕ} (h : ∀ entry ∈ table, c ≠ entry.1 ∧ c ∉ refer entry.2) :
    c ∈ v.flatMap (escape table) ↔ c ∈ v := by
  have hone : ∀ d, c ∈ escape table d ↔ c = d := by
    intro d
    unfold escape
    cases hfind : table.find? fun entry => entry.1 = d with
    | none => exact List.mem_singleton
    | some entry =>
        obtain ⟨hne, hnot⟩ := h entry (List.mem_of_find?_eq_some hfind)
        have hentry : entry.1 = d := by simpa using List.find?_some hfind
        rw [hentry] at hne
        exact iff_of_false hnot hne
  simp [List.mem_flatMap, hone]

end

/-- A value in quotes. -/
def Quoted (s v : List ℕ) : Prop :=
  ∃ q body, (q = 0x22 ∨ q = 0x27) ∧ s = [q] ++ body ++ [q] ∧ Denotes q body v

/-- In a quoted value every symbol is plain. -/
theorem Quoted.plain {s v : List ℕ} (h : Quoted s v) : ∀ c ∈ s, isPlain c := by
  obtain ⟨q, body, hq, rfl, hbody⟩ := h
  have hquote : isPlain q := by
    obtain rfl | rfl := hq <;> decide
  intro c hc
  simp only [List.mem_append, List.mem_singleton] at hc
  obtain (rfl | hc) | rfl := hc
  · exact hquote
  · exact hbody.plain c hc
  · exact hquote

/-! ## Round trip -/

/-- The reader takes one attribute after white space. -/
theorem run_attr {e : Element} {n s v : List ℕ} (hn : IsName n) (hnew : n ∉ e.attrs.map Prod.fst)
    (hs : Quoted s v) : run (.gap e) (n ++ [0x3D] ++ s) = some (.afterValue (e.add n v)) := by
  obtain ⟨q, body, hq, rfl, hbody⟩ := hs
  cases n with
  | nil => exact hn.elim
  | cons c n =>
      have hname : step (.gap e) c = some (.attrName e [c]) := if_pos hn.1
      have heq : step (.attrName e (c :: n)) 0x3D = some (.afterEq e (c :: n)) := rfl
      have hopen : step (.afterEq e (c :: n)) q = some (.value e (c :: n) q []) := by
        have hwhite : ¬isWhite q = true := by
          obtain rfl | rfl := hq <;> decide
        unfold step
        dsimp only
        rw [if_neg hwhite, if_pos ⟨hq, hnew⟩]
      have hclose : step (.value e (c :: n) q v) q = some (.afterValue (e.add (c :: n) v)) :=
        if_pos rfl
      rw [List.append_assoc, List.cons_append, run_cons, hname, Option.bind_some,
        run_append (run_attrName hn.2), List.singleton_append, List.singleton_append, run_cons,
        heq, Option.bind_some, List.append_assoc, List.singleton_append, run_cons, hopen,
        Option.bind_some, run_append (hbody.run e (c :: n) []), List.nil_append, run_cons, hclose]
      rfl

/-- The reader takes a list of attributes with new names, wherever white space may follow. -/
theorem run_attrs {spell : List ℕ → List ℕ} {s : State} {e : Element}
    {attrs : List (List ℕ × List ℕ)} (hs : step s 0x20 = some (.gap e))
    (hname : ∀ a ∈ attrs, IsName a.1) (hspell : ∀ a ∈ attrs, Quoted (spell a.2) a.2)
    (hnodup : ((e.attrs ++ attrs).map Prod.fst).Nodup) :
    ∃ s', run s (attrs.flatMap fun a => [0x20] ++ a.1 ++ [0x3D] ++ spell a.2) = some s' ∧
      step s' 0x20 = some (.gap { e with attrs := e.attrs ++ attrs }) := by
  induction attrs generalizing s e with
  | nil =>
      refine ⟨s, rfl, ?_⟩
      rw [List.append_nil]
      exact hs
  | cons a attrs ih =>
      have hnew : a.1 ∉ e.attrs.map Prod.fst := by
        rw [List.map_append, List.map_cons, List.nodup_append] at hnodup
        intro h
        exact hnodup.2.2 _ h _ (by simp) rfl
      have hattr : run s ([0x20] ++ a.1 ++ [0x3D] ++ spell a.2) =
          some (.afterValue (e.add a.1 a.2)) := by
        have hgap := run_attr (hname a (by simp)) hnew (hspell a (by simp))
        rw [List.append_assoc, List.append_assoc, List.singleton_append, run_cons, hs,
          Option.bind_some, ← List.append_assoc]
        exact hgap
      obtain ⟨s', hrun, hs'⟩ := ih (s := .afterValue (e.add a.1 a.2)) (e := e.add a.1 a.2) rfl
        (fun b hb => hname b (by simp [hb])) (fun b hb => hspell b (by simp [hb]))
        (by simpa [Element.add] using hnodup)
      refine ⟨s', ?_, ?_⟩
      · rw [List.flatMap_cons, run_append hattr, hrun]
      · simpa [Element.add] using hs'

/-- The symbols of names are plain. -/
theorem isPlain_of_isNameChar {c : ℕ} (h : isNameChar c) : isPlain c := by
  simp only [isNameChar, isNameStart, nameStartRuns, nameOnlyRuns, List.any_cons, List.any_nil,
    Bool.or_eq_true, Bool.and_eq_true, decide_eq_true_eq, Bool.false_eq_true, or_false] at h
  simp only [isPlain, isChar, List.mem_cons, List.not_mem_nil, Bool.or_eq_true, Bool.and_eq_true,
    decide_eq_true_eq, or_false]
  omega

/-- The symbols of a name are plain. -/
theorem IsName.plain {n : List ℕ} (h : IsName n) : ∀ c ∈ n, isPlain c := by
  cases n with
  | nil => simp
  | cons c n =>
      intro d hd
      obtain rfl | hd := List.mem_cons.mp hd
      · apply isPlain_of_isNameChar
        unfold isNameChar
        rw [h.1, Bool.true_or]
      · exact isPlain_of_isNameChar (h.2 d hd)

/-- A text without carriage returns keeps its line ends. -/
theorem lineEnds_eq_self {t : List ℕ} (h : 0x0D ∉ t) : lineEnds t = t := by
  fun_induction lineEnds t with
  | case1 t ih => simp at h
  | case2 c t hcr ih =>
      rw [List.mem_cons, not_or] at h
      rw [if_neg (Ne.symm h.1), ih h.2]
  | case3 => rfl

/-- What the reader makes of a text without line ends to be normalised. -/
theorem read_eq_some {t : List ℕ} {e : Element} (hplain : ∀ c ∈ t, isPlain c)
    (hrun : run .start t = some (.done e)) : read t = some e := by
  have hchar : t.all isChar = true := by
    rw [List.all_eq_true]
    intro c hc
    have := hplain c hc
    unfold isPlain at this
    exact (Bool.and_eq_true_iff.mp this).1
  have hends : lineEnds t = t := by
    apply lineEnds_eq_self
    intro hc
    have := hplain _ hc
    revert this
    decide
  unfold read
  rw [if_pos hchar, hends, hrun]

/-- What holds of the markup, the names and the spelled values holds of every character. -/
theorem forall_mem_write {P : ℕ → Prop} {spell : List ℕ → List ℕ} {e : Element}
    (hmarkup : ∀ c ∈ [0x3C, 0x20, 0x3D, 0x2F, 0x3E], P c) (htag : ∀ c ∈ e.tag, P c)
    (hname : ∀ a ∈ e.attrs, ∀ c ∈ a.1, P c) (hspell : ∀ a ∈ e.attrs, ∀ c ∈ spell a.2, P c) :
    ∀ c ∈ write spell e, P c := by
  intro c hc
  unfold write at hc
  rw [List.mem_append, List.mem_append, List.mem_append, List.mem_flatMap] at hc
  obtain ((hc | hc) | ⟨a, ha, hc⟩) | hc := hc
  · exact hmarkup c (List.Sublist.subset (by decide) hc)
  · exact htag c hc
  · rw [List.mem_append, List.mem_append, List.mem_append] at hc
    obtain ((hc | hc) | hc) | hc := hc
    · exact hmarkup c (List.Sublist.subset (by decide) hc)
    · exact hname a ha c hc
    · exact hmarkup c (List.Sublist.subset (by decide) hc)
    · exact hspell a ha c hc
  · exact hmarkup c (List.Sublist.subset (by decide) hc)

/-- **What is written reads back**: an element with a name, attributes with different names,
and any quoted spelling of their values. -/
theorem read_write {spell : List ℕ → List ℕ} {e : Element} (htag : IsName e.tag)
    (hname : ∀ a ∈ e.attrs, IsName a.1) (hnodup : (e.attrs.map Prod.fst).Nodup)
    (hspell : ∀ a ∈ e.attrs, Quoted (spell a.2) a.2) : read (write spell e) = some e := by
  apply read_eq_some
  · exact forall_mem_write (by decide) htag.plain (fun a ha => (hname a ha).plain)
      fun a ha => (hspell a ha).plain
  · have htagged : run .start ([0x3C] ++ e.tag) = some (.tagName e.tag) := by
      cases htext : e.tag with
      | nil =>
          rw [htext] at htag
          exact htag.elim
      | cons c n =>
          rw [htext] at htag
          have hopen : step .start 0x3C = some .opened := rfl
          have hfirst : step .opened c = some (.tagName [c]) := if_pos htag.1
          rw [List.singleton_append, run_cons, hopen, Option.bind_some, run_cons, hfirst,
            Option.bind_some, run_tagName htag.2]
          rfl
    obtain ⟨s, hattrs, hs⟩ := run_attrs (s := .tagName e.tag) (e := ⟨e.tag, []⟩) rfl hname hspell
      hnodup
    unfold write
    rw [List.append_assoc, run_append htagged, run_append hattrs, run_cons, hs]
    rfl

end Lib.XmlTag
