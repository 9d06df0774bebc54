import Graft.Proofs.Item.Lexeme
import Graft.Proofs.Lines

set_option autoImplicit false

/-!
Directives written in comments and read back. A directive can stand in a comment of any style, with
its name in any letter case; stripping the marks of the comment leaves just the directive, whatever
signs its value is made of, and what all directives of a block come to can be said field by field.
-/

namespace Graft

namespace Text

theorem capitals_spec {e : Nat × Nat × Nat × Int} (he : e ∈ capitals) :
    128 ≤ (e.1 : Int) + e.2.2.2 ∨ (e.1 = 8490 ∧ e.2.1 = 8490 ∧ e.2.2.2 = -8383) := by
  have hall : capitals.all fun e =>
      decide (128 ≤ (e.1 : Int) + e.2.2.2 ∨ (e.1 = 8490 ∧ e.2.1 = 8490 ∧ e.2.2.2 = -8383)) := by
    decide +kernel
  exact of_decide_eq_true (Array.all_eq_true_iff_forall_mem.mp hall e he)

theorem isLower_iff {c : Char} : isLower c ↔ 97 ≤ c.toNat ∧ c.toNat ≤ 122 := by
  simp only [isLower, Bool.and_eq_true, decide_eq_true_eq]
  exact Iff.rfl

theorem isUpper_iff {c : Char} : isUpper c ↔ 65 ≤ c.toNat ∧ c.toNat ≤ 90 := by
  simp only [isUpper, Bool.and_eq_true, decide_eq_true_eq]
  exact Iff.rfl

theorem le_of_isLower_ofNat {n : Nat} (h : isLower (Char.ofNat n)) : n ≤ 122 := by
  rw [isLower_iff] at h
  by_cases hn : n.isValidChar
  · rw [Char.ofNat, dif_pos hn] at h
    exact h.2
  · rw [Char.ofNat, dif_neg hn] at h
    exact absurd h.1 (by decide)

theorem isLetter_of_lowerChar {c : Char} (h : ∀ x ∈ lowerChar c, isLower x ∧ x ≠ 'k') :
    isLetter c := by
  rw [isLetter, Bool.or_eq_true]
  simp only [lowerChar] at h
  split at h
  · rename_i hascii
    have hlower := (h _ (List.mem_singleton_self _)).1
    by_cases hupper : isUpper c
    · exact Or.inr hupper
    · rw [lowerAscii, if_neg hupper] at hlower
      exact Or.inl hlower
  · rename_i hbeyond
    split at h
    · have := (h (Char.ofNat 0x307) (by simp)).1
      exact absurd this (by decide)
    · split at h
      · rename_i e lo hi step offset hfind
        have hmem := Array.mem_of_find?_eq_some hfind
        have hrange := Array.find?_some hfind
        simp only [Bool.and_eq_true, decide_eq_true_eq] at hrange
        obtain ⟨hlower, hk⟩ := h _ (List.mem_singleton_self _)
        have hsmall := le_of_isLower_ofNat hlower
        rcases capitals_spec hmem with hbig | ⟨hlo, hhi, hoffset⟩
        · simp only at hbig
          omega
        · simp only at hlo hhi hoffset
          have hc : c.toNat = 8490 := by omega
          rw [hc, hoffset] at hk
          exact absurd rfl hk
      · have := (isLower_iff.mp (h c (List.mem_singleton_self _)).1).2
        omega

theorem isLetter_of_lowerFrom (before : List Char) {t : List Char}
    (h : ∀ x ∈ lowerFrom before t, isLower x ∧ x ≠ 'k') : ∀ c ∈ t, isLetter c := by
  induction t generalizing before with
  | nil => simp
  | cons c t ih =>
    rw [lowerFrom, List.forall_mem_append] at h
    refine List.forall_mem_cons.mpr ⟨?_, ih _ h.2⟩
    obtain ⟨hc, -⟩ := h
    split at hc
    · -- neither small form of the sigma is a small letter of ASCII
      have hsigma := (hc _ (List.mem_singleton_self _)).1
      split at hsigma <;> exact absurd hsigma (by decide)
    · exact isLetter_of_lowerChar hc

theorem not_isBlank_of_isLetter {c : Char} (h : isLetter c) : isBlank c = false := by
  rw [isLetter, Bool.or_eq_true, isLower_iff, isUpper_iff] at h
  simp only [isBlank, Bool.or_eq_false_iff, Bool.and_eq_false_iff, decide_eq_false_iff_not,
    beq_eq_false_iff_ne]
  omega

theorem isBlank_of_isBreak {c : Char} (h : isBreak c) : isBlank c := by
  simp only [isBreak, isBlank, Bool.or_eq_true, Bool.and_eq_true, decide_eq_true_eq,
    beq_iff_eq] at h ⊢
  omega

theorem trims_of_trim {t : Text} (h : t.trim = t) : t.trimStart = t ∧ t.trimEnd = t := by
  have hstart : t.trimStart = t := by
    obtain ⟨b, hb, -⟩ := exists_dropLastWhile_append isBlank t.trimStart
    have hsplit : t.trimStart = t ++ b := by rwa [← trimEnd, ← trim, h] at hb
    have hle : t.trimStart.length ≤ t.length := (List.dropWhile_suffix isBlank).length_le
    rw [hsplit, List.length_append] at hle
    have hnil : b = [] := List.eq_nil_of_length_eq_zero (by omega)
    rw [hsplit, hnil, List.append_nil]
  exact ⟨hstart, by rwa [trim, hstart] at h⟩

theorem head_of_trim {c : Char} {t : Text} (h : trim (c :: t) = c :: t) : isBlank c = false := by
  by_contra hc
  have hdrop : trimStart (c :: t) = trimStart t := List.dropWhile_cons_of_pos (by simpa using hc)
  have hlength := congrArg List.length (hdrop.symm.trans (trims_of_trim h).1)
  have hle : t.trimStart.length ≤ t.length := (List.dropWhile_suffix isBlank).length_le
  rw [List.length_cons] at hlength
  omega

theorem trim_pad {a b t : Text} (ha : ∀ c ∈ a, isBlank c) (hb : ∀ c ∈ b, isBlank c)
    (ht : t.trim = t) :
    trim (a ++ t ++ b) = t := by
  have hstart : trimStart (a ++ t ++ b) = trimStart (t ++ b) := by
    rw [List.append_assoc]
    exact List.dropWhile_append_of_pos ha
  rw [trim, hstart]
  cases t with
  | nil =>
    have hblank : trimStart ([] ++ b) = [] := List.dropWhile_eq_nil_iff.mpr hb
    rw [hblank]
    rfl
  | cons c t =>
    have hhead : trimStart (c :: t ++ b) = c :: t ++ b :=
      List.dropWhile_cons_of_neg (by simp [head_of_trim ht])
    rw [hhead, trimEnd, dropLastWhile_append_of_all _ hb]
    exact (trims_of_trim ht).2

theorem not_suffix_append_cons {s v : Text} {b : Char} (hb : b ∉ s) (hv : ¬s <:+ v) (pre : Text) :
    ¬s <:+ pre ++ b :: v := by
  intro hs
  rcases List.suffix_or_suffix_of_suffix hs (List.suffix_append pre (b :: v)) with hs | hs
  · rcases List.suffix_cons_iff.mp hs with rfl | hs
    · simp at hb
    · exact hv hs
  · exact hb (hs.subset (by simp))

end Text

namespace Directive

theorem isNameChar_of_isLetter {c : Char} (h : Text.isLetter c) : isNameChar c := by
  rw [Text.isLetter, Bool.or_eq_true, Text.isLower_iff, Text.isUpper_iff] at h
  have hascii : c.toNat < 128 := by omega
  have hletter : c.isUpper ∨ c.isLower := by
    rcases h with h | h
    · exact .inr (Bool.and_eq_true_iff.mpr ⟨decide_eq_true h.1, decide_eq_true h.2⟩)
    · exact .inl (decide_eq_true h)
  have halpha : c.isAlphanum := Bool.or_eq_true_iff.mpr (.inl (Bool.or_eq_true_iff.mpr hletter))
  simp [isNameChar, Text.isWord, Text.isAlphanumeric, hascii, halpha]

/-- A directive as it is written: behind the sign `@` a known name in any letter case, then a value.
Blanks part the two, and may follow a name without a value. -/
structure Written where
  name : Text
  field : Field
  known : Field.ofWord? name = some field
  gap : Text
  gap_blank : ∀ c ∈ gap, Text.isBlank c ∧ Text.isBreak c = false
  value : Text
  gap_ne_nil : value ≠ [] → gap ≠ []
  value_trim : value.trim = value
  value_unbroken : ∀ c ∈ value, Text.isBreak c = false
  /-- A value that ended like a comment would be cut there. -/
  value_open : ¬"*/".toList <:+ value ∧ ¬"-->".toList <:+ value

namespace Written

variable (w : Written)

def text : Text := '@' :: (w.name ++ w.gap ++ w.value)

def directive : Directive := ⟨w.field, w.value⟩

def plain : Text := '@' :: (w.name ++ if w.value.isEmpty then [] else w.gap ++ w.value)

theorem name_spec : w.name ≠ [] ∧ ∀ c ∈ w.name, Text.isLetter c := by
  have hwords : Field.aliases.all fun e => !e.1.isEmpty && e.1.all fun c =>
      Text.isLower c && c != 'k' := by
    decide +kernel
  have hmem : (Text.lower w.name, w.field) ∈ Field.aliases := by
    have hlookup := w.known
    unfold Field.ofWord? at hlookup
    obtain ⟨pre, post, heq, -⟩ := List.lookup_eq_some_iff.mp hlookup
    rw [heq]
    simp
  have hword := List.all_eq_true.mp hwords _ hmem
  simp only [Bool.and_eq_true, Bool.not_eq_true', List.isEmpty_eq_false_iff] at hword
  refine ⟨fun hnil => hword.1 (by rw [hnil]; rfl), Text.isLetter_of_lowerFrom [] fun x hx => ?_⟩
  simpa using List.all_eq_true.mp hword.2 x hx

theorem exists_text_eq : ∃ b, (∀ c ∈ b, Text.isBlank c) ∧ w.text = w.plain ++ b := by
  by_cases hvalue : w.value = []
  · exact ⟨w.gap, fun c hc => (w.gap_blank c hc).1, by simp [text, plain, hvalue]⟩
  · exact ⟨[], by simp, by simp [text, plain, hvalue]⟩

theorem exists_plain_eq : ∃ (pre : Text) (b : Char) (v : Text), w.plain = pre ++ b :: v ∧ v ≠ [] ∧
    v.trimEnd = v ∧ b ∉ "*/".toList ∧ b ∉ "-->".toList ∧ ¬"*/".toList <:+ v ∧
      ¬"-->".toList <:+ v := by
  by_cases hvalue : w.value = []
  · obtain ⟨hne, hletters⟩ := w.name_spec
    have hopen : ∀ s : Text, ∀ c ∈ s, Text.isLetter c = false →
        ¬s <:+ w.name := fun s c hc hletter hs =>
      absurd (hletters c (hs.subset hc)) (by simp [hletter])
    have hends : w.name.trimEnd = w.name := by
      obtain ⟨u, c, heq⟩ := List.eq_nil_or_concat w.name |>.resolve_left hne
      rw [heq, List.concat_eq_append]
      exact Text.dropLastWhile_concat u (Text.not_isBlank_of_isLetter (hletters c (by simp [heq])))
    exact ⟨[], '@', w.name, by simp [plain, hvalue], hne, hends, by decide, by decide,
      hopen _ '/' (by decide) (by decide), hopen _ '-' (by decide) (by decide)⟩
  · obtain ⟨gap, b, hgap⟩ := (List.eq_nil_or_concat w.gap).resolve_left (w.gap_ne_nil hvalue)
    have hblank : Text.isBlank b := (w.gap_blank b (by simp [hgap])).1
    have hb : ∀ s : Text, s.all (!Text.isBlank ·) → b ∉ s := fun s hs hmem =>
      absurd hblank (by simpa using List.all_eq_true.mp hs b hmem)
    exact ⟨'@' :: (w.name ++ gap), b, w.value, by simp [plain, hvalue, hgap], hvalue,
      (Text.trims_of_trim w.value_trim).2, hb _ (by decide), hb _ (by decide), w.value_open.1,
      w.value_open.2⟩

theorem trim_plain : w.plain.trim = w.plain := by
  obtain ⟨pre, b, v, heq, hne, hends, -⟩ := w.exists_plain_eq
  have hstart : w.plain.trimStart = w.plain := by
    rw [plain]
    exact List.dropWhile_cons_of_neg (by decide)
  rw [Text.trim, hstart, heq, List.append_cons, Text.trimEnd,
    Text.dropLastWhile_append_of_ne_nil _ (by
    rw [← Text.trimEnd, hends]
    exact hne), ← Text.trimEnd, hends]

theorem split_plain : split? w.plain = some (w.name, w.value) := by
  obtain ⟨hne, hletters⟩ := w.name_spec
  -- behind the name stands nothing, or a blank
  obtain ⟨rest, hplain, hhead, hrest⟩ : ∃ rest : Text, w.plain = '@' :: (w.name ++ rest) ∧
      (∀ b ∈ rest.head?, Text.isBlank b) ∧ rest.trim = w.value := by
    by_cases hvalue : w.value = []
    · exact ⟨[], by simp [plain, hvalue], by simp, hvalue.symm⟩
    · refine ⟨w.gap ++ w.value, by simp [plain, hvalue], ?_, ?_⟩
      · cases hgap : w.gap with
        | nil => exact absurd hgap (w.gap_ne_nil hvalue)
        | cons b gap =>
          intro c hc
          obtain rfl : b = c := by simpa using hc
          exact (w.gap_blank b (by simp [hgap])).1
      · simpa using
          Text.trim_pad (b := []) (fun c hc => (w.gap_blank c hc).1) (by simp) w.value_trim
  cases hname : w.name with
  | nil => exact absurd hname hne
  | cons c cs =>
    have hcs : ∀ x ∈ cs, isNameChar x :=
      fun x hx => isNameChar_of_isLetter (hletters x (by simp [hname, hx]))
    have hstop : rest.takeWhile isNameChar = [] ∧ rest.dropWhile isNameChar = rest := by
      cases rest with
      | nil => exact ⟨rfl, rfl⟩
      | cons b rest =>
        have hb := hhead b rfl
        have hb' : isNameChar b = false := by
          rw [isNameChar, Item.Lexeme.isWord_of_isBlank hb, Bool.false_or, beq_eq_false_iff_ne]
          rintro rfl
          exact absurd hb (by decide)
        exact ⟨List.takeWhile_cons_of_neg (by simp [hb']),
          List.dropWhile_cons_of_neg (by simp [hb'])⟩
    have hblank : (rest.head?.map Text.isBlank).getD true := by
      cases hrest : rest.head? with
      | none => rfl
      | some b => exact hhead b hrest
    rw [hplain, hname, List.cons_append, split?]
    simp only [List.takeWhile_append_of_pos hcs, List.dropWhile_append_of_pos hcs, hstop.1, hstop.2,
      hletters c (by simp [hname]), hblank, Bool.and_self, if_true, hrest, List.append_nil]

end Written

theorem dropClosing_of_open {t : Text} (hstar : ¬"*/".toList <:+ t.trimEnd)
    (harrow : ¬"-->".toList <:+ t.trimEnd) :
    dropClosing t = t := by
  unfold dropClosing
  split
  · rename_i rest heq
    refine absurd ⟨rest.reverse, ?_⟩ harrow
    rw [← List.reverse_reverse t.trimEnd, heq]
    simp
  · rename_i rest heq
    refine absurd ⟨rest.reverse, ?_⟩ hstar
    rw [← List.reverse_reverse t.trimEnd, heq]
    simp
  · rfl

theorem dropClosing_mark {mark : Text} (hmark : mark = " */".toList ∨ mark = " -->".toList)
    (t : Text) :
    dropClosing (t ++ mark) = t ++ [' '] := by
  have hends : Text.trimEnd (t ++ mark) = t ++ mark := by
    rcases hmark with rfl | rfl <;> exact Text.dropLastWhile_append_of_ne_nil t (by decide)
  rw [dropClosing, hends]
  rcases hmark with rfl | rfl <;> simp

/-- How a directive can stand on a line: the marks before and behind it. -/
inductive Style where
  /-- `// @name value` -/
  | line
  /-- `/// @name value` -/
  | doc
  /-- `# @name value` -/
  | hash
  /-- `/* @name value */` -/
  | block
  /-- `<!-- @name value -->` -/
  | markup
  /-- ` * @name value`, inside of a longer comment -/
  | star
  deriving DecidableEq, Repr

namespace Style

def opening : Style → Text
  | line => "// ".toList
  | doc => "/// ".toList
  | hash => "# ".toList
  | block => "/* ".toList
  | markup => "<!-- ".toList
  | star => " * ".toList

def closing : Style → Text
  | block => " */".toList
  | markup => " -->".toList
  | _ => []

def print (s : Style) (w : Written) : Text := s.opening ++ w.text ++ s.closing

theorem dropOpening_opening (s : Style) (t : Text) :
    dropOpening (s.opening ++ '@' :: t) = ' ' :: '@' :: t := by
  cases s <;> rfl

theorem dropClosing_text (w : Written) : dropClosing (' ' :: w.text) = ' ' :: w.text := by
  obtain ⟨gap, hgap, htext⟩ := w.exists_text_eq
  obtain ⟨pre, b, v, heq, hne, hends, hstar, harrow, hstarv, harrowv⟩ := w.exists_plain_eq
  have htrim : Text.trimEnd (' ' :: w.text) = ' ' :: pre ++ b :: v := by
    rw [htext, heq, ← List.cons_append, Text.trimEnd, Text.dropLastWhile_append_of_all _ hgap,
      ← List.cons_append, List.append_cons, Text.dropLastWhile_append_of_ne_nil _ (by
        rw [← Text.trimEnd, hends]
        exact hne), ← Text.trimEnd, hends]
  apply dropClosing_of_open
  · rw [htrim]
    exact Text.not_suffix_append_cons hstar hstarv _
  · rw [htrim]
    exact Text.not_suffix_append_cons harrow harrowv _

theorem dropClosing_closing (s : Style) (w : Written) :
    ∃ b, (∀ c ∈ b, Text.isBlank c) ∧
      dropClosing (' ' :: w.text ++ s.closing) = ' ' :: w.text ++ b := by
  cases s with
  | block => exact ⟨[' '], by simp; decide, dropClosing_mark (.inl rfl) _⟩
  | markup => exact ⟨[' '], by simp; decide, dropClosing_mark (.inr rfl) _⟩
  | line | doc | hash | star => exact ⟨[], by simp, by simpa [closing] using dropClosing_text w⟩

theorem dropMarks_print (s : Style) (w : Written) : dropMarks (s.print w) = w.plain := by
  obtain ⟨gap, hgap, htext⟩ := w.exists_text_eq
  obtain ⟨b, hb, hclosing⟩ := s.dropClosing_closing w
  have hopening : dropOpening (s.print w) = ' ' :: w.text ++ s.closing := by
    rw [print, Written.text, List.append_assoc, List.cons_append, dropOpening_opening]
    rfl
  have hsplit : ' ' :: w.text ++ b = [' '] ++ w.plain ++ (gap ++ b) := by simp [htext]
  rw [dropMarks, hopening, hclosing, hsplit]
  refine Text.trim_pad (by simp; decide) (fun c hc => ?_) w.trim_plain
  exact (List.mem_append.mp hc).elim (hgap c) (hb c)

theorem ofLine_print (s : Style) (w : Written) : ofLine? (s.print w) = some w.directive := by
  simp [ofLine?, dropMarks_print, w.split_plain, w.known, Written.directive]

theorem print_unbroken (s : Style) (w : Written) : ∀ c ∈ s.print w, Text.isBreak c = false := by
  have hmarks : (s.opening ++ '@' :: s.closing).all (!Text.isBreak ·) := by cases s <;> decide
  intro c hc
  have hcases : c ∈ s.opening ++ '@' :: s.closing ∨ c ∈ w.name ∨ c ∈ w.gap ∨ c ∈ w.value := by
    simp only [print, Written.text, List.mem_append, List.mem_cons] at hc ⊢
    tauto
  rcases hcases with hc | hc | hc | hc
  · simpa using List.all_eq_true.mp hmarks c hc
  · have hblank := Text.not_isBlank_of_isLetter (w.name_spec.2 c hc)
    by_contra hbreak
    exact absurd (Text.isBlank_of_isBreak (by simpa using hbreak)) (by simp [hblank])
  · exact (w.gap_blank c hc).2
  · exact w.value_unbroken c hc

end Style

/-- A part of a comment: a line with a directive, or lines with directives between `/**` and
`*/`. -/
inductive Passage where
  | line (s : Style) (w : Written)
  | block (ws : List Written)

namespace Passage

def rows : Passage → List Text
  | line s w => [s.print w]
  | block ws => "/**".toList :: ws.map Style.star.print ++ [" */".toList]

def directives : Passage → List Directive
  | line _ w => [w.directive]
  | block ws => ws.map (·.directive)

def print (ps : List Passage) : Text := Text.unlines (ps.flatMap rows)

theorem row_spec (p : Passage) : ∀ l ∈ p.rows, l ≠ [] ∧ ∀ c ∈ l, Text.isBreak c = false := by
  have hprint : ∀ (s : Style) (w : Written), s.print w ≠ [] ∧ ∀ c ∈ s.print w,
      Text.isBreak c = false :=
    fun s w => ⟨by simp [Style.print, Written.text], s.print_unbroken w⟩
  have hframe : ∀ l : Text, l.all (!Text.isBreak ·) → ∀ c ∈ l,
      Text.isBreak c = false := fun l hl c hc => by
    simpa using List.all_eq_true.mp hl c hc
  intro l hl
  cases p with
  | line s w =>
    obtain rfl := List.mem_singleton.mp hl
    exact hprint s w
  | block ws =>
    simp only [rows, List.mem_append, List.mem_cons, List.mem_map, List.not_mem_nil, or_false] at hl
    rcases hl with (rfl | ⟨w, -, rfl⟩) | rfl
    · exact ⟨by decide, hframe _ (by decide)⟩
    · exact hprint .star w
    · exact ⟨by decide, hframe _ (by decide)⟩

theorem ofLine_rows (p : Passage) : p.rows.filterMap ofLine? = p.directives := by
  cases p with
  | line s w => simp [rows, directives, Style.ofLine_print]
  | block ws =>
    have hopening : ofLine? "/**".toList = none := by decide +kernel
    have hclosing : ofLine? " */".toList = none := by decide +kernel
    have hrows : (ws.map Style.star.print).filterMap ofLine? = ws.map (·.directive) := by
      rw [List.filterMap_map, Function.comp_def]
      simp only [Style.ofLine_print]
      exact congrFun List.filterMap_eq_map' ws
    rw [rows, List.cons_append, List.filterMap_cons_none hopening, List.filterMap_append, hrows,
      List.filterMap_cons_none hclosing]
    simp [directives]

end Passage

theorem ofComments_print (cs : List (List Passage)) :
    ofComments (cs.map Passage.print) =
      (cs.flatMap (·.flatMap Passage.directives)).filter isEffective := by
  have hlines : ∀ ps : List Passage,
      Text.lines (Passage.print ps) = ps.flatMap Passage.rows := fun ps => by
    refine Text.lines_unlines (fun l hl => ?_) fun l hl => ?_
    · obtain ⟨p, -, hl⟩ := List.mem_flatMap.mp hl
      exact (p.row_spec l hl).1
    · obtain ⟨p, -, hl⟩ := List.mem_flatMap.mp hl
      exact (p.row_spec l hl).2
  have hread : ∀ ps : List Passage,
      (ps.flatMap Passage.rows).filterMap ofLine? = ps.flatMap Passage.directives :=
    fun ps => by simp [List.filterMap_flatMap, Passage.ofLine_rows]
  rw [ofComments, List.flatMap_map, List.filterMap_flatMap]
  simp only [hlines, hread]

def last? (f : Field) (ds : List Directive) : Option Text :=
  ((ds.filter fun d => d.field = f && !d.value.isEmpty).getLast?).map (·.value)

end Directive

namespace Commands

def follow (c : Commands) (d : Directive) : Commands := if d.isEffective then c.apply d else c

/-- What directives come to, field by field: a flag is set by any directive for it, decorators are
listed in order, all else keeps the last value that is not empty, and the fields with an effective
directive are listed in the order in which they first have one. -/
def gather (ds : List Directive) : Commands where
  access := Directive.last? .access ds
  decorators := (ds.filter fun d => d.field = .decorators && !d.value.isEmpty).map (·.value)
  rename := Directive.last? .rename ds
  delete := ds.any (·.field = .delete)
  params := Directive.last? .params ds
  isAsync := ds.any (·.field = .isAsync)
  isUnsafe := ds.any (·.field = .isUnsafe)
  returnType := Directive.last? .returnType ds
  seen := ((ds.filter (·.isEffective)).map (·.field)).eraseDups

theorem seen_assign (c : Commands) (d : Directive) : (c.assign d).seen = c.seen := by
  unfold assign
  split <;> rfl

theorem seen_concat {ds : List Directive} {d : Directive} (hd : d.isEffective) :
    (gather (ds ++ [d])).seen =
      if (gather ds).seen.contains d.field then (gather ds).seen
        else (gather ds).seen ++ [d.field] := by
  simp only [gather]
  rw [List.filter_append, List.filter_singleton, hd, cond_true, List.map_append,
    List.eraseDups_append]
  by_cases hmem : d.field ∈ (ds.filter (·.isEffective)).map (·.field)
  · have hseen : d.field ∈ ((ds.filter (·.isEffective)).map (·.field)).eraseDups :=
      List.mem_eraseDups.mpr hmem
    simp [List.removeAll, hmem, hseen]
  · have hseen : d.field ∉ ((ds.filter (·.isEffective)).map (·.field)).eraseDups := fun h =>
      hmem (List.mem_eraseDups.mp h)
    simp [List.removeAll, hmem, hseen, List.eraseDups_cons]

theorem assign_gather {ds : List Directive} {d : Directive} (hd : d.isEffective) :
    gather (ds ++ [d]) = { (gather ds).assign d with seen := (gather (ds ++ [d])).seen } := by
  obtain ⟨f, value⟩ := d
  have hvalue : f.isFlag = false → value.isEmpty = false := fun hf => by
    simpa [Directive.isEffective, hf] using hd
  cases f with
  | delete | isAsync | isUnsafe => simp [gather, assign, Directive.last?]
  | access | decorators | rename | params | returnType =>
    simp [gather, assign, Directive.last?, hvalue rfl]

theorem gather_concat (ds : List Directive) (d : Directive) :
    gather (ds ++ [d]) = (gather ds).follow d := by
  unfold follow
  by_cases hd : d.isEffective
  · have hseen := seen_assign (gather ds) d
    rw [if_pos hd, assign_gather hd, seen_concat hd, apply, note, hseen]
    split
    · rw [← hseen]
    · rfl
  · rw [if_neg hd]
    obtain ⟨f, value⟩ := d
    obtain ⟨hf, rfl⟩ : f.isFlag = false ∧ value = [] := by simpa [Directive.isEffective] using hd
    cases f with
    | delete | isAsync | isUnsafe => contradiction
    | access | decorators | rename | params | returnType =>
      simp [gather, Directive.last?, Directive.isEffective, Field.isFlag]

theorem foldl_follow (ds : List Directive) : ds.foldl follow {} = gather ds := by
  induction ds using List.reverseRecOn with
  | nil => rfl
  | append_singleton ds d ih => rw [List.foldl_concat, ih, gather_concat]

/-- Directives are read back from the comments that hold them, whatever the style of each line and
however the lines are divided into comments: what is read is what the directives come to when they
are followed one after the other, and that can be said field by field. -/
theorem ofComments_passages (cs : List (List Directive.Passage)) :
    let ds := cs.flatMap (·.flatMap Directive.Passage.directives)
    ofComments (cs.map Directive.Passage.print) = ds.foldl follow {} ∧
      ds.foldl follow {} = gather ds := by
  intro ds
  refine ⟨?_, foldl_follow ds⟩
  rw [ofComments, Directive.ofComments_print, List.foldl_filter]
  rfl

/-- A value can look like marks, as long as it does not end like a comment. -/
example :
    ∃ w : Directive.Written, Directive.Style.block.print w = "/* @Rename */ <!-- #a* */".toList :=
  ⟨{  name := "Rename".toList, field := .rename, known := by decide +kernel
      gap := [' '], gap_blank := by simp; decide, gap_ne_nil := by simp
      value := "*/ <!-- #a*".toList, value_trim := by decide, value_unbroken := by simp; decide
      value_open := by decide }, by decide⟩

end Commands

end Graft
