import Graft.Item.Merge
import Graft.Proofs.Splice

set_option autoImplicit false

/-!
Reading and writing the headers of functions. A header that was read is written back with one space
between its words; a header that was written so is read back, whatever follows its name.
-/

namespace Graft

namespace Text

variable {p : Char → Bool} {c : Char} {t : Text}

theorem splitWhen_append_cons (hc : p c) (t u : Text) :
    splitWhen p (t ++ c :: u) = splitWhen p t ++ splitWhen p u := by
  induction t with
  | nil => simp [splitWhen, hc]
  | cons a t ih =>
    obtain ⟨piece, pieces, hsplit⟩ := List.exists_cons_of_ne_nil (splitWhen_ne_nil p t)
    rw [List.cons_append, splitWhen, splitWhen, ih, hsplit]
    split <;> rfl

theorem splitWhen_of_forall (ht : ∀ c ∈ t, p c = false) : splitWhen p t = [t] := by
  induction t with
  | nil => rfl
  | cons c t ih =>
    rw [List.forall_mem_cons] at ht
    simp [splitWhen, ht.1, ih ht.2]

theorem words_append_cons (hc : isBlank c) (t u : Text) :
    words (t ++ c :: u) = words t ++ words u := by
  rw [words, splitWhen_append_cons hc, List.filter_append]
  rfl

theorem words_of_ink (hne : t ≠ []) (ht : ∀ c ∈ t, isBlank c = false) : words t = [t] := by
  simp [words, splitWhen_of_forall ht, hne]

theorem words_of_blank (ht : t.isBlankText) : words t = [] := by
  induction t with
  | nil => rfl
  | cons c t ih =>
    simp only [isBlankText, List.all_cons, Bool.and_eq_true] at ht
    exact (words_append_cons ht.1 [] t).trans (ih ht.2)

/-- A text that is empty or ends in a blank, so that no word crosses its end. -/
def Closed (t : Text) : Prop := ∀ c ∈ t.getLast?, isBlank c

theorem closed_nil : Closed [] := by simp [Closed]

theorem closed_append_of_blank (t : Text) {g : Text} (hne : g ≠ []) (hg : g.isBlankText) :
    Closed (t ++ g) := by
  intro c hc
  rw [List.getLast?_append_of_ne_nil _ hne] at hc
  exact List.all_eq_true.mp hg c (List.mem_of_getLast? hc)

theorem Closed.append {u : Text} (ht : Closed t) (hu : Closed u) : Closed (t ++ u) := by
  cases u with
  | nil => simpa using ht
  | cons c u =>
    intro x hx
    rw [List.getLast?_append_of_ne_nil _ (List.cons_ne_nil c u)] at hx
    exact hu x hx

theorem Closed.words_append (ht : Closed t) (u : Text) : words (t ++ u) = words t ++ words u := by
  rcases List.eq_nil_or_concat t with rfl | ⟨s, c, rfl⟩
  · rfl
  · have hc : isBlank c := ht c (by simp)
    have hs : words (s ++ [c]) = words s := by
      rw [words_append_cons hc]
      exact List.append_nil _
    rw [List.concat_eq_append] at *
    rw [List.append_assoc, List.singleton_append, words_append_cons hc, hs]

def spaced (ws : List Text) : Text := ws.flatMap (· ++ [' '])

theorem length_le_flatMap_concat (ws : List Text) (c : Char) :
    ws.length ≤ (ws.flatMap (· ++ [c])).length := by
  induction ws with
  | nil => simp
  | cons w ws ih =>
    simp only [List.flatMap_cons, List.length_append, List.length_cons] at ih ⊢
    omega

theorem ne_nil_of_mem_words {w : Text} (h : w ∈ words t) : w ≠ [] := by
  simpa using (List.mem_filter.mp h).2

theorem followedBySpace_squeeze (t : Text) :
    Layout.followedBySpace t.squeeze = spaced (words t) := by
  unfold squeeze
  rcases List.eq_nil_or_concat (words t) with hws | ⟨ws, w, hws⟩
  · rw [hws]
    rfl
  · rw [List.concat_eq_append] at hws
    have hw : w ≠ [] := ne_nil_of_mem_words (t := t) (by rw [hws]; simp)
    rw [hws, join_concat, ← spaced, Layout.followedBySpace, if_neg (by simp [hw])]
    simp [spaced]

end Text

namespace Item.Header

variable {a r s t : Text} {w : String} {c : Char} {h : Header} {qs : List Text} {v : Option Text}

theorem gap_spec (h : gap? t = some r) : ∃ g : Text, t = g ++ r ∧ g ≠ [] ∧ g.isBlankText := by
  unfold gap? at h
  split at h
  · rename_i c rest
    split at h
    · rename_i hc
      refine ⟨c :: rest.takeWhile Text.isBlank, ?_, List.cons_ne_nil _ _, ?_⟩
      · rw [← Option.some.inj h, List.cons_append, List.takeWhile_append_dropWhile]
      · rw [Text.isBlankText, List.all_cons, hc, Bool.true_and, List.all_eq_true]
        exact fun x hx => List.mem_takeWhile_imp hx
    · contradiction
  · contradiction

theorem gap_of_blank {g : Text} (hne : g ≠ []) (hg : g.isBlankText)
    (hr : ∀ c ∈ r.head?, Text.isBlank c = false) : gap? (g ++ r) = some r := by
  obtain ⟨c, g, rfl⟩ := List.exists_cons_of_ne_nil hne
  simp only [Text.isBlankText, List.all_cons, Bool.and_eq_true] at hg
  have hdrop : (g ++ r).dropWhile Text.isBlank = r := by
    rw [List.dropWhile_append_of_pos (List.all_eq_true.mp hg.2)]
    cases r with
    | nil => rfl
    | cons x r => rw [List.dropWhile_cons_of_neg (by simp [hr x rfl])]
  simp [gap?, hg.1, hdrop]

theorem startsWith_of_word (h : word? w t = some r) : w.toList <+: t := by
  unfold word? at h
  split at h
  · exact List.isPrefixOf_iff_prefix.mp ‹_›
  · contradiction

theorem word_spec (h : word? w t = some r) : t = w.toList ++ r := by
  obtain ⟨u, hu⟩ := startsWith_of_word h
  unfold word? at h
  split at h
  · rw [← Option.some.inj h, ← hu, ← String.length_toList, List.drop_left]
  · contradiction

theorem word_append (w : String) (r : Text) : word? w (w.toList ++ r) = some r := by
  have hstart : Text.startsWith (w.toList ++ r) w.toList :=
    List.isPrefixOf_iff_prefix.mpr (List.prefix_append _ _)
  rw [word?, if_pos hstart, ← String.length_toList, List.drop_left]

theorem word_suffix (h : word? w t = some r) : r <:+ t := ⟨_, (word_spec h).symm⟩

theorem scope_suffix (h : scope? t = some r) : r <:+ t := by
  unfold scope? at h
  split at h
  · rename_i rest hopen
    split at h
    · rename_i after hclose
      have hafter : ')' :: after <:+ rest := hclose ▸ List.dropWhile_suffix _
      have hrest : '(' :: rest <:+ t := hopen ▸ List.dropWhile_suffix _
      rw [← Option.some.inj h]
      exact (List.suffix_cons _ _).trans (hafter.trans ((List.suffix_cons _ _).trans hrest))
    · contradiction
  · contradiction

theorem abiName_suffix (h : abiName? t = some r) : r <:+ t := by
  unfold abiName? at h
  split at h
  · rename_i rest hgap
    split at h
    · rename_i c after hclose
      have hafter : c :: after <:+ rest := hclose ▸ List.dropWhile_suffix _
      obtain ⟨g, hg, -⟩ := gap_spec hgap
      have hrest : '"' :: rest <:+ t := ⟨g, hg.symm⟩
      rw [← Option.some.inj h]
      exact (List.suffix_cons _ _).trans (hafter.trans ((List.suffix_cons _ _).trans hrest))
    · contradiction
  · contradiction

theorem getD_suffix {f : Text → Option Text} (hf : ∀ {t r : Text}, f t = some r → r <:+ t)
    (t : Text) :
    (f t).getD t <:+ t := by
  cases h : f t with
  | none => exact List.suffix_refl t
  | some r => exact hf h

/-- What was taken up to `r` ends with a blank. -/
def Took (t r : Text) : Prop := ∃ v, t = v ++ r ∧ Text.Closed v

theorem Took.refl (t : Text) : Took t t := ⟨[], rfl, Text.closed_nil⟩

theorem Took.of_suffix_gap (hs : s <:+ t) (h : gap? s = some r) : Took t r := by
  obtain ⟨u, rfl⟩ := hs
  obtain ⟨g, rfl, hne, hg⟩ := gap_spec h
  exact ⟨u ++ g, by simp, Text.closed_append_of_blank u hne hg⟩

theorem Took.trans (h₁ : Took t s) (h₂ : Took s r) : Took t r := by
  obtain ⟨u, rfl, hu⟩ := h₁
  obtain ⟨v, rfl, hv⟩ := h₂
  exact ⟨u ++ v, by simp, hu.append hv⟩

theorem Took.getD {f : Text → Option Text} (hf : ∀ {t r}, f t = some r → Took t r) (t : Text) :
    Took t ((f t).getD t) := by
  cases h : f t with
  | none => exact .refl t
  | some r => exact hf h

theorem took_of_visibility (h : visibility? t = some r) : Took t r := by
  obtain ⟨rest, hword, hgap⟩ := Option.bind_eq_some_iff.mp h
  exact .of_suffix_gap ((getD_suffix scope_suffix rest).trans (word_suffix hword)) hgap

theorem took_of_abi (h : abi? t = some r) : Took t r := by
  obtain ⟨rest, hword, hgap⟩ := Option.bind_eq_some_iff.mp h
  exact .of_suffix_gap ((getD_suffix abiName_suffix rest).trans (word_suffix hword)) hgap

theorem took_of_qualifier (h : qualifier? t = some r) : Took t r := by
  obtain ⟨w, -, hw⟩ := List.exists_of_findSome?_eq_some h
  obtain ⟨rest, hword, hgap⟩ := Option.bind_eq_some_iff.mp hw
  exact .of_suffix_gap (word_suffix hword) hgap

theorem took_afterQualifiers (fuel : Nat) (t : Text) : Took t (afterQualifiers fuel t) := by
  fun_induction afterQualifiers fuel t with
  | case1 t => exact .refl t
  | case2 fuel t rest h ih => exact (took_of_qualifier h).trans ih
  | case3 fuel t h => exact .refl t

/-- The parts of a header as they stand in the source. -/
structure Written where
  visibility : Text
  qualifiers : Text
  abi : Text
  gap : Text
  name : Text

namespace Written

def text (w : Written) : Text :=
  w.visibility ++ (w.qualifiers ++ (w.abi ++ ("fn".toList ++ (w.gap ++ w.name))))

def header (w : Written) : Header where
  visibility := if w.visibility.isEmpty then none else some w.visibility.squeeze
  qualifiers := w.qualifiers.words
  abi := w.abi.squeeze
  name := w.name
  length := w.text.length

structure WellFormed (w : Written) : Prop where
  visibility : w.visibility.Closed
  qualifiers : w.qualifiers.Closed
  abi : w.abi.Closed
  gap_ne_nil : w.gap ≠ []
  gap : w.gap.isBlankText
  name_start : ∃ c cs, w.name = c :: cs ∧ isNameStart c
  name : ∀ c ∈ w.name, isNameChar c

end Written

theorem isNameChar_of_isNameStart (h : isNameStart c) : isNameChar c := by
  simp only [isNameStart, isNameChar, Bool.or_eq_true] at h ⊢
  tauto

theorem read_spec (hr : read? t = some h) :
    ∃ (w : Written) (rest : Text), t = w.text ++ rest ∧ h = w.header ∧ w.WellFormed ∧
      ∀ c ∈ rest.head?, isNameChar c = false := by
  obtain ⟨named, hnamed, hr⟩ := Option.bind_eq_some_iff.mp hr
  obtain ⟨c, hc, hr⟩ := Option.bind_eq_some_iff.mp hr
  split at hr
  · rename_i hstart
    obtain ⟨spaced, hword, hgap⟩ := Option.bind_eq_some_iff.mp hnamed
    obtain ⟨v, hv, hvclosed⟩ := Took.getD took_of_visibility t
    generalize (visibility? t).getD t = tv at hv hword hr
    obtain ⟨q, hq, hqclosed⟩ := took_afterQualifiers tv.length tv
    generalize afterQualifiers tv.length tv = tq at hq hword hr
    obtain ⟨a, ha, haclosed⟩ := Took.getD took_of_abi tq
    generalize (abi? tq).getD tq = ta at ha hword hr
    obtain ⟨g, hg, hgne, hgblank⟩ := gap_spec hgap
    have hfn := word_spec hword
    have htext : t = v ++ (q ++ (a ++ ("fn".toList ++ (g ++ named)))) := by
      rw [hv, hq, ha, hfn, hg]
    obtain ⟨cs, hcs⟩ : ∃ cs, named = c :: cs := by
      cases named with
      | nil => simp at hc
      | cons x xs => exact ⟨xs, by simpa using hc⟩
    have hchar := isNameChar_of_isNameStart hstart
    refine ⟨⟨v, q, a, g, named.takeWhile isNameChar⟩, named.dropWhile isNameChar, ?_, ?_,
      ⟨hvclosed, hqclosed, haclosed, hgne, hgblank,
        ⟨c, cs.takeWhile isNameChar, ?_, hstart⟩, ?_⟩, ?_⟩
    · simp only [Written.text, List.append_assoc, List.takeWhile_append_dropWhile]
      exact htext
    · have seen : ∀ {x y z : Text}, x = y ++ z → x.take (x.length - z.length) = y := by
        rintro x y z rfl
        simp
      rw [← Option.some.inj hr]
      simp only [seen hv, seen hq, seen ha, Written.header, Written.text, List.length_append]
      rw [htext]
      simp only [List.length_append]
      congr 1
      omega
    · simp [hcs, hchar]
    · exact fun x hx => List.mem_takeWhile_imp hx
    · intro x hx
      have hlast := List.head?_dropWhile_not isNameChar named
      rw [Option.mem_def.mp hx] at hlast
      simpa using hlast
  · contradiction

def printed (h : Header) : Text :=
  Layout.followedBySpace (h.visibility.getD []) ++
    (h.qualifiers.flatMap (· ++ [' ']) ++
      (Layout.followedBySpace h.abi ++ ("fn ".toList ++ h.name)))

theorem isBlank_of_isNameChar (h : isNameChar c) : Text.isBlank c = false := by
  simp only [isNameChar, Text.isLetter, Text.isLower, Text.isUpper, Text.isDigit, Bool.or_eq_true,
    Bool.and_eq_true, decide_eq_true_eq, beq_iff_eq, Char.le_def, UInt32.le_iff_toNat_le] at h
  have hrange : (48 ≤ c.toNat ∧ c.toNat ≤ 57) ∨ (65 ≤ c.toNat ∧ c.toNat ≤ 122) := by
    rcases h with ((h | h) | h) | rfl
    · exact Or.inr ⟨Nat.le_trans (by decide) h.1, h.2⟩
    · exact Or.inr ⟨h.1, Nat.le_trans h.2 (by decide)⟩
    · exact Or.inl h
    · exact Or.inr (by decide)
  simp only [Text.isBlank, Bool.or_eq_false_iff, Bool.and_eq_false_iff, decide_eq_false_iff_not,
    beq_eq_false_iff_ne]
  omega

theorem Written.WellFormed.words_text {w : Written} (hw : w.WellFormed) :
    w.text.words = (w.visibility.words ++ (w.qualifiers.words ++ (w.abi.words ++ ["fn".toList]))) ++
      [w.name] := by
  obtain ⟨c, cs, hname, -⟩ := hw.name_start
  have hink : w.name.words = [w.name] :=
    Text.words_of_ink (by simp [hname]) fun x hx => isBlank_of_isNameChar (hw.name x hx)
  obtain ⟨b, g, hg⟩ := List.exists_cons_of_ne_nil hw.gap_ne_nil
  have hgap := hw.gap
  rw [hg, Text.isBlankText, List.all_cons, Bool.and_eq_true] at hgap
  have hfn : Text.words ("fn".toList ++ w.gap) = ["fn".toList] := by
    rw [hg, Text.words_append_cons hgap.1, Text.words_of_blank hgap.2]
    rfl
  have hclosed : Text.Closed ("fn".toList ++ w.gap) :=
    Text.closed_append_of_blank _ hw.gap_ne_nil hw.gap
  rw [text, hw.visibility.words_append, hw.qualifiers.words_append, hw.abi.words_append,
    ← List.append_assoc "fn".toList, hclosed.words_append, hfn, hink]
  simp

theorem Written.WellFormed.printed_header {w : Written} (hw : w.WellFormed) :
    w.header.printed = w.text.squeeze := by
  have hvisibility : Layout.followedBySpace (w.header.visibility.getD []) =
      Text.spaced w.visibility.words := by
    simp only [header]
    split
    · rename_i hnil
      rw [List.isEmpty_iff.mp hnil]
      rfl
    · exact Text.followedBySpace_squeeze _
  rw [Text.squeeze, hw.words_text, Text.join_concat, printed, hvisibility]
  simp only [header, Text.followedBySpace_squeeze, Text.spaced, List.flatMap_append]
  simp

theorem printed_of_read (hr : read? t = some h) : h.printed = Text.squeeze (t.take h.length) := by
  obtain ⟨w, rest, rfl, rfl, hw, -⟩ := read_spec hr
  rw [hw.printed_header, show w.header.length = w.text.length from rfl, List.take_left]

def leadingWords : List String := "pub" :: qualifierWords ++ ["extern", "fn"]

def Leads (t : Text) : Prop := ∃ c ∈ "pdcauef".toList, t.head? = some c

theorem leads_append (hw : w ∈ leadingWords) (r : Text) : Leads (w.toList ++ r) := by
  have hinitial : ∀ w ∈ leadingWords, ∃ c ∈ "pdcauef".toList, ∃ cs, w.toList = c :: cs := by
    simp [leadingWords, qualifierWords]
  obtain ⟨c, hc, cs, hcs⟩ := hinitial w hw
  exact ⟨c, hc, by rw [hcs]; rfl⟩

theorem leads_of_word (hw : w ∈ leadingWords) (h : word? w t = some r) : Leads t :=
  word_spec h ▸ leads_append hw r

theorem Leads.exists_cons (h : Leads t) :
    ∃ c cs, t = c :: cs ∧ Text.isBlank c = false ∧ c ≠ '(' ∧ c ≠ '#' ∧ c ≠ '/' ∧ c ≠ '*' := by
  obtain ⟨c, hc, hhead⟩ := h
  obtain ⟨cs, rfl⟩ := List.head?_eq_some_iff.mp hhead
  refine ⟨c, cs, rfl, ?_⟩
  revert c
  simp; decide

theorem Leads.head_ink (h : Leads t) : ∀ c ∈ t.head?, Text.isBlank c = false := by
  obtain ⟨c, cs, rfl, hc, -⟩ := h.exists_cons
  simpa using hc

theorem leads_of_read (hr : read? t = some h) : Leads t := by
  obtain ⟨named, hnamed, -⟩ := Option.bind_eq_some_iff.mp hr
  obtain ⟨spaced, hfn, -⟩ := Option.bind_eq_some_iff.mp hnamed
  cases hvisibility : visibility? t with
  | some r =>
    obtain ⟨rest, hword, -⟩ := Option.bind_eq_some_iff.mp hvisibility
    exact leads_of_word (by decide) hword
  | none =>
    cases hqualifier : qualifier? t with
    | some r =>
      obtain ⟨w, hw, hbind⟩ := List.exists_of_findSome?_eq_some hqualifier
      obtain ⟨rest, hword, -⟩ := Option.bind_eq_some_iff.mp hbind
      exact leads_of_word (by simp [leadingWords, hw]) hword
    | none =>
      have hafter : ∀ fuel, afterQualifiers fuel t = t := by
        intro fuel
        cases fuel with
        | zero => rfl
        | succ fuel => rw [afterQualifiers, hqualifier]
      simp only [hvisibility, Option.getD_none, hafter] at hfn
      cases habi : abi? t with
      | some r =>
        obtain ⟨rest, hword, -⟩ := Option.bind_eq_some_iff.mp habi
        exact leads_of_word (by decide) hword
      | none =>
        rw [habi, Option.getD_none] at hfn
        exact leads_of_word (by decide) hfn

/-- A visibility with one space between its words. -/
def IsVisibility (v : Text) : Prop :=
  v.squeeze = v ∧ (v = "pub".toList ∨ ∃ g x : Text, v = "pub".toList ++ (g ++ '(' :: (x ++ [')'])) ∧
    g.isBlankText ∧ '(' ∉ x ∧ ')' ∉ x)

def IsAbi (a : Text) : Prop :=
  a.squeeze = a ∧
    (a = "extern".toList ∨ ∃ x : Text, a = "extern \"".toList ++ (x ++ ['"']) ∧ '"' ∉ x)

def IsName (n : Text) : Prop := (∃ c cs, n = c :: cs ∧ isNameStart c) ∧ ∀ c ∈ n, isNameChar c

/-- Parts of a header that can be told apart once they are written. -/
structure Plain (h : Header) : Prop where
  visibility : ∀ v ∈ h.visibility, IsVisibility v
  qualifiers : ∀ q ∈ h.qualifiers, q ∈ qualifierWords.map String.toList
  abi : h.abi = [] ∨ IsAbi h.abi
  name : IsName h.name
  length : h.length = h.printed.length

theorem word_eq_none (ht : t.head? = some c) (hw : w.toList.head?.all (· != c))
    (hne : w.toList ≠ []) : word? w t = none := by
  cases h : word? w t with
  | none => rfl
  | some r =>
    obtain ⟨x, xs, hx⟩ := List.exists_cons_of_ne_nil hne
    rw [word_spec h, hx] at ht
    rw [hx] at hw
    simp_all

theorem abi_printed (ha : a = [] ∨ IsAbi a) (hr : r.head? = some 'f') :
    (abi? (Layout.followedBySpace a ++ r)).getD (Layout.followedBySpace a ++ r) = r := by
  have hblank : ∀ c ∈ r.head?, Text.isBlank c = false := by
    intro c hc
    obtain rfl := Option.some.inj (hr.symm.trans hc)
    decide
  have hgap : gap? (' ' :: r) = some r := gap_of_blank (g := [' ']) (by simp) (by decide) hblank
  rcases ha with rfl | ⟨-, rfl | ⟨x, rfl, hx⟩⟩
  · have hnone : abi? r = none := by
      rw [abi?, word_eq_none hr (by decide) (by decide)]
      rfl
    simpa [Layout.followedBySpace] using congrArg (·.getD r) hnone
  · have hname : abiName? (' ' :: r) = none := by
      obtain ⟨r, rfl⟩ := List.head?_eq_some_iff.mp hr
      simp [abiName?, hgap]
    have htext : Layout.followedBySpace "extern".toList ++ r = "extern".toList ++ ' ' :: r := rfl
    rw [htext, abi?, word_append]
    simp [hname, hgap]
  · have hquote : ∀ y : Text, (x ++ '"' :: y).dropWhile (· != '"') = '"' :: y := by
      intro y
      rw [List.dropWhile_append_of_pos (fun c hc => by simpa using ne_of_mem_of_not_mem hc hx)]
      rfl
    have hname : abiName? (' ' :: '"' :: (x ++ '"' :: ' ' :: r)) = some (' ' :: r) := by
      have hopen : gap? (' ' :: '"' :: (x ++ '"' :: ' ' :: r)) =
          some ('"' :: (x ++ '"' :: ' ' :: r)) :=
        gap_of_blank (g := [' ']) (by simp) (by decide) (by simp; decide)
      rw [abiName?, hopen]
      simp [hquote]
    have htext : Layout.followedBySpace ("extern \"".toList ++ (x ++ ['"'])) ++ r =
        "extern".toList ++ ' ' :: '"' :: (x ++ '"' :: ' ' :: r) := by
      simp [Layout.followedBySpace]
    rw [htext, abi?, word_append]
    simp [hname, hgap]

theorem qualifier_printed (hw : w ∈ qualifierWords) (hr : Leads r) :
    qualifier? (w.toList ++ ' ' :: r) = some r := by
  have hgap : gap? (' ' :: r) = some r :=
    gap_of_blank (g := [' ']) (by simp) (by decide) hr.head_ink
  simp only [qualifierWords, List.mem_cons, List.not_mem_nil, or_false] at hw
  rcases hw with rfl | rfl | rfl | rfl <;>
    simp [qualifier?, qualifierWords, List.findSome?, word?, Text.startsWith,
      ← String.length_toList, hgap]

theorem leads_spaced (hqs : ∀ q ∈ qs, q ∈ qualifierWords.map String.toList) (hr : Leads r) :
    Leads (Text.spaced qs ++ r) := by
  cases qs with
  | nil => exact hr
  | cons q qs =>
    obtain ⟨w, hw, rfl⟩ := List.mem_map.mp (hqs q (by simp))
    simpa [Text.spaced] using leads_append (by simp [leadingWords, hw]) _

theorem afterQualifiers_printed {fuel : Nat} (hqs : ∀ q ∈ qs, q ∈ qualifierWords.map String.toList)
    (hfuel : qs.length ≤ fuel) (hr : Leads r) (hnone : qualifier? r = none) :
    afterQualifiers fuel (Text.spaced qs ++ r) = r := by
  induction qs generalizing fuel with
  | nil =>
    cases fuel with
    | zero => rfl
    | succ fuel => simp [Text.spaced, afterQualifiers, hnone]
  | cons q qs ih =>
    rw [List.forall_mem_cons] at hqs
    obtain ⟨w, hw, rfl⟩ := List.mem_map.mp hqs.1
    obtain ⟨fuel, rfl⟩ : ∃ n, fuel = n + 1 := ⟨fuel - 1, by simp at hfuel; omega⟩
    have htext : Text.spaced (w.toList :: qs) ++ r = w.toList ++ ' ' :: (Text.spaced qs ++ r) := by
      simp [Text.spaced]
    rw [htext, afterQualifiers, qualifier_printed hw (leads_spaced hqs.2 hr)]
    exact ih hqs.2 (by simpa using hfuel)

theorem visibility_printed (hv : ∀ x ∈ v, IsVisibility x) (hr : Leads r)
    (hp : v = none → visibility? r = none) :
    (visibility? (Layout.followedBySpace (v.getD []) ++ r)).getD
      (Layout.followedBySpace (v.getD []) ++ r) = r := by
  have hgap : gap? (' ' :: r) = some r :=
    gap_of_blank (g := [' ']) (by simp) (by decide) hr.head_ink
  cases v with
  | none => simpa [Layout.followedBySpace] using congrArg (·.getD r) (hp rfl)
  | some v =>
    rcases (hv v rfl).2 with rfl | ⟨g, x, rfl, hg, hopen, hclose⟩
    · have hscope : scope? (' ' :: r) = none := by
        obtain ⟨c, cs, rfl, hink, hparen, -⟩ := hr.exists_cons
        have htrim : Text.trimStart (' ' :: c :: cs) = c :: cs := by
          simp [Text.trimStart, hink, show Text.isBlank ' ' = true from rfl]
        rw [scope?, htrim]
        split
        · simp_all
        · rfl
      have htext : Layout.followedBySpace ((some "pub".toList).getD []) ++ r =
          "pub".toList ++ ' ' :: r := rfl
      rw [htext, visibility?, word_append]
      simp [hscope, hgap]
    · have hscope : scope? (g ++ '(' :: (x ++ ')' :: ' ' :: r)) = some (' ' :: r) := by
        have htrim : Text.trimStart (g ++ '(' :: (x ++ ')' :: ' ' :: r)) =
            '(' :: (x ++ ')' :: ' ' :: r) := by
          rw [Text.trimStart, List.dropWhile_append_of_pos (List.all_eq_true.mp hg)]
          rfl
        have hinside : ∀ c ∈ x, (c != '(' && c != ')') = true := by
          intro c hc
          simp [ne_of_mem_of_not_mem hc hopen, ne_of_mem_of_not_mem hc hclose]
        rw [scope?, htrim]
        simp [List.dropWhile_append_of_pos hinside]
      have htext : Layout.followedBySpace
          ((some ("pub".toList ++ (g ++ '(' :: (x ++ [')'])))).getD []) ++ r =
          "pub".toList ++ (g ++ '(' :: (x ++ ')' :: ' ' :: r)) := by
        simp [Layout.followedBySpace]
      rw [htext, visibility?, word_append]
      simp [hscope, hgap]

theorem squeeze_followedBySpace (ht : t.squeeze = t) : (Layout.followedBySpace t).squeeze = t := by
  unfold Layout.followedBySpace
  split
  · rename_i hnil
    rw [List.isEmpty_iff.mp hnil]
    rfl
  · rw [Text.squeeze, Text.words_append_cons (by decide), show Text.words [] = [] from rfl,
      List.append_nil, ← Text.squeeze, ht]

theorem squeeze_visibility (hv : ∀ x ∈ v, IsVisibility x) :
    (if (Layout.followedBySpace (v.getD [])).isEmpty then none
      else some (Layout.followedBySpace (v.getD [])).squeeze) = v := by
  cases v with
  | none => rfl
  | some v =>
    obtain ⟨hsqueeze, hform⟩ := hv v rfl
    have hne : (Layout.followedBySpace v).isEmpty = false := by
      rcases hform with rfl | ⟨g, x, rfl, -⟩
      · rfl
      · simp [Layout.followedBySpace]
    rw [Option.getD_some, hne, squeeze_followedBySpace hsqueeze]
    rfl

theorem words_spaced (hqs : ∀ q ∈ qs, q ∈ qualifierWords.map String.toList) :
    (Text.spaced qs).words = qs := by
  induction qs with
  | nil => rfl
  | cons q qs ih =>
    rw [List.forall_mem_cons] at hqs
    have hword : ∀ q ∈ qualifierWords.map String.toList, Text.words q = [q] := by decide
    have htext : Text.spaced (q :: qs) = q ++ ' ' :: Text.spaced qs := by simp [Text.spaced]
    rw [htext, Text.words_append_cons (by decide), hword q hqs.1, ih hqs.2]
    rfl

theorem head_abi_printed (ha : a = [] ∨ IsAbi a) (hr : r.head? = some 'f') :
    (Layout.followedBySpace a ++ r).head? = some 'e' ∨ (Layout.followedBySpace a ++ r).head? =
      some 'f' := by
  rcases ha with rfl | ⟨-, rfl | ⟨x, rfl, -⟩⟩
  · exact Or.inr hr
  · exact Or.inl rfl
  · exact Or.inl (by simp [Layout.followedBySpace])

theorem visibility_spaced (hqs : ∀ q ∈ qs, q ∈ qualifierWords.map String.toList)
    (hr : word? "pub" r = none) : visibility? (Text.spaced qs ++ r) = none := by
  cases qs with
  | nil => rw [visibility?, show Text.spaced [] ++ r = r from rfl, hr]; rfl
  | cons q qs =>
    have hne : ∀ q ∈ qualifierWords.map String.toList, q.head?.all (· != 'p') ∧ q ≠ [] := by decide
    obtain ⟨hhead, hnil⟩ := hne q (hqs q (by simp))
    obtain ⟨c, cs, rfl⟩ := List.exists_cons_of_ne_nil hnil
    have hc : c ≠ 'p' := by simpa using hhead
    have hnone : word? "pub" (c :: cs ++ (' ' :: (Text.spaced qs ++ r))) = none :=
      word_eq_none rfl (by simpa using hc.symm) (by decide)
    have htext : Text.spaced ((c :: cs) :: qs) ++ r =
        c :: cs ++ (' ' :: (Text.spaced qs ++ r)) := by
      simp [Text.spaced]
    rw [visibility?, htext, hnone]
    rfl

theorem word_eq_none_of_head (hw : w ∈ "pub" :: qualifierWords)
    (ht : t.head? = some 'e' ∨ t.head? = some 'f') : word? w t = none := by
  have hinitial : ∀ w ∈ "pub" :: qualifierWords,
      w.toList.head?.all (· != 'e') ∧ w.toList.head?.all (· != 'f') ∧ w.toList ≠ [] := by decide
  obtain ⟨he, hf, hne⟩ := hinitial w hw
  rcases ht with ht | ht
  · exact word_eq_none ht he hne
  · exact word_eq_none ht hf hne

theorem Plain.read_printed (hh : h.Plain) {rest : Text}
    (hrest : ∀ c ∈ rest.head?, isNameChar c = false) : read? (h.printed ++ rest) = some h := by
  obtain ⟨⟨c, cs, hname, hstart⟩, hchars⟩ := hh.name
  -- What is left after each part.
  obtain ⟨named, hnamed⟩ : ∃ t : Text, t = h.name ++ rest := ⟨_, rfl⟩
  obtain ⟨tf, htf⟩ : ∃ t : Text, t = "fn".toList ++ ' ' :: named := ⟨_, rfl⟩
  obtain ⟨ta, hta⟩ : ∃ t : Text, t = Layout.followedBySpace h.abi ++ tf := ⟨_, rfl⟩
  obtain ⟨tq, htq⟩ : ∃ t : Text, t = Text.spaced h.qualifiers ++ ta := ⟨_, rfl⟩
  have htext : h.printed ++ rest = Layout.followedBySpace (h.visibility.getD []) ++ tq := by
    simp [printed, htq, hta, htf, hnamed, Text.spaced]
  have hfirst : tf.head? = some 'f' := by rw [htf]; rfl
  have hhead : ta.head? = some 'e' ∨ ta.head? = some 'f' := hta ▸ head_abi_printed hh.abi hfirst
  have hleads : Leads ta := by
    rcases hhead with hhead | hhead
    · exact ⟨'e', by decide, hhead⟩
    · exact ⟨'f', by decide, hhead⟩
  have hqualifier : qualifier? ta = none :=
    List.findSome?_eq_none_iff.mpr fun w hw => by
      rw [word_eq_none_of_head (List.mem_cons_of_mem _ hw) hhead]
      rfl
  have hvisibility : (visibility? (h.printed ++ rest)).getD (h.printed ++ rest) = tq := by
    rw [htext, htq]
    exact visibility_printed hh.visibility (leads_spaced hh.qualifiers hleads)
      fun _ => visibility_spaced hh.qualifiers (word_eq_none_of_head (by simp) hhead)
  have hqualifiers : afterQualifiers tq.length tq = ta := by
    have hfuel : h.qualifiers.length ≤ (Text.spaced h.qualifiers).length :=
      Text.length_le_flatMap_concat _ _
    rw [htq]
    exact afterQualifiers_printed hh.qualifiers (by rw [List.length_append]; omega)
      hleads hqualifier
  have habi : (abi? ta).getD ta = tf := hta ▸ abi_printed hh.abi hfirst
  have hgap : (word? "fn" tf).bind gap? = some named := by
    have hink : ∀ c ∈ named.head?, Text.isBlank c = false := by
      simpa [hnamed, hname] using isBlank_of_isNameChar (isNameChar_of_isNameStart hstart)
    rw [htf, word_append, Option.bind_some]
    exact gap_of_blank (g := [' ']) (by simp) (by decide) hink
  have htake : named.takeWhile isNameChar = h.name := by
    rw [hnamed, List.takeWhile_append_of_pos hchars]
    cases rest with
    | nil => simp
    | cons x xs => simp [hrest x rfl]
  have seen : ∀ {x y z : Text}, x = y ++ z → x.take (x.length - z.length) = y := by
    rintro x y z rfl
    simp
  have hlength : (h.printed ++ rest).length - named.length + h.name.length = h.length := by
    have hprinted : h.name.length ≤ h.printed.length := by simp [printed]; omega
    rw [hnamed, hh.length, List.length_append, List.length_append]
    omega
  have hsqueeze : (Layout.followedBySpace h.abi).squeeze = h.abi := by
    rcases hh.abi with hnil | habi
    · rw [hnil]
      rfl
    · exact squeeze_followedBySpace habi.1
  have hc : named.head? = some c := by rw [hnamed, hname]; rfl
  unfold read?
  simp only [hvisibility, hqualifiers, habi, hgap, seen htext, seen htq, seen hta, htake,
    hlength, hsqueeze, hc, hstart, squeeze_visibility hh.visibility, words_spaced hh.qualifiers,
    Option.bind_eq_bind, Option.bind_some, if_true]
  rfl

end Item.Header

end Graft
