import Graft.Proofs.Style.Printing
import Graft.Proofs.Style.Tidy

set_option autoImplicit false

/-!
What the canonical form of a selector tells apart. If it changes nothing inside a token, the tokens
can be read back from it, so two selectors with one canonical form differ in the blanks between
their tokens only.
-/

namespace Graft.Style

open Text Lexeme Reconcile
open Spacing hiding isGap isComma

namespace Lexeme

def isGap (l : Lexeme) : Bool := !l.text.isEmpty && l.text.all isSpace

def isComma (l : Lexeme) : Bool := l.text == [',']

/-- A canonical form leaves the lexeme as it is, and the one behind it cannot run into it. -/
def isKept (l : Lexeme) : Bool :=
  l.isGap || l.isComma ||
    isSteady l.text && !decide (IsBare l.text) && !l.tokens.contains (.flaw .badString)

end Lexeme

def Spacing.ofLexemes : Spacing Lexeme := ⟨Lexeme.isGap, Lexeme.isComma, ⟨[' '], [.blank [' ']]⟩⟩

variable {l : Lexeme} {ls : List Lexeme} {a g : Bool}

structure Lexeme.IsPlain (l : Lexeme) : Prop where
  not_gap : ofLexemes.isGap l = false
  not_comma : ofLexemes.isComma l = false
  steady : isSteady l.text
  not_bare : ¬IsBare l.text
  sound : .flaw .badString ∉ l.tokens

theorem kept_cases (h : l.isKept) :
    ofLexemes.isGap l ∨ (ofLexemes.isGap l = false ∧ ofLexemes.isComma l) ∨ l.IsPlain := by
  by_cases hgap : ofLexemes.isGap l
  · exact .inl hgap
  by_cases hcomma : ofLexemes.isComma l
  · exact .inr (.inl ⟨by simpa using hgap, hcomma⟩)
  have hkept : isSteady l.text && !decide (IsBare l.text) &&
      !l.tokens.contains (.flaw .badString) := by
    have hgap' : l.isGap = false := Bool.eq_false_iff.mpr hgap
    have hcomma' : l.isComma = false := Bool.eq_false_iff.mpr hcomma
    simpa [isKept, hgap', hcomma'] using h
  simp only [Bool.and_eq_true, Bool.not_eq_true', List.contains_eq_mem,
    decide_eq_false_iff_not] at hkept
  exact .inr (.inr ⟨by simpa using hgap, by simpa using hcomma, hkept.1.1, hkept.1.2, hkept.2⟩)

theorem gap_text (h : ofLexemes.isGap l) : l.text ≠ [] ∧ ∀ c ∈ l.text, isSpace c := by
  have hgap : l.isGap := h
  simpa [isGap, List.all_eq_true] using hgap

theorem comma_text (h : ofLexemes.isComma l) : l.text = [','] := eq_of_beq h

theorem Lexeme.IsPlain.exists_ink (h : l.IsPlain) : ∃ c w, l.text = c :: w ∧ isInk c := by
  have hsteady := h.steady
  rw [isSteady, Bool.and_eq_true] at hsteady
  cases hl : l.text with
  | nil => simp [hl] at hsteady
  | cons c w => exact ⟨c, w, rfl, by simpa [hl] using hsteady.1⟩

theorem isBlank_of_isSpace {c : Char} (h : isSpace c) : isBlank c := by
  simp only [isSpace, Bool.or_eq_true, beq_iff_eq] at h
  rcases h with (rfl | rfl) | rfl <;> decide

theorem not_space_of_isInk {c : Char} (h : isInk c) : isSpace c = false := by
  by_contra hspace
  have hblank := isBlank_of_isSpace (by simpa using hspace)
  rw [(isInk_iff.mp h).1] at hblank
  contradiction

theorem textOf_tidy (h : ∀ l ∈ ls, l.isKept) :
    textOf (ofLexemes.tidy a g ls) = ofChars.tidy a g (textOf ls) := by
  refine flatMap_tidy rfl fun l hl =>
    ⟨fun hgap => ?_, fun _ hcomma => ?_, fun hgap hcomma a g u => ?_⟩
  · obtain ⟨hne, hspaces⟩ := gap_text hgap
    exact ⟨hne, fun c hc => isBlank_of_isSpace (hspaces c hc)⟩
  · exact ⟨',', comma_text hcomma, by decide, by decide⟩
  · rcases kept_cases (h l hl) with hgap' | ⟨-, hcomma'⟩ | hplain
    · simp [hgap'] at hgap
    · simp [hcomma'] at hcomma
    · exact tidy_append_of_isSteady hplain.steady u

def Spacing.ofTokens : Spacing Token where
  isGap t := match t with
    | .blank _ => true
    | _ => false
  isComma t := t == .literal [',']
  space := .blank [' ']

theorem of_lexemes_cons (h : lexemes (textOf (l :: ls)) = l :: ls) :
    lexemes (textOf ls) = ls ∧ ∃ c w,
      l.text = c :: w ∧ front c (w ++ textOf ls) = (l.tokens, textOf ls) := by
  obtain ⟨c, w, hl, hfront, hls⟩ := front_of_lexemes h
  exact ⟨hls, c, w, hl, hfront⟩

theorem front_comma (s : Text) : front ',' s = ([.literal [',']], s) := by
  unfold front
  dsimp only
  rw [startsRange_cons]
  rfl

theorem tokens_of_gap (h : lexemes (textOf (l :: ls)) = l :: ls) (hgap : ofLexemes.isGap l) :
    ∃ u, l.tokens = [.blank u] := by
  obtain ⟨-, c, w, hl, hfront⟩ := of_lexemes_cons h
  rw [front_space ((gap_text hgap).2 c (by simp [hl]))] at hfront
  exact ⟨_, (Prod.mk.inj hfront).1.symm⟩

theorem tokens_of_comma (h : lexemes (textOf (l :: ls)) = l :: ls) (hcomma : ofLexemes.isComma l) :
    l.tokens = [.literal [',']] := by
  obtain ⟨-, c, w, hl, hfront⟩ := of_lexemes_cons h
  rw [comma_text hcomma] at hl
  obtain ⟨rfl, rfl⟩ := List.cons.inj hl
  rw [front_comma] at hfront
  exact (Prod.mk.inj hfront).1.symm

theorem tokens_of_plain (h : lexemes (textOf (l :: ls)) = l :: ls) (hplain : l.IsPlain) :
    ∀ t ∈ l.tokens, ofTokens.isGap t = false ∧ ofTokens.isComma t = false := by
  obtain ⟨c, w, hl, hc⟩ := hplain.exists_ink
  have hfirst : ∀ {t : Token} {ts : List Token}, l.tokens = t :: ts →
      ofTokens.isGap t = false ∧ ofTokens.isComma t = false := by
    intro t ts ht
    refine ⟨?_, ?_⟩
    · cases t with
      | blank u =>
        -- a blank would start with a space
        obtain rfl := eq_of_lexemes h ht rfl (by simp [Value.isComment])
        have hspace := spaces_of_lexemes h ht c (by rw [show u = c :: w from hl]; simp)
        rw [not_space_of_isInk hc] at hspace
        contradiction
      | _ => rfl
    · rw [← Bool.not_eq_true]
      intro hcomma
      obtain rfl : t = .literal [','] := eq_of_beq hcomma
      obtain rfl := eq_of_lexemes h ht rfl (by simp [Value.isComment])
      exact (isInk_iff.mp hc).2 (List.cons.inj (show [','] = c :: w from hl)).1.symm
  have hmem : l ∈ lexemes (textOf (l :: ls)) := by
    rw [h]
    exact List.mem_cons_self
  rcases isOne_of_mem hmem with ⟨u, hu⟩ | ⟨u, f, hu, hf⟩
  · simpa [hu] using hfirst hu
  · have hflaw : ofTokens.isGap f = false ∧ ofTokens.isComma f = false := by
      rcases isCutFlaw_iff.mp hf with rfl | rfl <;> exact ⟨rfl, rfl⟩
    simpa [hu] using ⟨hfirst hu, hflaw⟩

theorem tokensOf_tidy (hread : lexemes (textOf ls) = ls) (h : ∀ l ∈ ls, l.isKept) :
    tokensOf (ofLexemes.tidy a g ls) = ofTokens.tidy a g (tokensOf ls) := by
  refine flatMap_tidy rfl fun l hl => ?_
  obtain ⟨pre, post, hls⟩ := List.append_of_mem hl
  have hrest : lexemes (textOf (l :: post)) = l :: post := (lexemes_of_append (hread.trans hls)).2
  refine ⟨fun hgap => ?_, fun _ hcomma => ⟨_, tokens_of_comma hrest hcomma, rfl, rfl⟩,
    fun hgap hcomma a g u => ?_⟩
  · obtain ⟨u, hu⟩ := tokens_of_gap hrest hgap
    rw [hu]
    exact ⟨by simp, List.forall_mem_singleton.mpr rfl⟩
  · rcases kept_cases (h l hl) with hgap' | ⟨-, hcomma'⟩ | hplain
    · simp [hgap'] at hgap
    · simp [hcomma'] at hcomma
    · have hmem : l ∈ lexemes (textOf ls) := by rwa [hread]
      exact tidy_append_of_plain (tokens_ne_nil hmem) (tokens_of_plain hrest hplain) u

theorem textOf_tidy_comma (hgap : ofLexemes.isGap l = false) (hcomma : ofLexemes.isComma l) :
    textOf (ofLexemes.tidy a g (l :: ls)) =
      ',' :: ' ' :: textOf (ofLexemes.tidy true false ls) := by
  rw [tidy_comma hgap hcomma, textOf, List.flatMap_cons, comma_text hcomma]
  rfl

theorem textOf_tidy_plain (h : l.IsPlain) : textOf (ofLexemes.tidy a g (l :: ls)) =
    (if g && !a then [' '] else []) ++ (l.text ++ textOf (ofLexemes.tidy false false ls)) := by
  rw [tidy_plain h.not_gap h.not_comma]
  split <;> rfl

theorem startsBlank_tidy_after (h : ∀ l ∈ ls, l.isKept) :
    startsBlank (textOf (ofLexemes.tidy true g ls)) = false := by
  induction ls generalizing g with
  | nil => rfl
  | cons l ls ih =>
    obtain ⟨hl, hls⟩ := List.forall_mem_cons.mp h
    rcases kept_cases hl with hgap | ⟨hgap, hcomma⟩ | hplain
    · rw [tidy_gap hgap, ih hls]
    · rw [textOf_tidy_comma hgap hcomma]
      rfl
    · obtain ⟨c, w, hc, hink⟩ := hplain.exists_ink
      rw [textOf_tidy_plain hplain, hc, Bool.not_true, Bool.and_false]
      exact not_space_of_isInk hink

theorem startsBlank_of_tidy (h : ∀ l ∈ ls, l.isKept)
    (hblank : startsBlank (textOf (ofLexemes.tidy false false ls))) :
    startsBlank (textOf ls) := by
  cases ls with
  | nil => contradiction
  | cons l ls =>
    rcases kept_cases (h l List.mem_cons_self) with hgap | ⟨hgap, hcomma⟩ | hplain
    · obtain ⟨hne, hspaces⟩ := gap_text hgap
      obtain ⟨c, w, hc⟩ := List.exists_cons_of_ne_nil hne
      rw [textOf, List.flatMap_cons, hc]
      exact hspaces c (by simp [hc])
    · rw [textOf_tidy_comma hgap hcomma] at hblank
      contradiction
    · obtain ⟨c, w, hc, hink⟩ := hplain.exists_ink
      rw [textOf_tidy_plain hplain, hc] at hblank
      exact absurd hblank (by simp [startsBlank, not_space_of_isInk hink])

theorem stops_tidy (h : ∀ l ∈ ls, l.isKept) : Stops (textOf (ofLexemes.tidy false true ls)) := by
  induction ls with
  | nil => simp [Spacing.tidy, textOf, Stops]
  | cons l ls ih =>
    obtain ⟨hl, hls⟩ := List.forall_mem_cons.mp h
    rcases kept_cases hl with hgap | ⟨hgap, hcomma⟩ | hplain
    · rw [tidy_gap hgap]
      exact ih hls
    · rw [textOf_tidy_comma hgap hcomma]
      rintro c ⟨⟩
      rfl
    · rw [textOf_tidy_plain hplain]
      rintro c ⟨⟩
      rfl

theorem startsQuoted_cons {c : Char} (hc : isSpace c = false) (t : Text) :
    startsQuoted (c :: t) = isQuote c := by
  rw [startsQuoted, List.dropWhile_cons_of_neg (by simp [hc])]
  rfl

theorem startsQuoted_tidy (h : ∀ l ∈ ls, l.isKept) :
    startsQuoted (textOf ls) = startsQuoted (textOf (ofLexemes.tidy a g ls)) := by
  induction ls generalizing a g with
  | nil => rfl
  | cons l ls ih =>
    obtain ⟨hl, hls⟩ := List.forall_mem_cons.mp h
    rw [show textOf (l :: ls) = l.text ++ textOf ls from rfl]
    rcases kept_cases hl with hgap | ⟨hgap, hcomma⟩ | hplain
    · rw [tidy_gap hgap, ← ih hls, startsQuoted, List.dropWhile_append_of_pos (gap_text hgap).2,
        startsQuoted]
    · rw [textOf_tidy_comma hgap hcomma, comma_text hcomma]
      rfl
    · obtain ⟨c, w, hc, hink⟩ := hplain.exists_ink
      have hquote := startsQuoted_cons (not_space_of_isInk hink)
      rw [textOf_tidy_plain hplain, hc, List.cons_append, hquote]
      split <;> exact (hquote _).symm

theorem joint_tidy (h : ∀ l ∈ ls, l.isKept) (w : Text) :
    Joint w (textOf ls) (textOf (ofLexemes.tidy false false ls)) := by
  induction ls generalizing w with
  | nil => exact ⟨.refl _, rfl, .inl⟩
  | cons l ls ih =>
    obtain ⟨hl, hls⟩ := List.forall_mem_cons.mp h
    have hblank := startsBlank_of_tidy h
    rcases kept_cases hl with hgap | ⟨hgap, hcomma⟩ | hplain
    · obtain ⟨hne, hspaces⟩ := gap_text hgap
      obtain ⟨c, v, hc⟩ := List.exists_cons_of_ne_nil hne
      refine .of_stops ?_ ?_ (fun hnil => ?_) (startsQuoted_tidy h) fun hs => .inl (hblank hs)
      · rw [textOf, List.flatMap_cons, hc]
        rintro d ⟨⟩
        simp [isMark, hspaces c (by simp [hc])]
      · rw [tidy_gap hgap]
        exact stops_tidy hls
      · exact absurd (List.append_eq_nil_iff.mp hnil).1 hne
    · have hstops : ∀ t : Text, Stops (',' :: t) := by
        rintro t c ⟨⟩
        rfl
      refine .of_stops ?_ ?_ (fun hnil => ?_) (startsQuoted_tidy h) fun hs => .inl (hblank hs)
      · rw [textOf, List.flatMap_cons, comma_text hcomma]
        exact hstops _
      · rw [textOf_tidy_comma hgap hcomma]
        exact hstops _
      · rw [textOf, List.flatMap_cons, comma_text hcomma] at hnil
        contradiction
    · have hjoint := ih hls l.text
      rw [textOf_tidy_plain hplain] at hblank ⊢
      exact ⟨hjoint.append, hjoint.startsName_append hplain.not_bare, fun hs => .inl (hblank hs)⟩

theorem lexemes_comma (t : Text) : lexemes (',' :: t) = ⟨[','], [.literal [',']]⟩ :: lexemes t :=
  lexemes_cons (w := []) (front_comma t)

theorem lexemes_space {t : Text} (h : startsBlank t = false) :
    lexemes (' ' :: t) = ⟨[' '], [.blank [' ']]⟩ :: lexemes t := by
  have hspaces : ∀ c ∈ [' '], isSpace c := List.forall_mem_singleton.mpr rfl
  have htake : (' ' :: t).takeWhile isSpace = [' '] := takeWhile_append_of_head hspaces h
  have hdrop : (' ' :: t).dropWhile isSpace = t := dropWhile_append_of_head hspaces h
  have hfront : front ' ' t = ([.blank [' ']], t) := by rw [front_space (by decide), htake, hdrop]
  exact lexemes_cons (w := []) hfront

theorem lexemes_tidy (hread : lexemes (textOf ls) = ls) (h : ∀ l ∈ ls, l.isKept) :
    lexemes (textOf (ofLexemes.tidy a g ls)) = ofLexemes.tidy a g ls := by
  induction ls generalizing a g with
  | nil => exact lexemes_nil
  | cons l ls ih =>
    obtain ⟨hl, hls⟩ := List.forall_mem_cons.mp h
    obtain ⟨hrest, -⟩ := of_lexemes_cons hread
    rcases kept_cases hl with hgap | ⟨hgap, hcomma⟩ | hplain
    · rw [tidy_gap hgap, ih hrest hls]
    · have hl : l = ⟨[','], [.literal [',']]⟩ := by
        calc
          l = ⟨l.text, l.tokens⟩ := rfl
          _ = ⟨[','], [.literal [',']]⟩ := by rw [comma_text hcomma, tokens_of_comma hread hcomma]
      rw [textOf_tidy_comma hgap hcomma, lexemes_comma, lexemes_space (startsBlank_tidy_after hls),
        ih hrest hls, tidy_comma hgap hcomma, hl]
      rfl
    · have htext : textOf [l] = l.text := List.flatMap_singleton ..
      have hfirst : lexemes (textOf [l] ++ textOf ls) = [l] ++ lexemes (textOf ls) := by
        rw [htext, hrest]
        exact hread
      have hback : ∀ m ∈ [l].getLast?, m.text ≠ ['\\'] := by
        rintro m ⟨⟩ hm
        exact hplain.not_bare (.inl hm)
      have hnext :=
        lexemes_append hfirst (joint_tidy hls _) (fun m hm heq => absurd heq (hback m hm))
        (by simp [hplain.sound]) (startsBlank_of_tidy hls)
      rw [htext, ih hrest hls, List.singleton_append] at hnext
      rw [textOf_tidy_plain hplain, tidy_plain hplain.not_gap hplain.not_comma]
      split
      · obtain ⟨c, w, hc, hink⟩ := hplain.exists_ink
        rw [List.singleton_append, lexemes_space, hnext]
        · rfl
        · rw [hc]
          exact not_space_of_isInk hink
      · exact hnext

def readNull (c : Char) : Char := if c == Char.ofNat 0 then Char.ofNat 0xfffd else c

theorem readNull_of_ne {c : Char} (h : c ≠ Char.ofNat 0) : readNull c = c :=
  if_neg (by simpa using h)

theorem isInk_readNull {c : Char} (h : isInk c) : isInk (readNull c) := by
  by_cases hnull : c = Char.ofNat 0
  · rw [hnull]
    decide
  · rwa [readNull_of_ne hnull]

theorem tidy_preprocess (t : Text) :
    ofChars.tidy a g (preprocess t) = (ofChars.tidy a g t).map readNull := by
  fun_induction preprocess t generalizing a g with
  | case1 => rfl
  | case2 t ih => rw [tidy_gap (by decide), tidy_gap (by decide), tidy_gap (by decide), ih]
  | case3 c t _ ih =>
    by_cases hbreak : c == '\r' || c == '\x0c'
    · have hblank : isBlank c := by
        rcases Bool.or_eq_true_iff.mp hbreak with h | h <;> rw [eq_of_beq h] <;> decide
      rw [if_pos hbreak, tidy_gap (by decide), tidy_gap hblank, ih]
    rw [if_neg hbreak]
    change ofChars.tidy a g (readNull c :: preprocess t) = _
    by_cases hblank : isBlank c
    · have hnull : c ≠ Char.ofNat 0 := by
        rintro rfl
        exact absurd hblank (by decide)
      rw [readNull_of_ne hnull, tidy_gap hblank, tidy_gap hblank, ih]
    by_cases hcomma : c = ','
    · subst hcomma
      rw [readNull_of_ne (by decide), tidy_comma (by decide) (by decide),
        tidy_comma (by decide) (by decide), ih]
      rfl
    · have hink : isInk c := isInk_iff.mpr ⟨by simpa using hblank, hcomma⟩
      rw [tidy_ink (isInk_readNull hink), tidy_ink hink, ih, List.map_append, List.map_cons]
      congr 1
      split <;> rfl

mutual

/-- The tokens a value was made of, with its brackets. -/
def Value.flatten : Value → List Token
  | .token _ (.flaw (.unmatched c)) => [.closing c]
  | .token _ t => [t]
  | .block _ c inside => .opening c :: (Value.flattenAll inside ++ [.closing (Value.partnerOf c)])
  | .function _ n inside => .function n :: (Value.flattenAll inside ++ [.closing ')'])

def Value.flattenAll : List Value → List Token
  | [] => []
  | v :: vs => v.flatten ++ Value.flattenAll vs

end

/-- Written out and read again, the values are made of the same tokens. -/
def ReadsBack (vs : List Value) : Prop :=
  (tokens (Value.serialize vs)).map (·.2) = Value.flattenAll vs

/-- The canonical form of the selector changes nothing inside a token. -/
def KeepsTokens (vs : List Value) : Prop :=
  ∀ l ∈ lexemes (preprocess (Value.serialize vs)), l.isKept

/-- The same tokens, whatever blanks stand between them and around commas. -/
def SameSelector (vs ws : List Value) : Prop :=
  ofTokens.tidy true false (Value.flattenAll vs) = ofTokens.tidy true false (Value.flattenAll ws)

instance (vs : List Value) : Decidable (ReadsBack vs) := inferInstanceAs (Decidable (_ = _))

instance (vs : List Value) : Decidable (KeepsTokens vs) := inferInstanceAs (Decidable (∀ l ∈ _, _))

instance (vs ws : List Value) : Decidable (SameSelector vs ws) :=
  inferInstanceAs (Decidable (_ = _))

theorem tokens_eq (t : Text) : (tokens t).map (·.2) = tokensOf (lexemes (preprocess t)) := by
  rw [tokens, tokensFrom_eq, map_snd_placed]

theorem sameSelector_of_canonical {vs ws : List Value} (hvs : KeepsTokens vs) (hws : KeepsTokens ws)
    (hvs' : ReadsBack vs) (hws' : ReadsBack ws) (h : canonical vs = canonical ws) :
    SameSelector vs ws := by
  have htext : ∀ {vs}, KeepsTokens vs →
      textOf (ofLexemes.tidy true false (lexemes (preprocess (Value.serialize vs)))) =
      (tidyText (Value.serialize vs)).map readNull := by
    intro vs hvs
    rw [textOf_tidy hvs, textOf_lexemes, tidy_preprocess]
    rfl
  have htokens : ∀ {vs}, KeepsTokens vs → ReadsBack vs →
      ofTokens.tidy true false (Value.flattenAll vs) =
      tokensOf (lexemes ((tidyText (Value.serialize vs)).map readNull)) := by
    intro vs hvs hvs'
    rw [← htext hvs, lexemes_tidy (lexemes_self rfl) hvs, tokensOf_tidy (lexemes_self rfl) hvs,
      ← tokens_eq, hvs']
  unfold SameSelector
  rw [htokens hvs hvs', htokens hws hws', tidyText_of_canonical h]

def Node.selector? : Node → Option (List Value)
  | .rule _ selector => some selector
  | _ => none

def Node.atName? : Node → Option Text
  | .atRule _ keyword prelude => some (atName keyword prelude)
  | _ => none

theorem keyed_extract (source : Text) (ns : List Node) : (extract source ns).table.Keyed := by
  rw [extract_eq_addAll]
  exact Extraction.keyed_addAll Pieces.keyed_empty _

theorem exists_node {source : Text} {ns : List Node} {e : Text × Rule}
    (h : e ∈ (extract source ns).table.entries) :
    ∃ n ∈ ns, (∃ ws ∈ n.selector?, e.1 = canonical ws) ∨ e.1 ∈ n.atName? := by
  obtain ⟨ss, s, ss', title, isRule, hspell, htitle, hpiece⟩ :=
    exists_built ((Table.get?_eq_some_iff (keyed_extract source ns).nodup).mpr h)
  have hname : e.1 = title := by
    rw [(keyed_extract source ns).name h, hpiece]
    rfl
  refine ⟨s.node, ?_, ?_⟩
  · rw [← map_node_spell source (lineTable isBreak source) ns, hspell]
    simp
  · rw [hname]
    unfold Spelled.title? at htitle
    split at htitle
    · next p ws heq =>
      exact .inl ⟨ws, by rw [heq]; rfl, (Prod.mk.inj (Option.some.inj htitle)).1.symm⟩
    · next p keyword prelude heq =>
      obtain ⟨rfl, -⟩ := Prod.mk.inj (Option.some.inj htitle)
      exact .inr (by rw [heq]; rfl)
    · contradiction

theorem finalName_cases (commands : Text → Commands) (e : Text × Rule) :
    finalName rules commands e = e.2.name ∨
      ∃ n ∈ (commands e.1).rename, ∃ ws ∈ selector? n,
        finalName rules commands e = canonical ws := by
  have haccess : ∀ a : Applied (Option Details),
      (attemptIf "access".toList (commands e.1).access rules.access a).1.name = a.1.name := by
    refine fun a => attemptIf_view (·.name) (fun p v q h => ?_) _ _ a
    exact absurd h (by simp [rules, Vocabulary.rules, Vocabulary.access, vocabulary])
  rw [finalName, named, haccess]
  cases hrename : (commands e.1).rename with
  | none => exact .inl rfl
  | some n =>
    cases hrule : rules.rename e.2 n with
    | none => exact .inl (by simp only [attemptIf, attempt, hrule])
    | some q =>
      refine .inr ⟨n, rfl, ?_⟩
      obtain ⟨ws, hws, rfl⟩ : ∃ ws, selector? n = some ws ∧ _ = q := by
        have hrename : rename e.2 n = some q := hrule
        unfold rename at hrename
        split at hrename
        · contradiction
        · exact Option.map_eq_some_iff.mp hrename
      exact ⟨ws, hws, by simp only [attemptIf, attempt, hrule]⟩

/-- The selector is another one than `vs`, and its canonical form keeps its tokens. -/
def Differs (vs ws : List Value) : Prop := KeepsTokens ws ∧ ReadsBack ws ∧ ¬SameSelector vs ws

instance (vs ws : List Value) : Decidable (Differs vs ws) := inferInstanceAs (Decidable (_ ∧ _))

/-- What a snippet may bring beside a rule with the selector `vs`: rules of other selectors, also
after they are renamed, and at-rules of other names. -/
structure BringsOthers (vs : List Value) (snippet : Text) (new : List Node) : Prop where
  rule : ∀ n ∈ new, ∀ ws ∈ n.selector?, Differs vs ws
  renamed : ∀ k ∈ (extract snippet new).table.keys,
    ∀ n ∈ ((extract snippet new).commandsOf k).rename,
    ∀ ws ∈ selector? n, Differs vs ws
  atRule : ∀ n ∈ new, ∀ k ∈ n.atName?, k ≠ canonical vs

theorem Differs.canonical_ne {vs ws : List Value} (h : Differs vs ws) (hvs : KeepsTokens vs)
    (hvs' : ReadsBack vs) :
    canonical ws ≠ canonical vs :=
  fun heq => h.2.2 (sameSelector_of_canonical hvs h.1 hvs' h.2.1 heq.symm)

theorem BringsOthers.not_touches {vs : List Value} {snippet : Text} {new : List Node}
    (h : BringsOthers vs snippet new) (hvs : KeepsTokens vs) (hvs' : ReadsBack vs) {e : Text × Rule}
    (he : e ∈ (extract snippet new).table.entries) :
    touches rules (extract snippet new).commandsOf e (canonical vs) = false := by
  have hname : e.1 ≠ canonical vs := by
    obtain ⟨n, hn, ⟨ws, hws, heq⟩ | hk⟩ := exists_node he
    · rw [heq]
      exact (h.rule n hn ws hws).canonical_ne hvs hvs'
    · exact h.atRule n hn e.1 hk
  have hfinal : finalName rules (extract snippet new).commandsOf e ≠ canonical vs := by
    rcases finalName_cases (extract snippet new).commandsOf e with heq | ⟨n, hn, ws, hws, heq⟩
    · rwa [heq, ← (keyed_extract snippet new).name he]
    · rw [heq]
      exact (h.renamed e.1 (List.mem_map_of_mem he) n hn ws hws).canonical_ne hvs hvs'
  simp [touches, hname, hfinal]

/-- Selectors with one canonical form have the same tokens, up to the blanks between them and around
commas, as long as the canonical form changes nothing inside a token. So a merge leaves a rule alone
whose selector the snippet does not bring, whatever else it brings. -/
theorem canonical_separates {vs : List Value} (hvs : KeepsTokens vs) (hvs' : ReadsBack vs) :
    (∀ ws, KeepsTokens ws → ReadsBack ws → canonical vs = canonical ws → SameSelector vs ws) ∧
      ∀ host ns snippet new q placement strict s,
        (extract host ns).table.get? (canonical vs) = some q →
        BringsOthers vs snippet new →
        (reconcile rules placement strict (extract host ns).table (extract snippet new).table
          (extract snippet new).commandsOf).result = .ok s →
        s.table.get? (canonical vs) = some q := by
  refine ⟨fun ws hws hws' h => sameSelector_of_canonical hvs hws hvs' hws' h, ?_⟩
  intro host ns snippet new q placement strict s hq hothers hs
  rw [table_of_reconcile hs]
  refine (get?_run_of_untouched rules_lawful (keyed_extract host ns).nodup fun e he => ?_).trans hq
  exact hothers.not_touches hvs hvs' he

theorem canonical_separates_string :
    let host : Text := "a[x=\"p, q\"] , b \x7b c: d \x7d\n".toList
    let snippet : Text := "/* @rename c , b */\na  b \x7b e: f \x7d\n@media x \x7b\x7d\n".toList
    ∃ ns new vs q s, read host = .ok ns ∧ read snippet = .ok new ∧ KeepsTokens vs ∧ ReadsBack vs ∧
      (extract host ns).table.get? (canonical vs) = some q ∧ BringsOthers vs snippet new ∧
      (reconcile rules .inPlace false (extract host ns).table (extract snippet new).table
        (extract snippet new).commandsOf).result = .ok s ∧
      (extract snippet new).table.keys.length = 2 ∧ s.table.get? (canonical vs) = some q := by
  intro host snippet
  have hhost := ofText_eq_shut host
  have hsnippet := ofText_eq_shut snippet
  have hreadHost := read_of_shut host (by decide +kernel)
  have hreadSnippet := read_of_shut snippet (by decide +kernel)
  have hrename : ∀ k ∈ (extract snippet (nodes (Value.ofText snippet true))).table.keys,
      ∀ n ∈ ((extract snippet (nodes (Value.ofText snippet true))).commandsOf k).rename,
        n = "c , b".toList := by
    rw [hsnippet]
    decide +kernel
  obtain ⟨n, hn, vs, hvs, hkeeps, hreads, hget, hrule, hat, hselector⟩ :
      ∃ n ∈ nodes (Value.ofText host true),
      ∃ vs ∈ n.selector?, KeepsTokens vs ∧ ReadsBack vs ∧
        ((extract host (nodes (Value.ofText host true))).table.get? (canonical vs)).isSome ∧
        (∀ n ∈ nodes (Value.ofText snippet true), ∀ ws ∈ n.selector?, Differs vs ws) ∧
        (∀ n ∈ nodes (Value.ofText snippet true), ∀ k ∈ n.atName?, k ≠ canonical vs) ∧
        ∀ ws ∈ selector? "c , b".toList, Differs vs ws := by
    rw [hhost, hsnippet, selector?, bareNodes, Value.ofText, Value.nest_top]
    decide +kernel
  obtain ⟨q, hq⟩ := Option.isSome_iff_exists.mp hget
  have hothers : BringsOthers vs snippet (nodes (Value.ofText snippet true)) :=
    ⟨hrule, fun k hk n hn ws hws => hselector ws (hrename k hk n hn ▸ hws), hat⟩
  refine ⟨_, _, vs, q, _, hreadHost, hreadSnippet, hkeeps, hreads, hq, hothers,
    reconcile_lenient, ?_, (canonical_separates hkeeps hreads).2 host _ snippet _ q .inPlace false
      _ hq hothers reconcile_lenient⟩
  rw [hsnippet]
  decide +kernel

/-- A run of blanks inside a string is squeezed as well: two selectors that differ there have one
canonical form, and the rule of the snippet takes the place of the other one. -/
theorem canonical_confuses_strings :
    let host : Text := "a[x=\"p  q\"] \x7b c: d \x7d\n".toList
    let snippet : Text := "a[x=\"p q\"] \x7b e: f \x7d\n".toList
    ∃ ns new, read host = .ok ns ∧ read snippet = .ok new ∧
      (∃ n ∈ ns, ∃ vs ∈ n.selector?, ∃ n' ∈ new, ∃ ws ∈ n'.selector?, ReadsBack vs ∧ ReadsBack ws ∧
        canonical vs = canonical ws ∧ ¬SameSelector vs ws) ∧
      ∃ s, (reconcile rules .inPlace false (extract host ns).table (extract snippet new).table
          (extract snippet new).commandsOf).result = .ok s ∧
        s.table.values.map (·.text) = ["a[x=\"p q\"] \x7b e: f \x7d".toList] := by
  intro host snippet
  have hhost := ofText_eq_shut host
  have hsnippet := ofText_eq_shut snippet
  have hreadHost := read_of_shut host (by decide +kernel)
  have hreadSnippet := read_of_shut snippet (by decide +kernel)
  refine ⟨_, _, hreadHost, hreadSnippet, ?_, _, reconcile_lenient, ?_⟩
  · rw [hhost, hsnippet]
    decide +kernel
  · rw [hhost, hsnippet]
    decide +kernel

end Graft.Style
