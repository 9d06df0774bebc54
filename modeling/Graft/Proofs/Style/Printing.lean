import Graft.Proofs.Style.Stretch

set_option autoImplicit false

/-!
Printing a rule: its selector and its block with one space between them, below the comments that are
kept.
-/

namespace Graft.Style

open Text Lexeme

section

variable {ls : List Lexeme} {r : Text} {l : Lexeme}

theorem front_of_getLast? (h : lexemes (textOf ls ++ r) = ls ++ lexemes r)
    (hl : ls.getLast? = some l) :
    ∃ c w, l.text = c :: w ∧ front c (w ++ r) = (l.tokens, r) := by
  obtain ⟨ls, rfl⟩ := List.getLast?_eq_some_iff.mp hl
  rw [List.append_assoc] at h
  have hlast := (lexemes_of_append h).2
  rw [textOf_append, textOf_lexemes, textOf, List.flatMap_singleton] at hlast
  obtain ⟨c, w, htext, hfront, -⟩ := front_of_lexemes hlast
  exact ⟨c, w, htext, hfront⟩

variable {vs : List Value} {t : Token} (h : lexemes (textOf ls ++ r) = ls ++ lexemes r)
  (hr : r ≠ [])
  (htells : ∀ rest, Tells ls rest (Value.unplacedAll vs))

include h hr htells

theorem not_mem_of_getLast?
    (hpush : ∀ levels, Value.push levels ({}, t) = (levels.1, .token {} t :: levels.2))
    (hvs : ∀ p, vs.getLast? ≠ some (.token p t)) (hl : ls.getLast? = some l) : t ∉ l.tokens := by
  intro hmem
  obtain ⟨c, w, -, hfront⟩ := front_of_getLast? h hl
  obtain ⟨ls, rfl⟩ := List.getLast?_eq_some_iff.mp hl
  have hone := isOne_front c (w ++ r)
  rw [hfront] at hone
  rcases hone with ⟨u, hu⟩ | ⟨u, f, -, -, hnil⟩
  · obtain rfl : t = u := by
      rw [show l.tokens = [u] from hu] at hmem
      exact List.mem_singleton.mp hmem
    -- read with something behind them, the lexemes leave no bracket open
    have hclosed :=
      ((htells [l]).closed).resolve_left (by simp [tokensOf_cons, show l.tokens = _ from hu])
    rw [tokensOf_append, List.map_append, tokensOf_cons, show l.tokens = _ from hu, Value.readAll,
      List.foldl_append] at hclosed
    have hvalues : _ :: _ = (Value.unplacedAll vs).reverse :=
      (Prod.mk.inj ((hpush _).symm.trans hclosed)).2
    have hhead := congrArg List.head? hvalues
    rw [List.head?_reverse, Value.unplacedAll_eq, List.getLast?_map, List.head?_cons, eq_comm,
      Option.map_eq_some_iff] at hhead
    obtain ⟨v, hv, hunplaced⟩ := hhead
    cases v with
    | token p t =>
      obtain ⟨-, rfl⟩ := Value.token.inj hunplaced
      exact hvs p hv
    | block p c inside => contradiction
    | function p n inside => contradiction
  · exact hr hnil

theorem text_ne_of_getLast? (hvs : ∀ p, vs.getLast? ≠ some (.token p (.literal ['\\'])))
    (hl : ls.getLast? = some l) : l.text ≠ ['\\'] := by
  intro htext
  obtain ⟨c, w, hcw, hfront⟩ := front_of_getLast? h hl
  have hbare : IsBare (c :: w) := .inl (hcw.symm.trans htext)
  refine not_mem_of_getLast? h hr htells (fun _ => rfl) hvs hl ?_
  rw [(hbare.of_front hfront hr).2]
  exact List.mem_singleton.mpr rfl

end

theorem startsQuoted_spaces {b t : Text} (hb : ∀ c ∈ b, isSpace c) (ht : t.head? = some '\x7b') :
    startsQuoted (b ++ t) = false := by
  obtain ⟨t, rfl⟩ := List.head?_eq_some_iff.mp ht
  rw [startsQuoted, List.dropWhile_append_of_pos hb]
  rfl

theorem stops_spaces {b t : Text} (hb : ∀ c ∈ b, isSpace c) (ht : t.head? = some '\x7b') :
    Stops (b ++ t) := by
  obtain ⟨t, rfl⟩ := List.head?_eq_some_iff.mp ht
  cases b with
  | nil =>
    rintro c ⟨⟩
    rfl
  | cons d b =>
    rintro c ⟨⟩
    simp [isMark, hb d List.mem_cons_self]

namespace Laid

variable {selector ms : List Value} {block : Value} {lst lbl lbk : List Lexeme}

theorem lexemes_block (h : Laid selector block lst lbl lbk ms) : lexemes (textOf lbk) = lbk := by
  have heq := h.lexemes_eq
  rw [← List.append_assoc lst] at heq
  exact (lexemes_of_append heq).2

theorem lexemes_space (h : Laid selector block lst lbl lbk ms) :
    lexemes (' ' :: textOf lbk) = ⟨[' '], [.blank [' ']]⟩ :: lbk := by
  obtain ⟨t, ht⟩ := List.head?_eq_some_iff.mp h.brace
  have hfront : front ' ' (textOf lbk) = ([.blank [' ']], textOf lbk) := by
    rw [ht]
    rfl
  exact (lexemes_cons (w := []) (r := textOf lbk) hfront).trans (by rw [h.lexemes_block])

theorem exists_rejoined (h : Laid selector block lst lbl lbk ms) {t : Text}
    (ht : t.getLast?.any isSpace = false) (hcase : textOf lst = t ∨ textOf lst = t ++ [' '])
    (htorn : ∀ p, (stem selector).getLast? ≠ some (.token p (.flaw .badString)))
    (hbare : ∀ p, (stem selector).getLast? ≠ some (.token p (.literal ['\\']))) :
    ∃ ls' lb, lexemes (t ++ ' ' :: textOf lbk) = ls' ++ (lb ++ lbk) ∧ tokensOf ls' = tokensOf lst ∧
      (lb = [] ∨ lb = [⟨[' '], [.blank [' ']]⟩]) := by
  have hsplit := (lexemes_of_append h.lexemes_eq).2
  have hwhole : lexemes (textOf lst ++ (textOf lbl ++ textOf lbk)) =
      lst ++ lexemes (textOf lbl ++ textOf lbk) := by
    rw [h.lexemes_eq, ← textOf_append, hsplit]
  have hspaces : ∀ c ∈ textOf lbl, isSpace c := h.blank_eq ▸ h.spaces
  have hstops := stops_spaces hspaces h.brace
  have hquoted := startsQuoted_spaces hspaces h.brace
  have hne : textOf lbl ++ textOf lbk ≠ [] := by
    intro hnil
    have hbrace := h.brace
    rw [(List.append_eq_nil_iff.mp hnil).2] at hbrace
    contradiction
  have hback : ∀ l ∈ lst.getLast?, l.text = ['\\'] → ∀ s,
      startsName ('\\' :: (textOf lbl ++ textOf lbk)) = startsName ('\\' :: s) := fun l hl htext =>
    absurd htext (text_ne_of_getLast? hwhole hne h.tells_stem hbare hl)
  have hbad : ∀ l ∈ lst.getLast?, .flaw .badString ∈ l.tokens → ∀ s : Text,
      (textOf lbl ++ textOf lbk).head? = s.head? := fun l hl hmem =>
    absurd hmem (not_mem_of_getLast? hwhole hne h.tells_stem (fun _ => rfl) htorn hl)
  rcases hcase with rfl | htext
  · have hjoint : Joint (textOf lst) (textOf lbl ++ textOf lbk) (' ' :: textOf lbk) := by
      refine .of_stops hstops ?_ (fun hnil => absurd hnil hne) ?_ fun _ => .inr ⟨?_, ht⟩
      · exact stops_spaces (b := [' ']) (List.forall_mem_singleton.mpr rfl) h.brace
      · rw [hquoted]
        exact (startsQuoted_spaces (b := [' ']) (List.forall_mem_singleton.mpr rfl) h.brace).symm
      · exact stops_spaces (b := []) (by simp) h.brace
    obtain ⟨ls', s', hs', heq, htokens, -⟩ := lexemes_transfer hwhole hjoint
      (fun l hl htext => hback l hl htext _) fun l hl hmem => hbad l hl hmem _
    rcases hs' with rfl | ⟨-, -, rfl⟩
    · exact ⟨ls', _, heq.trans (by rw [h.lexemes_space]; rfl), htokens, .inr rfl⟩
    · exact ⟨ls', [], heq.trans (by rw [List.drop_one, List.tail_cons, h.lexemes_block]; rfl),
        htokens, .inl rfl⟩
  · have hbrace : startsBlank (textOf lbk) = false := by
      rw [startsBlank, h.brace]
      rfl
    have hjoint : Joint (textOf lst) (textOf lbl ++ textOf lbk) (textOf lbk) := by
      refine .of_stops hstops ?_ (fun hnil => absurd hnil hne) ?_ fun hblank => ?_
      · exact stops_spaces (b := []) (by simp) h.brace
      · rw [hquoted]
        exact (startsQuoted_spaces (b := []) (by simp) h.brace).symm
      · rw [hbrace] at hblank
        contradiction
    have heq := lexemes_append hwhole hjoint (fun l hl htext => hback l hl htext _)
      (fun l hl hmem => hbad l hl hmem _) (by simp [hbrace])
    refine ⟨lst, [], ?_, rfl, .inl rfl⟩
    rw [h.lexemes_block, htext, List.append_assoc] at heq
    exact heq

end Laid

/-- What is printed for the text of a rule. -/
def rejoined (t : Text) : Text :=
  match find? ['\x7b'] t with
  | some brace => trim (t.take brace) ++ ' ' :: t.drop brace
  | none => t

theorem render_build (name : Text) (start : Nat) (text : Text)
    (above : List (Nat × Text)) (r : Rule) (hr : r = (build name true start text above).1) :
    render r none = unlines (r.comments ++ [rejoined text]) := by
  subst hr
  unfold render rejoined build
  dsimp only
  cases find? ['\x7b'] text <;> rfl

theorem find?_brace {head tail : Text} (hhead : '\x7b' ∉ head) (htail : tail.head? = some '\x7b') :
    find? ['\x7b'] (head ++ tail) = some head.length := by
  induction head with
  | nil =>
    obtain ⟨tail, rfl⟩ := List.head?_eq_some_iff.mp htail
    rfl
  | cons c head ih =>
    obtain ⟨hc, hrest⟩ := not_or.mp (mt List.mem_cons.mpr hhead)
    have hnot : (['\x7b'].isPrefixOf (c :: (head ++ tail))) = false := by
      simpa [List.isPrefixOf] using hc
    rw [List.cons_append, find?, hnot, ih hrest]
    rfl

theorem rejoined_append {head tail : Text} (hhead : '\x7b' ∉ head)
    (htail : tail.head? = some '\x7b') :
    rejoined (head ++ tail) = head.trim ++ ' ' :: tail := by
  rw [rejoined, find?_brace hhead htail]
  simp

theorem contents_block {selector : List Value} {block : Value} {ms : List Value}
    (h : IsSelector selector) (hblock : block.isBraces) (hms : ∀ m ∈ ms, isHidden m) :
    contents (selector ++ block :: ms) = [selector ++ [block]] := by
  have hnil := contents_append_hidden hms []
  rw [List.append_nil, contents_nil] at hnil
  rw [contents_rule h.starts h.not_braces hblock, hnil]

/-- A row of values that may end in a blank. -/
def IsUpToBlank (vs us : List Value) : Prop := us = vs ∨ ∃ b, us = vs ++ [.token {} (.blank b)]

theorem Laid.partsFrom_eq {selector ms : List Value} {block : Value} {lst lbl lbk : List Lexeme}
    (h : Laid selector block lst lbl lbk ms) (hselector : IsSelector selector)
    (hblock : block.isBraces) {t : Text} {ls lb : List Lexeme} (ht : lexemes t = ls ++ (lb ++ lbk))
    (htokens : tokensOf ls = tokensOf lst) (hlb : lb = [] ∨ lb = [⟨[' '], [.blank [' ']]⟩]) :
    ∃ us, IsUpToBlank (Value.unplacedAll (stem selector)) us ∧
      partsFrom t = [us ++ [block.unplaced]] := by
  have htells : ∀ rest, Tells ls rest (Value.unplacedAll (stem selector)) := fun rest => by
    have hstem := h.tells_stem rest
    unfold Tells at hstem ⊢
    rwa [htokens]
  have hblock' : block.unplaced.isBraces := by rwa [Value.isBraces_unplaced]
  have hstem := hselector.stem.unplaced
  rcases hlb with rfl | rfl
  · refine ⟨_, .inl rfl, ?_⟩
    rw [partsFrom_append ht (htells _), List.nil_append, h.tells_block.nest_eq,
      contents_block hstem hblock' h.hidden]
  · have hblank : Tells [⟨[' '], [.blank [' ']]⟩] lbk [.token {} (.blank [' '])] :=
      ⟨Value.nest_top _, .inr rfl⟩
    rw [← List.append_assoc] at ht
    rw [partsFrom_append ht ((htells _).append hblank), h.tells_block.nest_eq]
    by_cases hnil : Value.unplacedAll (stem selector) = []
    · refine ⟨_, .inl rfl, ?_⟩
      rw [hnil, List.nil_append, List.singleton_append, contents_blank]
      exact contents_block (show IsSelector [] from ⟨by simp, by simp⟩) hblock' h.hidden
    · exact ⟨_, .inr ⟨_, rfl⟩, contents_block (hstem.concat_blank hnil _ _) hblock' h.hidden⟩

/-- What a selector needs to be the same after its text is trimmed and a space put behind it: it
holds no brace, nothing is taken from it but a blank or one space of an escape, and it ends neither
in a string left open nor in a backslash that the space would be escaped by. -/
structure Rejoins (head : Text) (selector : List Value) : Prop where
  not_brace : '\x7b' ∉ head
  exists_blanks : ∃ b, head = head.trim ++ b ∧
    (preprocess b = lastBlank selector ∨ preprocess b = ' ' :: lastBlank selector)
  not_torn : ∀ p, (stem selector).getLast? ≠ some (.token p (.flaw .badString))
  not_bare : ∀ p, (stem selector).getLast? ≠ some (.token p (.literal ['\\']))

theorem getLast?_preprocess {t : Text} {c : Char} (hc : isBlank c = false) :
    (preprocess (t ++ [c])).getLast? =
      some (if c == Char.ofNat 0 then Char.ofNat 0xfffd else c) := by
  have hfeed : c ≠ '\n' := by
    rintro rfl
    contradiction
  have hend : (c == '\r' || c == '\x0c') = false := by
    rw [Bool.or_eq_false_iff, beq_eq_false_iff_ne, beq_eq_false_iff_ne]
    constructor <;> rintro rfl <;> contradiction
  have hsingle : preprocess [c] = [if c == Char.ofNat 0 then Char.ofNat 0xfffd else c] := by
    rw [preprocess_cons (by simp), hend]
    rfl
  rw [preprocess_append (by simp [IsWhole, hfeed]), hsingle, List.getLast?_append]
  rfl

theorem trim_ends (t b : Text) :
    IsWhole t.trim b ∧ (preprocess t.trim).getLast?.any isSpace = false := by
  rcases trimEnd_eq_nil_or_concat t.trimStart with hnil | ⟨u, c, heq, hc⟩
  · rw [show t.trim = [] from hnil]
    exact ⟨by simp [IsWhole], rfl⟩
  · rw [show t.trim = u ++ [c] from heq, getLast?_preprocess hc]
    constructor
    · rintro ⟨hlast, -⟩
      obtain rfl : c = '\r' := by simpa using hlast
      contradiction
    · rw [Option.any_some]
      split
      · rfl
      · by_contra hspace
        have hblank : isBlank c := by
          have hspace' : isSpace c := by simpa using hspace
          rcases (by simpa [isSpace, or_assoc] using hspace' : c = ' ' ∨ c = '\n' ∨ c = '\t') with
            rfl | rfl | rfl <;> rfl
        rw [hc] at hblank
        contradiction

theorem Laid.partsOf_rejoined {selector ms : List Value} {block : Value} {lst lbl lbk : List Lexeme}
    {head tail : Text} (h : Laid selector block lst lbl lbk ms) (hselector : IsSelector selector)
    (hblock : block.isBraces) (hhead : preprocess head = textOf lst ++ textOf lbl)
    (htail : preprocess tail = textOf lbk) (hrejoins : Rejoins head selector) :
    ∃ us, IsUpToBlank (Value.unplacedAll (stem selector)) us ∧
      partsOf (head.trim ++ ' ' :: tail) = [us ++ [block.unplaced]] := by
  obtain ⟨b, hb, hcase⟩ := hrejoins.exists_blanks
  have hspace : preprocess (' ' :: tail) = ' ' :: textOf lbk := by
    rw [preprocess_cons (by simp), htail]
    rfl
  have htext : preprocess (head.trim ++ ' ' :: tail) =
      preprocess head.trim ++ ' ' :: textOf lbk := by
    rw [preprocess_append (by simp [IsWhole]), hspace]
  obtain ⟨hwhole, hlast⟩ := trim_ends head b
  have heq : textOf lst ++ lastBlank selector = preprocess head.trim ++ preprocess b := by
    rw [← h.blank_eq, ← hhead, ← preprocess_append hwhole, ← hb]
  have hcase' : textOf lst = preprocess head.trim ∨
      textOf lst = preprocess head.trim ++ [' '] := by
    rcases hcase with hblank | hblank
    · rw [hblank] at heq
      exact .inl (List.append_cancel_right heq)
    · rw [hblank, ← List.singleton_append, ← List.append_assoc] at heq
      exact .inr (List.append_cancel_right heq)
  obtain ⟨ls, lb, hlexemes, htokens, hlb⟩ :=
    h.exists_rejoined hlast hcase' hrejoins.not_torn hrejoins.not_bare
  rw [partsOf_eq, htext]
  exact h.partsFrom_eq hselector hblock hlexemes htokens hlb

theorem Laid.partsOf_append {selector ms : List Value} {block : Value} {lst lbl lbk : List Lexeme}
    {head tail : Text} (h : Laid selector block lst lbl lbk ms) (hselector : IsSelector selector)
    (hblock : block.isBraces) (hhead : preprocess head = textOf lst ++ textOf lbl)
    (htail : preprocess tail = textOf lbk) (hbrace : tail.head? = some '\x7b') :
    partsOf (head ++ tail) = [Value.unplacedAll selector ++ [block.unplaced]] := by
  have hlexemes : lexemes (preprocess (head ++ tail)) = lst ++ lbl ++ lbk := by
    rw [preprocess_append (by simp [IsWhole, hbrace]), hhead, htail, List.append_assoc,
      h.lexemes_eq, List.append_assoc]
  rw [partsOf_eq, partsFrom_append hlexemes (h.tells _), h.tells_block.nest_eq]
  exact contents_block hselector.unplaced (by rwa [Value.isBraces_unplaced]) h.hidden

theorem isUpToBlank_unplaced (selector : List Value) :
    IsUpToBlank (Value.unplacedAll (stem selector)) (Value.unplacedAll selector) := by
  rcases stem_cases selector with ⟨heq, -⟩ | ⟨p, heq⟩
  · exact .inl (by rw [heq])
  · refine .inr ⟨lastBlank selector, ?_⟩
    have hunplaced := congrArg Value.unplacedAll heq
    rwa [Value.unplacedAll_append] at hunplaced

section Spelled

variable {source : Text} {ns : List Node} {ss ss' : List Spelled} {s : Spelled}

theorem map_node_spell (source : Text) (offsets : Array Nat) (ns : List Node) :
    (spell source offsets ns).map (·.node) = ns := by
  induction ns with
  | nil => rfl
  | cons n ns ih => rw [spell, List.map_cons, ih]

theorem of_spell_eq {offsets : Array Nat} (h : spell source offsets ns = ss ++ s :: ss') :
    s.start = offsetOf offsets s.node.place ∧ s.text = source.slice s.start
      (((ss'.map (·.node)).head?.map fun m => offsetOf offsets m.place).getD source.length) := by
  induction ns generalizing ss with
  | nil => simp [spell] at h
  | cons n ns ih =>
    rw [spell] at h
    cases ss with
    | nil =>
      obtain ⟨rfl, rfl⟩ := List.cons.inj h
      rw [map_node_spell]
      exact ⟨rfl, rfl⟩
    | cons s' ss => exact ih (List.cons.inj h).2

theorem spelled_eq (hread : read source = .ok ns)
    (h : spell source (lineTable isBreak source) ns = ss ++ s :: ss')
    (hplain : ∀ n ∈ (s :: ss'.take 1).map (·.node), IsPlainAbove source n) :
    s.start = s.node.startIn source ∧
      s.text = source.slice (s.node.startIn source) (stopIn source (ss'.map (·.node))) := by
  obtain ⟨hstart, htext⟩ := of_spell_eq h
  have hns := congrArg (List.map (·.node)) h
  rw [map_node_spell, List.map_append, List.map_cons] at hns
  subst hns
  have hstart' : s.start = s.node.startIn source := by
    rw [hstart]
    exact (offsetOf_eq_startIn_iff hread).mpr (hplain _ (by simp))
  refine ⟨hstart', ?_⟩
  rw [htext, hstart', stopIn]
  cases ss' with
  | nil => rfl
  | cons s' ss' =>
    rw [List.map_cons, List.append_cons] at hread
    have hnext := (offsetOf_eq_startIn_iff hread).mpr (hplain _ (by simp))
    simp only [List.map_cons, List.head?_cons, Option.map_some, hnext]

end Spelled

theorem exists_of_mem_occurrences {pre ss : List Spelled} {o : Occurrence (Option Details)}
    (h : o ∈ occurrencesFrom pre ss) :
    ∃ ss₁ s ss₂ name isRule, ss = ss₁ ++ s :: ss₂ ∧ s.title? = some (name, isRule) ∧
      o.piece = (build name isRule s.start s.text.trimEnd (commentsAbove (pre ++ ss₁))).1 := by
  induction ss generalizing pre with
  | nil => contradiction
  | cons s ss ih =>
    have hlater : o ∈ occurrencesFrom (pre ++ [s]) ss → ∃ ss₁ s' ss₂ name isRule,
        s :: ss = ss₁ ++ s' :: ss₂ ∧
        s'.title? = some (name, isRule) ∧
        o.piece = (build name isRule s'.start s'.text.trimEnd (commentsAbove (pre ++ ss₁))).1 := by
      intro hmem
      obtain ⟨ss₁, s', ss₂, name, isRule, rfl, htitle, hpiece⟩ := ih hmem
      refine ⟨s :: ss₁, s', ss₂, name, isRule, rfl, htitle, ?_⟩
      rw [hpiece, List.append_assoc]
      rfl
    unfold occurrencesFrom at h
    dsimp only at h
    split at h
    · next name isRule htitle =>
      rcases List.mem_cons.mp h with rfl | hmem
      · exact ⟨[], s, ss, name, isRule, rfl, htitle, by rw [List.append_nil]⟩
      · exact hlater hmem
    · exact hlater h

theorem exists_built {source : Text} {ns : List Node} {name : Text} {r : Rule}
    (h : (extract source ns).table.get? name = some r) :
    ∃ ss s ss' title isRule, spell source (lineTable isBreak source) ns = ss ++ s :: ss' ∧
      s.title? = some (title, isRule) ∧
      r = (build title isRule s.start s.text.trimEnd (commentsAbove ss)).1 := by
  rw [extract_eq_addAll] at h
  obtain ⟨pre, o, post, hos, rfl, -⟩ :=
    (Extraction.attaches_addAll (occurrences source ns)).2 name r h
  have hmem : o ∈ occurrencesFrom [] (spell source (lineTable isBreak source) ns) := by
    change o ∈ occurrences source ns
    rw [hos]
    simp
  exact exists_of_mem_occurrences hmem

theorem exists_spelled {source : Text} {ns : List Node} {name : Text} {r : Rule}
    (h : (extract source ns).table.get? name = some r) (hkind : r.kind = "rule".toList) :
    ∃ ss s ss' p selector, spell source (lineTable isBreak source) ns = ss ++ s :: ss' ∧
      s.node = .rule p selector ∧
      r = (build (canonical selector) true s.start s.text.trimEnd (commentsAbove ss)).1 := by
  obtain ⟨ss, s, ss', title, isRule, hspell, htitle, hpiece⟩ := exists_built h
  rw [hpiece] at hkind
  cases isRule with
  | false => exact absurd hkind (by simp [build])
  | true =>
    have hnode : ∃ p selector, s.node = .rule p selector ∧ title = canonical selector := by
      unfold Spelled.title? at htitle
      split at htitle
      · next p selector heq =>
        exact ⟨p, selector, heq, (Prod.mk.inj (Option.some.inj htitle)).1.symm⟩
      · exact absurd (Prod.mk.inj (Option.some.inj htitle)).2 (by decide)
      · contradiction
    obtain ⟨p, selector, hnode, rfl⟩ := hnode
    exact ⟨ss, s, ss', p, selector, hspell, hnode, hpiece⟩

/-- What printing a rule asks of its source: no line break but the line ends of sheets above the
node behind it, no blank at its end, which only a block without its closing brace has, and text that
stays as it is or can be rejoined. -/
structure Printable (source : Text) (ss : List Spelled) (s : Spelled) (ss' : List Spelled)
    (selector : List Value) (block : Value) : Prop where
  plain : ∀ n ∈ (ss ++ s :: ss'.take 1).map (·.node), IsPlainAbove source n
  ends : s.text.trimEnd = s.text
  joins : rejoined s.text = s.text ∨
    Rejoins (source.slice s.start (offsetOf (lineTable isSheetEnd source) block.place)) selector

/-- A text that can be read, as the comments given and then as one rule: with the same selector, up
to a blank before the block, and the same block. -/
structure ReadsAs (t : Text) (comments : List Text) (selector : List Value)
    (block : Value) : Prop where
  readable : ∃ ns, read t = .ok ns
  comment_parts : ∀ c ∈ comments, ∃ u, partsOf c = [[.token {} (.comment u)]]
  parts : ∃ us, IsUpToBlank (Value.unplacedAll (stem selector)) us ∧
    partsOf t = comments.flatMap partsOf ++ [us ++ [block.unplaced]]

theorem isRemark_of_commentsAbove {source : Text} {ns : List Node} {ss ss' : List Spelled}
    {s : Spelled} (hread : read source = .ok ns)
    (h : spell source (lineTable isBreak source) ns = ss ++ s :: ss')
    (hplain : ∀ n ∈ (ss ++ [s]).map (·.node), IsPlainAbove source n) :
    ∀ c ∈ (commentsAbove ss).map (·.2), IsRemark c := by
  intro c hc
  obtain ⟨-, ⟨x, hx, rfl⟩, rfl⟩ :
      ∃ e, (∃ x ∈ (ss.rtakeWhile (·.isNear)).filter (·.isComment), (x.start, x.text) = e) ∧
        e.2 = c := by
    simpa [commentsAbove] using hc
  obtain ⟨hmem, hcomment⟩ := List.mem_filter.mp hx
  obtain ⟨pre, post, rfl⟩ := List.append_of_mem ((List.rtakeWhile_suffix _ _).subset hmem)
  rw [List.append_assoc, List.cons_append] at h
  have hns := congrArg (List.map (·.node)) h
  rw [map_node_spell, List.map_append, List.map_cons] at hns
  have htext := (spelled_eq hread h fun n hn => hplain n ?_).2
  · obtain ⟨p, hp⟩ : ∃ p, x.node = .comment p := by
      unfold Spelled.isComment at hcomment
      split at hcomment
      · next p heq => exact ⟨p, heq⟩
      · contradiction
    obtain ⟨es, us, es', hmade, -, hes'⟩ := exists_made (hns ▸ hread)
    rw [hp] at hmade htext
    change IsRemark x.text
    rw [htext, ← hes']
    refine isRemark_of_comment hread hmade ?_
    rintro rfl
    simp at hes'
  · refine List.map_subset _ ?_ hn
    cases post <;> simp

theorem readable_of_parts {t : Text}
    (h : ∀ us ∈ partsOf t, (∃ v ∈ us, v.isBraces) ∨ ∃ u, us = [.token {} (.comment u)]) :
    ∃ ns, read t = .ok ns := by
  refine ⟨_, read_of_broken rfl (broken?_eq_none fun us hus => ?_)⟩
  rcases h (Value.unplacedAll us) (List.mem_map_of_mem hus) with ⟨v, hv, hbraces⟩ | ⟨u, hu⟩
  · rw [Value.unplacedAll_eq] at hv
    obtain ⟨w, hw, rfl⟩ := List.mem_map.mp hv
    exact .inl ⟨w, hw, by rwa [Value.isBraces_unplaced] at hbraces⟩
  · rw [Value.unplacedAll_eq] at hu
    obtain ⟨v, rfl, hv⟩ := List.map_eq_singleton_iff.mp hu
    cases v with
    | token p t =>
      obtain ⟨-, rfl⟩ := Value.token.inj hv
      exact .inr ⟨p, u, rfl⟩
    | block p c inside => contradiction
    | function p n inside => contradiction

/-- Every rule that is extracted comes from a node of the sheet, and if that is printable the text
printed for it reads as the comments kept and the same rule. -/
theorem render_readsAs {source : Text} {ns : List Node} (hread : read source = .ok ns)
    {name : Text} {r : Rule} (hr : (extract source ns).table.get? name = some r)
    (hkind : r.kind = "rule".toList) :
    ∃ ss s ss' p selector block pre post,
      spell source (lineTable isBreak source) ns = ss ++ s :: ss' ∧
      s.node = .rule p selector ∧
      made (Value.ofText source true) = pre ++ (s.node, selector ++ [block]) :: post ∧
      pre.map (·.1) = ss.map (·.node) ∧ block.isBraces ∧
      r = (build (canonical selector) true s.start s.text.trimEnd (commentsAbove ss)).1 ∧
      (Printable source ss s ss' selector block →
        ReadsAs (render r none) r.comments selector block) := by
  obtain ⟨ss, s, ss', p, selector, hspell, hnode, hbuild⟩ := exists_spelled hr hkind
  have hns := congrArg (List.map (·.node)) hspell
  rw [map_node_spell, List.map_append, List.map_cons] at hns
  obtain ⟨pre, us, post, hmade, hpre, hpost⟩ := exists_made (hns ▸ hread)
  rw [hnode] at hmade
  obtain ⟨head, tail, block, lst, lbl, lbk, ms, rfl, hselector, hblock, hlaid, hhead, htail,
    hbrace, hstretch, hcut⟩ :=
    exists_stretch hread hmade
  refine ⟨ss, s, ss', p, selector, block, pre, post, hspell, hnode, by rw [hnode, hmade], hpre,
    hblock, hbuild, fun h => ?_⟩
  obtain ⟨hstart, htext⟩ := spelled_eq hread hspell fun n hn => h.plain n (by
    rw [List.map_append]
    exact List.mem_append_right _ hn)
  rw [← hpost, hnode, hstretch] at htext
  rw [hnode] at hstart
  have hremarks : ∀ c ∈ r.comments, IsRemark c := by
    intro c hc
    rw [hbuild] at hc
    refine isRemark_of_commentsAbove hread hspell (fun n hn => h.plain n ?_) c
      (List.mem_filter.mp hc).1
    refine List.map_subset _ (List.append_subset.mpr ⟨List.subset_append_left _ _, ?_⟩) hn
    simp
  have hparts : ∃ us, IsUpToBlank (Value.unplacedAll (stem selector)) us ∧
      partsOf (rejoined s.text) = [us ++ [block.unplaced]] := by
    rcases h.joins with hsame | hrejoins
    · rw [hsame, htext]
      exact ⟨_, isUpToBlank_unplaced selector,
        hlaid.partsOf_append hselector hblock hhead htail hbrace⟩
    · rw [hstart, hcut] at hrejoins
      rw [htext, rejoined_append hrejoins.not_brace hbrace]
      exact hlaid.partsOf_rejoined hselector hblock hhead htail hrejoins
  obtain ⟨us, hus, hparts⟩ := hparts
  have hall : partsOf (render r none) = r.comments.flatMap partsOf ++ [us ++ [block.unplaced]] := by
    rw [render_build _ _ _ _ r hbuild, h.ends, partsOf_unlines hremarks, hparts]
  refine ⟨readable_of_parts ?_, fun c hc => (hremarks c hc).exists_partsOf, us, hus, hall⟩
  rw [hall]
  intro vs hvs
  rcases List.mem_append.mp hvs with hvs | hvs
  · obtain ⟨c, hc, hvs⟩ := List.mem_flatMap.mp hvs
    obtain ⟨u, hu⟩ := (hremarks c hc).exists_partsOf
    rw [hu] at hvs
    exact .inr ⟨u, List.mem_singleton.mp hvs⟩
  · rw [List.mem_singleton.mp hvs]
    exact .inl ⟨block.unplaced, by simp, by rwa [Value.isBraces_unplaced]⟩

/-- A comment stays, and a tab before the block becomes a space. -/
theorem render_readsAs_tab :
    let source : Text := "/* x */\na >b\t\x7b c \x7d\n".toList
    ∃ ns r selector block,
      read source = .ok ns ∧ (extract source ns).table.get? "a >b".toList = some r ∧
      r.kind = "rule".toList ∧ r.comments = ["/* x */".toList] ∧
        render r none = "/* x */\na >b \x7b c \x7d".toList ∧
      ReadsAs (render r none) r.comments selector block := by
  intro source
  have hvalues := ofText_eq_shut source
  have hread := read_of_shut source (by decide +kernel)
  have hrule : ∃ r ∈ (extract source (nodes (Value.ofText source true))).table.get? "a >b".toList,
      r.kind = "rule".toList ∧ r.comments = ["/* x */".toList] ∧
      render r none = "/* x */\na >b \x7b c \x7d".toList := by
    rw [hvalues]
    decide +kernel
  obtain ⟨r, hr, hkind, hcomments, hrender⟩ := hrule
  obtain ⟨ss, s, ss', p, selector, block, pre, post, hspell, hnode, hmade, -, hbraces, -, hreads⟩ :=
    render_readsAs hread hr hkind
  have hplain : ∀ n ∈ nodes (Value.ofText source true), IsPlainAbove source n := by
    rw [hvalues]
    decide +kernel
  have hspelled : ∀ s ∈ spell source (lineTable isBreak source) (nodes (Value.ofText source true)),
      s.title?.isSome →
      s.start = 8 ∧ s.text.trimEnd = s.text := by
    rw [hvalues]
    decide +kernel
  have hparts : ∀ e ∈ made (Value.ofText source true), e.2.getLast?.any Value.isBraces →
      lastBlank e.2.dropLast = ['\t'] ∧ (stem e.2.dropLast).getLast?.map Value.kind = some "ident" ∧
        e.2.getLast?.map
          (fun b => source.slice 8 (offsetOf (lineTable isSheetEnd source) b.place)) =
          some "a >b\t".toList := by
    rw [hvalues]
    decide +kernel
  have hmem : s ∈ spell source (lineTable isBreak source) (nodes (Value.ofText source true)) := by
    rw [hspell]
    simp
  obtain ⟨hstart, hends⟩ := hspelled s hmem (by rw [Spelled.title?, hnode]; rfl)
  obtain ⟨hblank, hlast, hhead⟩ :=
    hparts (s.node, selector ++ [block]) (by rw [hmade]; simp) (by simp [hbraces])
  dsimp only at hblank hlast hhead
  rw [List.dropLast_concat] at hblank hlast
  rw [List.getLast?_concat, Option.map_some, Option.some.injEq] at hhead
  refine ⟨_, r, selector, block, hread, hr, hkind, hcomments, hrender,
    hreads ⟨fun n hn => hplain n ?_, hends, .inr ?_⟩⟩
  · have hns := congrArg (List.map (·.node)) hspell
    rw [map_node_spell] at hns
    rw [hns]
    refine List.map_subset _ (List.append_subset.mpr ⟨by simp, ?_⟩) hn
    exact List.Subset.trans (List.cons_subset_cons s (List.take_subset 1 ss'))
      (List.subset_append_right ss _)
  · rw [hstart, hhead]
    refine ⟨by decide, ⟨['\t'], by decide, .inl (by rw [hblank]; rfl)⟩, fun p hp => ?_,
      fun p hp => ?_⟩
    · rw [hp] at hlast
      exact absurd (Option.some.inj hlast) (show "error" ≠ "ident" by decide)
    · rw [hp] at hlast
      exact absurd (Option.some.inj hlast) (show "\\" ≠ "ident" by decide)

/-- The selector is cut at the brace in its string, and the space comes to stand there. -/
theorem render_splits_string :
    let source : Text := "a[x=\"\x7b\"] \x7b\x7d\n".toList
    ∃ ns r selector block,
      read source = .ok ns ∧ (extract source ns).table.get? "a[x=\"\x7b\"]".toList = some r ∧
      r.kind = "rule".toList ∧ r.comments = [] ∧ partsOf source = [selector ++ [block]] ∧
      ¬ReadsAs (render r none) r.comments selector block := by
  intro source
  have hvalues := ofText_eq_shut source
  have hread := read_of_shut source (by decide +kernel)
  have hrule :
      ∃ r ∈ (extract source (nodes (Value.ofText source true))).table.get? "a[x=\"\x7b\"]".toList,
      r.kind = "rule".toList ∧ r.comments = [] ∧
        render r none = "a[x=\" \x7b\"] \x7b\x7d".toList := by
    rw [hvalues]
    decide +kernel
  obtain ⟨r, hr, hkind, hcomments, hrender⟩ := hrule
  have hparts : (partsOf source).length = 1 ∧ ∀ us ∈ partsOf source, us.isEmpty = false ∧
      2 ≤ (Value.unplacedAll (stem us.dropLast)).length ∧
      Value.serialize ((Value.unplacedAll (stem us.dropLast)).take 2) = "a[x=\"\x7b\"]".toList := by
    rw [partsOf, hvalues]
    decide +kernel
  have hprinted : ∀ us ∈ partsOf "a[x=\" \x7b\"] \x7b\x7d".toList,
      Value.serialize (us.take 2) = "a[x=\" \x7b\"]".toList := by
    rw [partsOf, ofText_eq_shut]
    decide +kernel
  obtain ⟨hlength, hall⟩ := hparts
  obtain ⟨us, hus⟩ := List.length_eq_one_iff.mp hlength
  obtain ⟨hne, htwo, hshown⟩ := hall us (by simp [hus])
  obtain ⟨selector, block, rfl⟩ : ∃ selector block, us = selector ++ [block] := by
    rcases List.eq_nil_or_concat us with rfl | ⟨selector, block, rfl⟩
    · contradiction
    · exact ⟨selector, block, List.concat_eq_append⟩
  rw [List.dropLast_concat] at htwo hshown
  refine ⟨_, r, selector, block, hread, hr, hkind, hcomments, hus, fun h => ?_⟩
  obtain ⟨us, hupTo, heq⟩ := h.parts
  rw [hcomments, hrender] at heq
  have htake := hprinted (us ++ [block.unplaced]) (by rw [heq]; simp)
  have hsame : (us ++ [block.unplaced]).take 2 = (Value.unplacedAll (stem selector)).take 2 := by
    rcases hupTo with rfl | ⟨b, rfl⟩
    · exact List.take_append_of_le_length htwo
    · rw [List.append_assoc]
      exact List.take_append_of_le_length htwo
  rw [hsame, hshown] at htake
  exact absurd htake (by decide)

end Graft.Style
