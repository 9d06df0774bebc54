import Graft.Proofs.Style.Firm

set_option autoImplicit false

/-!
What a text is read as: each comment and rule with all its values, wherever it stands.
-/

namespace Graft.Style

open Lexeme

/-- The values of every node but the blanks. -/
def contents (vs : List Value) : List (List Value) :=
  ((made vs).filter (!isBlankNode ·.1)).map (·.2)

theorem contents_nil : contents [] = [] := by rw [contents, made]; rfl

theorem contents_blank (p : Place) (t : Text) (vs : List Value) :
    contents (.token p (.blank t) :: vs) = contents vs := by
  rw [contents, made]
  rfl

theorem contents_comment (p : Place) (t : Text) (vs : List Value) :
    contents (.token p (.comment t) :: vs) = [.token p (.comment t)] :: contents vs := by
  rw [contents, made]
  rfl

theorem contents_append_hidden {ms : List Value} (h : ∀ m ∈ ms, isHidden m) (vs : List Value) :
    contents (ms ++ vs) = contents vs := by
  rw [contents, made_append_hidden h, contents]

theorem contents_atRule (p : Place) (n : Text) (vs : List Value) :
    contents (.token p (.atKeyword n) :: vs) =
    (.token p (.atKeyword n) :: (before endsAtRule vs ++ (fromEnd endsAtRule vs).take 1)) ::
      contents (fromEnd endsAtRule vs).tail := by
  rw [contents, made]
  rfl

theorem contents_cons {v : Value} (h : startsRule v) (vs : List Value) : contents (v :: vs) =
    if v.isBraces then [v] :: contents vs
    else (v :: (before Value.isBraces vs ++ (fromEnd Value.isBraces vs).take 1)) ::
      contents (fromEnd Value.isBraces vs).tail := by
  have hrule : isBlankNode (ruleNode v vs) = false := by
    unfold ruleNode
    dsimp only
    split <;> rfl
  rw [contents, made_cons (.inl h), isHidden_of_startsRule h]
  cases hv : v.isBraces
  · simp [contents, hrule]
  · simp [contents, isBlankNode]

theorem contents_rule {selector : List Value} {block : Value}
    (hstarts : ∀ v ∈ selector.head?, startsRule v) (hselector : ∀ v ∈ selector, v.isBraces = false)
    (hblock : block.isBraces) (vs : List Value) :
    contents (selector ++ block :: vs) = (selector ++ [block]) :: contents vs := by
  rw [contents, made_rule hstarts hselector hblock]
  rfl

namespace Value

theorem isLiteral_unplaced (s : String) (v : Value) : v.unplaced.isLiteral s = v.isLiteral s := by
  cases v with
  | token p t => cases t <;> rfl
  | _ => rfl

theorem isBraces_unplaced (v : Value) : v.unplaced.isBraces = v.isBraces := by
  cases v with
  | block p c inside =>
    by_cases hc : c = '\x7b'
    · subst hc
      rfl
    · simp [unplaced, isBraces, hc]
  | _ => rfl

end Value

theorem isHidden_unplaced (v : Value) : isHidden v.unplaced = isHidden v := by
  rw [isHidden, isHidden, Value.isLiteral_unplaced, Value.isLiteral_unplaced]

theorem hidden_unplaced {ms : List Value} (h : ∀ m ∈ ms, isHidden m) :
    ∀ m ∈ Value.unplacedAll ms, isHidden m := by
  rw [Value.unplacedAll_eq]
  intro m hm
  obtain ⟨v, hv, rfl⟩ := List.mem_map.mp hm
  rw [isHidden_unplaced]
  exact h v hv

theorem endsAtRule_unplaced (v : Value) : endsAtRule v.unplaced = endsAtRule v := by
  rw [endsAtRule, endsAtRule, Value.isBraces_unplaced, Value.isLiteral_unplaced]

theorem startsRule_unplaced (v : Value) : startsRule v.unplaced = startsRule v := by
  cases v with
  | token p t => cases t <;> rfl
  | _ => rfl

section Unplaced

open Value

variable {isEnd : Value → Bool}

theorem before_unplaced (h : ∀ v, isEnd v.unplaced = isEnd v) (vs : List Value) :
    before isEnd (unplacedAll vs) ++ (fromEnd isEnd (unplacedAll vs)).take 1 =
        unplacedAll (before isEnd vs ++ (fromEnd isEnd vs).take 1) ∧
      (fromEnd isEnd (unplacedAll vs)).tail = unplacedAll (fromEnd isEnd vs).tail := by
  have heq : (fun v => !isEnd v) ∘ unplaced = fun v => !isEnd v :=
    funext fun v => congrArg (!·) (h v)
  simp only [before, fromEnd, unplacedAll_eq, List.takeWhile_map, List.dropWhile_map, heq,
    List.map_append, List.map_take, List.map_tail, and_self]

theorem contents_unplaced (vs : List Value) :
    contents (unplacedAll vs) = (contents vs).map unplacedAll := by
  fun_induction made vs with
  | case1 => rw [unplacedAll, contents_nil, List.map_nil]
  | case2 p t vs ih => rw [unplacedAll, unplaced, contents_blank, contents_blank, ih]
  | case3 p t vs ih =>
    rw [unplacedAll, unplaced, contents_comment, contents_comment, ih]
    rfl
  | case4 p n vs hlength ih =>
    obtain ⟨hbefore, htail⟩ := before_unplaced endsAtRule_unplaced vs
    rw [unplacedAll, unplaced, contents_atRule, contents_atRule, hbefore, htail, ih]
    rfl
  | case5 v vs hblank hcomment hkeyword hhidden ih =>
    have hskip : contents ([v] ++ vs) = contents vs :=
      contents_append_hidden (by simpa using hhidden) vs
    have hskip' : contents ([v.unplaced] ++ unplacedAll vs) = contents (unplacedAll vs) :=
      contents_append_hidden (by simpa [isHidden_unplaced] using hhidden) (unplacedAll vs)
    exact hskip'.trans (ih.trans (congrArg (List.map unplacedAll) hskip.symm))
  | case6 v vs hblank hcomment hkeyword hhidden hbraces ih =>
    have hstarts := startsRule_of_isBraces hbraces
    rw [unplacedAll, contents_cons (by rw [startsRule_unplaced, hstarts]), contents_cons hstarts,
      isBraces_unplaced, if_pos hbraces, if_pos hbraces, ih]
    rfl
  | case7 v vs hblank hcomment hkeyword hhidden hbraces hlength ih =>
    have hstarts := startsRule_of hblank hcomment hkeyword hhidden
    obtain ⟨hbefore, htail⟩ := before_unplaced isBraces_unplaced vs
    rw [unplacedAll, contents_cons (by rw [startsRule_unplaced, hstarts]), contents_cons hstarts,
      isBraces_unplaced, if_neg hbraces, if_neg hbraces, hbefore, htail, ih]
    rfl

end Unplaced

theorem of_broken_made {vs us : List Value} {p : Place} (h : (.broken p, us) ∈ made vs) :
    (∀ v ∈ us, v.isBraces = false) ∧ ∃ v ∈ us.head?, startsRule v := by
  fun_induction made vs with
  | case1 => contradiction
  | case2 p t vs ih => exact ih ((List.mem_cons.mp h).resolve_left (by simp))
  | case3 p t vs ih => exact ih ((List.mem_cons.mp h).resolve_left (by simp))
  | case4 p n vs hlength ih => exact ih ((List.mem_cons.mp h).resolve_left (by simp))
  | case5 v vs hblank hcomment hkeyword hhidden ih => exact ih h
  | case6 v vs hblank hcomment hkeyword hhidden hbraces ih =>
    exact ih ((List.mem_cons.mp h).resolve_left (by simp))
  | case7 v vs hblank hcomment hkeyword hhidden hbraces hlength ih =>
    rcases List.mem_cons.mp h with heq | h
    · obtain ⟨hnode, rfl⟩ := Prod.mk.inj heq
      refine ⟨?_, v, rfl, startsRule_of hblank hcomment hkeyword hhidden⟩
      unfold ruleNode at hnode
      dsimp only at hnode
      split at hnode
      · next hnil =>
        rw [List.isEmpty_iff.mp hnil, List.take_nil, List.append_nil]
        refine List.forall_mem_cons.mpr ⟨by simpa using hbraces, fun u hu => ?_⟩
        simpa using List.mem_takeWhile_imp hu
      · contradiction
    · exact ih h

theorem broken?_eq_none {vs : List Value}
    (h : ∀ us ∈ contents vs, (∃ v ∈ us, v.isBraces) ∨ ∃ p t, us = [.token p (.comment t)]) :
    broken? (nodes vs) = none := by
  refine List.findSome?_eq_none_iff.mpr fun n hn => ?_
  rw [← map_fst_made] at hn
  obtain ⟨⟨n, us⟩, hmem, rfl⟩ := List.mem_map.mp hn
  cases n with
  | broken p =>
    obtain ⟨hnone, v, hv, hstarts⟩ := of_broken_made hmem
    rcases h us (List.mem_map.mpr ⟨_, List.mem_filter.mpr ⟨hmem, rfl⟩, rfl⟩) with
      ⟨w, hw, hbraces⟩ | ⟨q, t, rfl⟩
    · rw [hnone w hw] at hbraces
      contradiction
    · obtain rfl := Option.some.inj hv
      contradiction
  | _ => rfl

/-- The values of every comment and rule of a text. -/
def partsOf (t : Text) : List (List Value) := (contents (Value.ofText t true)).map Value.unplacedAll

/-- The same, of a text with its line ends as newlines. -/
def partsFrom (t : Text) : List (List Value) :=
  contents (Value.nest [] [] ((tokensOf (lexemes t)).map (Prod.mk {})))

theorem partsOf_eq (t : Text) : partsOf t = partsFrom (preprocess t) := by
  rw [partsOf, ← contents_unplaced, ofText_eq, tokensFrom_eq, Value.unplacedAll_nest,
    map_placed, partsFrom]

theorem partsFrom_append {ls ls' : List Lexeme} {t : Text} {vs : List Value}
    (h : lexemes t = ls ++ ls') (htells : Tells ls ls' vs) :
    partsFrom t = contents (vs ++ Value.nest [] [] ((tokensOf ls').map (Prod.mk {}))) := by
  rw [partsFrom, h, tokensOf_append, List.map_append, Value.Spells.nest_append htells]

theorem partsFrom_dropWhile (t : Text) : partsFrom (t.dropWhile isSpace) = partsFrom t := by
  cases t with
  | nil => rfl
  | cons c t =>
    by_cases hc : isSpace c
    · obtain ⟨w, -, hlexemes⟩ := exists_lexemes_eq (front_space hc t)
      have htells : Tells [⟨c :: w, [.blank ((c :: t).takeWhile isSpace)]⟩]
          (lexemes ((c :: t).dropWhile isSpace))
          [.token {} (.blank ((c :: t).takeWhile isSpace))] := ⟨Value.nest_top _, .inr rfl⟩
      rw [partsFrom_append hlexemes htells, List.singleton_append, contents_blank, partsFrom]
    · rw [List.dropWhile_cons_of_neg hc]

theorem partsOf_newline (t : Text) : partsOf ('\n' :: t) = partsOf t := by
  have hfeed : preprocess ('\n' :: t) = '\n' :: preprocess t := preprocess_cons (by simp)
  rw [partsOf_eq, partsOf_eq, hfeed, ← partsFrom_dropWhile, List.dropWhile_cons_of_pos rfl,
    partsFrom_dropWhile]

theorem isWhole_of_firm {ls : List Lexeme} {c : Text} (h : Firm ls) (hc : textOf ls = preprocess c)
    (t : Text) :
    Text.IsWhole c t := by
  rintro ⟨hlast, -⟩
  obtain ⟨c, rfl⟩ := List.getLast?_eq_some_iff.mp hlast
  rw [preprocess_append (by simp [Text.IsWhole])] at hc
  have hfeed := h.last '\n' (by rw [hc, List.getLast?_append]; rfl)
  contradiction

/-- A text that is read as one comment, whatever follows it. -/
def IsRemark (c : Text) : Prop :=
  ∃ ls u ms, textOf ls = preprocess c ∧ Firm ls ∧
    (∀ rest, Tells ls rest (.token {} (.comment u) :: ms)) ∧
    ∀ m ∈ ms, isHidden m

theorem IsRemark.partsOf_append {c : Text} (h : IsRemark c) :
    ∃ u, ∀ t, partsOf (c ++ t) = [.token {} (.comment u)] :: partsOf t := by
  obtain ⟨ls, u, ms, htext, hfirm, htells, hms⟩ := h
  refine ⟨u, fun t => ?_⟩
  have hlexemes : lexemes (preprocess (c ++ t)) = ls ++ lexemes (preprocess t) := by
    rw [preprocess_append (isWhole_of_firm hfirm htext t), ← htext, hfirm.lexemes_append]
  rw [partsOf_eq, partsFrom_append hlexemes (htells _), List.cons_append, contents_comment,
    contents_append_hidden hms, partsOf_eq]
  rfl

theorem partsOf_nil : partsOf [] = [] := by
  rw [partsOf_eq, preprocess, partsFrom, lexemes_nil, tokensOf, List.flatMap_nil, List.map_nil,
    Value.nest_top]
  exact contents_nil

theorem IsRemark.exists_partsOf {c : Text} (h : IsRemark c) :
    ∃ u, partsOf c = [[.token {} (.comment u)]] := by
  obtain ⟨u, happend⟩ := h.partsOf_append
  have hnil := happend []
  rw [List.append_nil, partsOf_nil] at hnil
  exact ⟨u, hnil⟩

theorem partsOf_unlines {cs : List Text} (h : ∀ c ∈ cs, IsRemark c) (t : Text) :
    partsOf (Text.unlines (cs ++ [t])) = cs.flatMap partsOf ++ partsOf t := by
  rw [Text.unlines_concat]
  induction cs with
  | nil => rfl
  | cons c cs ih =>
    obtain ⟨hc, hcs⟩ := List.forall_mem_cons.mp h
    obtain ⟨u, happend⟩ := hc.partsOf_append
    have hnil := happend []
    rw [List.append_nil, partsOf_nil] at hnil
    rw [List.flatMap_cons, List.append_assoc, List.append_assoc, happend, List.singleton_append,
      partsOf_newline, ih hcs, List.flatMap_cons, hnil]
    rfl

end Graft.Style
