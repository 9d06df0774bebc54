import Graft.Proofs.Style.Follow
import Graft.Proofs.Style.Nesting
import Graft.Proofs.Tables

set_option autoImplicit false

/-!
Nodes and the texts they are read from. A node is made of values that stand together, values of
tokens and tokens of characters, so wherever a node starts the source can be cut: what is read from
there on is the node and those behind it.
-/

namespace Graft.Style

open Text Lexeme

variable {a b source t : Text} {p : Place} {ls : List Lexeme} {ts : List (Place × Token)}
  {us vs : List Value} {n : Node} {v : Value} {es es' : List (Node × List Value)} {ns : List Node}

/-- The characters that end a line of a sheet. -/
def isSheetEnd (c : Char) : Bool := c == '\n' || c == '\r' || c == '\x0c'

theorem isRule_isSheetEnd : IsRule isSheetEnd where
  feed := by decide
  ret := by decide
  isBreak c h := by
    rcases (by simpa [isSheetEnd, or_assoc] using h : c = '\n' ∨ c = '\r' ∨ c = '\x0c') with
      rfl | rfl | rfl <;> decide

def Place.toPair (p : Place) : Nat × Nat := (p.line, p.column)

theorem preprocess_cons {c : Char} (h : ∀ u, c = '\r' → t = '\n' :: u → False) :
    preprocess (c :: t) =
    (if c == '\r' || c == '\x0c' then '\n'
      else if c == Char.ofNat 0 then Char.ofNat 0xfffd else c) :: preprocess t := by
  rw [preprocess]
  exact h

theorem after_preprocess (p : Place) (t : Text) :
    (p.after (preprocess t)).toPair = walk isSheetEnd p.toPair t := by
  fun_induction preprocess t generalizing p with
  | case1 => rfl
  | case2 t ih => exact ih ⟨p.line + 1, 1⟩
  | case3 c t hnot ih =>
    have hfeed : ((if c == '\r' || c == '\x0c' then '\n'
        else if c == Char.ofNat 0 then Char.ofNat 0xfffd else c) == '\n') = isSheetEnd c := by
      unfold isSheetEnd
      split
      · next hc => simp [Bool.or_assoc, hc]
      · next hc =>
        have hc' : (c == '\r') = false ∧ (c == '\x0c') = false := by simpa using hc
        split
        · next hnull => rw [eq_of_beq hnull]; decide
        · simp [hc']
    have hstep : ∀ d u, p.after (d :: u) =
        (if d == '\n' then (⟨p.line + 1, 1⟩ : Place) else ⟨p.line, p.column + 1⟩).after u :=
      fun _ _ => rfl
    rw [walk_cons _ hnot, hstep, hfeed, ih]
    cases isSheetEnd c <;> rfl

theorem exists_of_preprocess_eq {x y : Text} (h : preprocess t = x ++ y) :
    ∃ a b, t = a ++ b ∧ IsWhole a b ∧ preprocess a = x ∧ preprocess b = y := by
  fun_induction preprocess t generalizing x with
  | case1 =>
    obtain ⟨rfl, rfl⟩ := List.append_eq_nil_iff.mp h.symm
    exact ⟨[], [], rfl, by simp [IsWhole], rfl, rfl⟩
  | case2 t ih =>
    cases x with
    | nil => exact ⟨[], '\r' :: '\n' :: t, rfl, by simp [IsWhole], rfl, by rw [preprocess, h]; rfl⟩
    | cons d x =>
      obtain ⟨rfl, hrest⟩ := List.cons.inj h
      obtain ⟨a, b, rfl, hwhole, rfl, rfl⟩ := ih hrest
      exact ⟨'\r' :: '\n' :: a, b, rfl, (hwhole.cons (by simp)).cons (by simp), rfl, rfl⟩
  | case3 c t hnot ih =>
    cases x with
    | nil => exact ⟨[], c :: t, rfl, by simp [IsWhole], rfl, by rw [preprocess_cons hnot, h]; rfl⟩
    | cons d x =>
      obtain ⟨hd, hrest⟩ := List.cons.inj h
      obtain ⟨a, b, rfl, hwhole, rfl, rfl⟩ := ih hrest
      have hpair : ∀ u, c = '\r' → a = '\n' :: u → False := fun u hreturn hfeed =>
        hnot (u ++ b) hreturn (by rw [hfeed, List.cons_append])
      refine ⟨c :: a, b, rfl, hwhole.cons fun hnil hreturn hfeed => ?_,
        by rw [preprocess_cons hpair, ← hd], rfl⟩
      obtain ⟨b, rfl⟩ := List.head?_eq_some_iff.mp hfeed
      exact hnot b hreturn (by rw [hnil, List.nil_append])

theorem preprocess_append (h : IsWhole a b) :
    preprocess (a ++ b) = preprocess a ++ preprocess b := by
  fun_induction preprocess a with
  | case1 => rfl
  | case2 a ih =>
    rw [List.cons_append, List.cons_append, preprocess, ih h.of_cons.of_cons, List.cons_append]
  | case3 c a hnot ih =>
    rw [List.cons_append, preprocess_cons (h.not_pair hnot), ih h.of_cons, List.cons_append]

theorem eq_nil_of_preprocess (h : preprocess t = []) : t = [] := by
  fun_cases preprocess t with
  | case1 => rfl
  | case2 t =>
    rw [preprocess] at h
    contradiction
  | case3 c t hnot =>
    rw [preprocess_cons hnot] at h
    contradiction

theorem eq_nil_of_stringIn {quote : Char} {r : Text} (h : (stringIn quote t).2 = (.cut, r)) :
    r = [] := by
  induction hlength : t.length using Nat.strongRecOn generalizing t with
  | ind k ih =>
    subst hlength
    cases t with
    | nil => exact (Prod.mk.inj h).2.symm
    | cons c t =>
      rw [stringIn_cons, stringStep] at h
      split at h
      · simp at h
      · split at h
        · simp at h
        · split at h
          · split at h
            · exact (Prod.mk.inj h).2.symm
            · split at h
              · exact ih _ (Nat.lt_succ_of_le (List.drop_suffix 1 t).length_le) h rfl
              · exact ih _ (Nat.lt_succ_of_le (escape_suffix t).length_le) h rfl
          · exact ih _ (Nat.lt_succ_self _) h rfl

def isCutFlaw (t : Token) : Bool := t == .flaw .openString || t == .flaw .openUrl

theorem isCutFlaw_iff {t : Token} : isCutFlaw t ↔ t = .flaw .openString ∨ t = .flaw .openUrl := by
  simp [isCutFlaw]

/-- One token, or one that the end of the text cuts off and its flaw. -/
def IsOne (found : List Token × Text) : Prop :=
  (∃ t, found.1 = [t]) ∨ ∃ t f, found.1 = [t, f] ∧ isCutFlaw f ∧ found.2 = []

theorem IsOne.one (u : Token) (r : Text) : IsOne ([u], r) := .inl ⟨u, rfl⟩

theorem IsOne.ite {P : Prop} [Decidable P] {a b : List Token × Text} (ha : IsOne a) (hb : IsOne b) :
    IsOne (if P then a else b) := by
  split
  · exact ha
  · exact hb

theorem isOne_stringTokens (quote : Char) (t : Text) : IsOne (stringTokens quote t) := by
  rw [stringTokens_eq]
  rcases heq : (stringIn quote t).2 with ⟨_ | _ | _, rest⟩
  · exact .one _ _
  · exact .inr ⟨_, _, rfl, rfl, eq_nil_of_stringIn heq⟩
  · exact .one _ _

theorem isOne_urlTokens (t : Text) : IsOne (urlTokens t) := by
  rw [urlTokens_eq]
  rcases heq : (urlIn (t.dropWhile isSpace)).2 with ⟨_ | _ | _, rest⟩
  · exact .one _ _
  · exact .inr ⟨_, _, rfl, rfl, eq_nil_of_cut heq⟩
  · exact .one _ _

theorem isOne_front (c : Char) (t : Text) : IsOne (front c t) := by
  refine .ite (.one _ _) <| .ite ?_ <| .ite (.one _ _) <| .ite ?_ ?_
  · rw [rangeTokens_eq]
    exact .ite (.one _ _) <| .ite (.one _ _) (.one _ _)
  · rw [nameTokens_eq]
    exact .ite (.ite (isOne_urlTokens _) (.one _ _)) (.one _ _)
  · split
    · exact .ite (.one _ _) <| .ite (.one _ _) (.one _ _)
    · refine .ite (.ite (.one _ _) (.one _ _)) <| .ite (.ite (.one _ _) (.one _ _)) <|
        .ite (.one _ _) <|
        .ite (.one _ _) <| .ite (isOne_stringTokens _ _) <| .ite (.one _ _) <| .ite (.one _ _) <|
          .ite (.one _ _) <|
        .ite (.one _ _) (.one _ _)

theorem exists_tokensFrom_cons (p : Place) (c : Char) (t : Text) :
    ∃ u ts, tokensFrom p (c :: t) = (p, u) :: ts := by
  obtain ⟨w, r, ts, rfl, hfront⟩ := exists_front c t
  have hone := isOne_front c (w ++ r)
  rw [hfront] at hone
  rw [tokensFrom_eq, lexemes_cons hfront, placed]
  rcases hone with ⟨u, rfl⟩ | ⟨u, f, rfl, -⟩ <;> exact ⟨u, _, rfl⟩

theorem eq_nil_of_tokensFrom (h : tokensFrom p t = []) : t = [] := by
  cases t with
  | nil => rfl
  | cons c t =>
    obtain ⟨u, ts, heq⟩ := exists_tokensFrom_cons p c t
    rw [heq] at h
    contradiction

theorem lexemes_of_append {ls' : List Lexeme} (h : lexemes t = ls ++ ls') :
    t = textOf ls ++ textOf ls' ∧ lexemes (textOf ls') = ls' := by
  have ht : t = textOf (ls ++ ls') := by rw [← h, textOf_lexemes]
  refine ⟨by rw [ht, textOf, List.flatMap_append]; rfl, ?_⟩
  induction ls generalizing t with
  | nil =>
    rw [List.nil_append] at h ht
    rw [← ht, h]
  | cons l ls ih =>
    rw [ht] at h
    obtain ⟨c, w, -, -, hrest⟩ := front_of_lexemes (r := textOf (ls ++ ls')) h
    exact ih hrest rfl

theorem lexemes_self (h : lexemes t = ls) : lexemes (textOf ls) = ls := by
  rw [← h, textOf_lexemes]

theorem lexemes_tail {l : Lexeme} (h : lexemes t = l :: ls) : lexemes (textOf ls) = ls :=
  (lexemes_of_append (show lexemes t = [l] ++ ls from h)).2

theorem exists_of_tokensFrom_eq {ts' : List (Place × Token)} (h : tokensFrom p t = ts ++ ts')
    (hcut : ∀ e f, ts' = [(e, f)] → isCutFlaw f = false) :
    ∃ ls ls', lexemes t = ls ++ ls' ∧ placed p ls = ts ∧
      placed (p.after (textOf ls)) ls' = ts' := by
  induction t using lexemes_induction generalizing p ts with
  | nil =>
    rw [tokensFrom] at h
    obtain ⟨rfl, rfl⟩ := List.append_eq_nil_iff.mp h.symm
    exact ⟨[], [], lexemes_nil, rfl, rfl⟩
  | cons c w r found hfront ih =>
    rw [tokensFrom_eq, lexemes_cons hfront, placed] at h
    have hone := isOne_front c (w ++ r)
    rw [hfront] at hone
    cases ts with
    | nil => exact ⟨[], _, rfl, rfl, by rw [lexemes_cons hfront, placed]; exact h⟩
    | cons e ts =>
      rcases hone with ⟨t, rfl⟩ | ⟨t, f, rfl, hf, rfl⟩
      · obtain ⟨rfl, hrest⟩ := List.cons.inj h
        obtain ⟨ls, ls', heq, hls, hls'⟩ := ih ((tokensFrom_eq _ _).trans hrest)
        refine ⟨⟨c :: w, [t]⟩ :: ls, ls',
          by rw [lexemes_cons hfront, heq, List.cons_append], ?_, ?_⟩
        · rw [placed, hls]
          rfl
        · have htext : textOf (⟨c :: w, [t]⟩ :: ls) = (c :: w) ++ textOf ls := rfl
          rw [htext, Place.after_append, hls']
      · have hflaw : [(p, f)] = ts ++ ts' := by
          rw [lexemes_nil] at h
          exact (List.cons.inj h).2
        obtain ⟨rfl, -⟩ := List.cons.inj h
        cases ts with
        | nil =>
          have hfalse := hcut p f hflaw.symm
          rw [show isCutFlaw f = true from hf] at hfalse
          contradiction
        | cons e ts =>
          obtain ⟨rfl, hnil⟩ := List.cons.inj hflaw
          obtain ⟨rfl, rfl⟩ := List.append_eq_nil_iff.mp hnil.symm
          exact ⟨lexemes (c :: (w ++ [])), [], (List.append_nil _).symm,
            by rw [lexemes_cons hfront, lexemes_nil]; rfl, rfl⟩

/-- The marks that hide a sheet from old readers. -/
def isHidden (v : Value) : Bool := v.isLiteral "<!--" || v.isLiteral "-->"

def startsRule (v : Value) : Bool :=
  match v with
  | .token _ (.blank _) | .token _ (.comment _) | .token _ (.atKeyword _) => false
  | v => !isHidden v

/-- Values and the node they make. -/
inductive Makes : List Value → Node → Prop where
  | blank (p : Place) (t : Text) : Makes [.token p (.blank t)] (.blank p t)
  | comment (p : Place) (t : Text) : Makes [.token p (.comment t)] (.comment p)
  | rule {p : Place} {selector : List Value} {block : Value}
    (hplace : p = (selector.head?.getD block).place)
      (hstarts : ∀ v ∈ selector.head?, startsRule v) (hselector : ∀ v ∈ selector,
        v.isBraces = false)
      (hblock : block.isBraces) : Makes (selector ++ [block]) (.rule p selector)
  | atRule (p : Place) (n : Text) (prelude stop : List Value) :
      Makes (.token p (.atKeyword n) :: (prelude ++ stop)) (.atRule p n prelude)

theorem Makes.place_eq (h : Makes us n) : us.head?.map (·.place) = some n.place := by
  cases h with
  | blank p t => rfl
  | comment p t => rfl
  | @rule p selector block hplace hstarts hselector hblock =>
    subst hplace
    cases selector <;> rfl
  | atRule p n prelude stop => rfl

theorem nodes_nil : nodes [] = [] := by rw [nodes]

theorem nodes_cons (h : startsRule v ∨ isHidden v) (vs : List Value) : nodes (v :: vs) =
    if isHidden v then nodes vs
    else if v.isBraces then .rule v.place [] :: nodes vs
    else ruleNode v vs :: nodes (fromEnd Value.isBraces vs).tail := by
  rw [nodes]
  · rfl
  all_goals
    rintro p n rfl
    rcases h with h | h <;> simp [startsRule, isHidden, Value.isLiteral] at h

theorem nodes_hidden (h : isHidden v) (vs : List Value) : nodes (v :: vs) = nodes vs := by
  rw [nodes_cons (.inr h), if_pos h]

theorem isHidden_of_startsRule (h : startsRule v) : isHidden v = false := by
  unfold startsRule at h
  split at h
  · contradiction
  · contradiction
  · contradiction
  · simpa using h

theorem startsRule_of (hblank : ∀ p t, v = .token p (.blank t) → False)
    (hcomment : ∀ p t, v = .token p (.comment t) → False)
    (hkeyword : ∀ p n, v = .token p (.atKeyword n) → False) (hhidden : ¬isHidden v) :
    startsRule v := by
  unfold startsRule
  split
  · exact absurd rfl (hblank _ _)
  · exact absurd rfl (hcomment _ _)
  · exact absurd rfl (hkeyword _ _)
  · simpa using hhidden

theorem startsRule_of_isBraces (h : v.isBraces) : startsRule v := by
  unfold Value.isBraces at h
  split at h
  · rfl
  · contradiction

theorem before_braces {block : Value} (hus : ∀ v ∈ us, v.isBraces = false) (hblock : block.isBraces)
    (vs : List Value) :
    before Value.isBraces (us ++ block :: vs) = us ∧
      fromEnd Value.isBraces (us ++ block :: vs) = block :: vs := by
  have hall : ∀ u ∈ us, (!u.isBraces) = true := fun u hu => by rw [hus u hu]; rfl
  constructor
  · rw [before, List.takeWhile_append_of_pos hall, List.takeWhile_cons_of_neg (by simp [hblock]),
      List.append_nil]
  · rw [fromEnd, List.dropWhile_append_of_pos hall, List.dropWhile_cons_of_neg (by simp [hblock])]

theorem before_append_fromEnd (isEnd : Value → Bool) (vs : List Value) :
    before isEnd vs ++ fromEnd isEnd vs = vs :=
  List.takeWhile_append_dropWhile

/-- The nodes of a sheet, each with the values it is made of. -/
def made (vs : List Value) : List (Node × List Value) :=
  match vs with
  | [] => []
  | .token p (.blank t) :: vs => (.blank p t, [.token p (.blank t)]) :: made vs
  | .token p (.comment t) :: vs => (.comment p, [.token p (.comment t)]) :: made vs
  | .token p (.atKeyword n) :: vs =>
    have := length_tail_fromEnd_le endsAtRule vs
    (.atRule p n (before endsAtRule vs),
      .token p (.atKeyword n) :: (before endsAtRule vs ++ (fromEnd endsAtRule vs).take 1)) ::
        made (fromEnd endsAtRule vs).tail
  | v :: vs =>
    if isHidden v then made vs
    else if v.isBraces then (.rule v.place [], [v]) :: made vs
    else
      have := length_tail_fromEnd_le Value.isBraces vs
      (ruleNode v vs, v :: (before Value.isBraces vs ++ (fromEnd Value.isBraces vs).take 1)) ::
        made (fromEnd Value.isBraces vs).tail
termination_by vs.length
decreasing_by all_goals simp only [List.length_cons]; omega

theorem map_fst_made (vs : List Value) : (made vs).map (·.1) = nodes vs := by
  fun_induction made vs with
  | case1 => rw [nodes_nil, List.map_nil]
  | case2 p t vs ih => rw [nodes, List.map_cons, ih]
  | case3 p t vs ih => rw [nodes, List.map_cons, ih]
  | case4 p n vs hlength ih => rw [nodes, List.map_cons, ih]
  | case5 v vs hblank hcomment hkeyword hhidden ih => rw [nodes_hidden hhidden, ih]
  | case6 v vs hblank hcomment hkeyword hhidden hbraces ih =>
    rw [nodes_cons (.inl (startsRule_of_isBraces hbraces)), if_neg hhidden, if_pos hbraces,
      List.map_cons, ih]
  | case7 v vs hblank hcomment hkeyword hhidden hbraces hlength ih =>
    rw [nodes_cons (.inl (startsRule_of hblank hcomment hkeyword hhidden)), if_neg hhidden,
      if_neg hbraces, List.map_cons, ih]

theorem made_cons (h : startsRule v ∨ isHidden v) (vs : List Value) : made (v :: vs) =
    if isHidden v then made vs
    else if v.isBraces then (.rule v.place [], [v]) :: made vs
    else (ruleNode v vs, v :: (before Value.isBraces vs ++ (fromEnd Value.isBraces vs).take 1)) ::
      made (fromEnd Value.isBraces vs).tail := by
  rw [made]
  all_goals
    rintro p n rfl
    rcases h with h | h <;> simp [startsRule, isHidden, Value.isLiteral] at h

theorem Makes.not_hidden (h : Makes us n) : ∀ v ∈ us.head?, isHidden v = false := by
  intro v hv
  cases h with
  | blank p t => obtain rfl := Option.some.inj hv; rfl
  | comment p t => obtain rfl := Option.some.inj hv; rfl
  | atRule p n prelude stop => obtain rfl := Option.some.inj hv; rfl
  | @rule p selector block hplace hstarts hselector hblock =>
    cases selector with
    | nil =>
      obtain rfl := Option.some.inj hv
      exact isHidden_of_startsRule (startsRule_of_isBraces hblock)
    | cons u selector => exact isHidden_of_startsRule (hstarts v hv)

theorem made_append_hidden {ms : List Value} (h : ∀ m ∈ ms, isHidden m) (vs : List Value) :
    made (ms ++ vs) = made vs := by
  induction ms with
  | nil => rfl
  | cons m ms ih =>
    obtain ⟨hm, hms⟩ := List.forall_mem_cons.mp h
    rw [List.cons_append, made_cons (.inr hm), if_pos hm, ih hms]

theorem made_rule {selector : List Value} {block : Value}
    (hstarts : ∀ v ∈ selector.head?, startsRule v) (hselector : ∀ v ∈ selector, v.isBraces = false)
    (hblock : block.isBraces) (vs : List Value) :
    made (selector ++ block :: vs) =
      (.rule (selector.head?.getD block).place selector, selector ++ [block]) :: made vs := by
  cases selector with
  | nil =>
    rw [List.nil_append, made_cons (.inl (startsRule_of_isBraces hblock)),
      isHidden_of_startsRule (startsRule_of_isBraces hblock), if_pos hblock]
    rfl
  | cons v selector =>
    have hv := hstarts v rfl
    obtain ⟨hbraces, hrest⟩ := List.forall_mem_cons.mp hselector
    obtain ⟨hbefore, hfrom⟩ := before_braces hrest hblock vs
    rw [List.cons_append, made_cons (.inl hv), isHidden_of_startsRule hv, hbraces, ruleNode,
      hbefore, hfrom]
    rfl

theorem made_ne_nil (h : isHidden v = false) (vs : List Value) : made (v :: vs) ≠ [] := by
  by_cases hstarts : startsRule v
  · rw [made_cons (.inl hstarts), h]
    cases v.isBraces <;> simp
  · unfold startsRule at hstarts
    split at hstarts
    · rw [made]
      exact List.cons_ne_nil _ _
    · rw [made]
      exact List.cons_ne_nil _ _
    · rw [made]
      exact List.cons_ne_nil _ _
    · simp [h] at hstarts

theorem exists_of_made (h : made vs = (n, us) :: es) (hbroken : ∀ p, n ≠ .broken p) :
    ∃ ms rest, vs = ms ++ (us ++ rest) ∧ (∀ m ∈ ms, isHidden m) ∧ Makes us n ∧ made rest = es := by
  fun_induction made vs with
  | case1 => contradiction
  | case2 p t vs ih =>
    obtain ⟨heq, hrest⟩ := List.cons.inj h
    obtain ⟨rfl, rfl⟩ := Prod.mk.inj heq
    exact ⟨[], vs, rfl, by simp, .blank p t, hrest⟩
  | case3 p t vs ih =>
    obtain ⟨heq, hrest⟩ := List.cons.inj h
    obtain ⟨rfl, rfl⟩ := Prod.mk.inj heq
    exact ⟨[], vs, rfl, by simp, .comment p t, hrest⟩
  | case4 p t vs hlength ih =>
    obtain ⟨heq, hrest⟩ := List.cons.inj h
    obtain ⟨rfl, rfl⟩ := Prod.mk.inj heq
    refine ⟨[], _, ?_, by simp, .atRule p t _ _, hrest⟩
    rw [List.nil_append, List.cons_append, List.append_assoc, ← List.drop_one,
      List.take_append_drop, before_append_fromEnd]
  | case5 v vs hblank hcomment hkeyword hhidden ih =>
    obtain ⟨ms, rest, rfl, hms, hmakes, hrest⟩ := ih h
    exact ⟨v :: ms, rest, rfl, List.forall_mem_cons.mpr ⟨hhidden, hms⟩, hmakes, hrest⟩
  | case6 v vs hblank hcomment hkeyword hhidden hbraces ih =>
    obtain ⟨heq, hrest⟩ := List.cons.inj h
    obtain ⟨rfl, rfl⟩ := Prod.mk.inj heq
    exact ⟨[], vs, rfl, by simp,
      (show Makes ([] ++ [v]) _ from .rule rfl (by simp) (by simp) hbraces), hrest⟩
  | case7 v vs hblank hcomment hkeyword hhidden hbraces hlength ih =>
    obtain ⟨heq, hrest⟩ := List.cons.inj h
    obtain ⟨hnode, rfl⟩ := Prod.mk.inj heq
    unfold ruleNode at hnode
    dsimp only at hnode
    split at hnode
    · exact absurd hnode.symm (hbroken _)
    · next hfrom =>
      subst hnode
      obtain ⟨block, rest, heq⟩ := List.exists_cons_of_ne_nil (mt List.isEmpty_iff.mpr hfrom)
      have hblock : block.isBraces := by
        have hhead := List.head?_dropWhile_not (!Value.isBraces ·) vs
        unfold fromEnd at heq
        rw [heq] at hhead
        simpa using hhead
      have hstarts := startsRule_of hblank hcomment hkeyword hhidden
      rw [heq] at hrest ⊢
      refine ⟨[], rest, ?_, by simp,
        (show Makes (v :: before Value.isBraces vs ++ [block]) _ from .rule rfl ?_ ?_ hblock),
        hrest⟩
      · rw [List.nil_append, List.cons_append, List.append_assoc]
        exact congrArg (v :: ·)
          ((before_append_fromEnd Value.isBraces vs).symm.trans (by rw [heq]; rfl))
      · rintro u ⟨⟩
        exact hstarts
      · refine List.forall_mem_cons.mpr ⟨by simpa using hbraces, fun u hu => ?_⟩
        simpa using List.mem_takeWhile_imp hu

theorem exists_values (h : made vs = es ++ (n, us) :: es')
    (hbroken : ∀ e ∈ es ++ [(n, us)], ∀ p, e.1 ≠ .broken p) :
    ∃ vs' rest, vs = vs' ++ (us ++ rest) ∧ Makes us n ∧ made (us ++ rest) = (n, us) :: es' ∧
      made rest = es' := by
  induction es generalizing vs with
  | nil =>
    obtain ⟨ms, rest, rfl, hms, hmakes, hrest⟩ := exists_of_made h (hbroken (n, us) (by simp))
    rw [made_append_hidden hms] at h
    exact ⟨ms, rest, rfl, hmakes, h, hrest⟩
  | cons e es ih =>
    obtain ⟨ms, rest, rfl, -, -, hrest⟩ := exists_of_made h (hbroken e (by simp))
    obtain ⟨vs', rest', rfl, hmakes, hmade, hlater⟩ :=
      ih hrest fun k hk => hbroken k (List.mem_cons_of_mem e hk)
    exact ⟨ms ++ (e.2 ++ vs'), rest', by simp, hmakes, hmade, hlater⟩

theorem ofText_eq (source : Text) :
    Value.ofText source true = Value.nest [] [] (tokensFrom {} (preprocess source)) := by
  simp [Value.ofText, tokens]

/-- More than what stands for the text having ended. -/
def Uncut (vs : List Value) : Prop := ∀ q f, vs = [.token q f] → isCutFlaw f = false

theorem Uncut.of_nest (hcut : Uncut vs) (h : Value.nest [] [] ts = vs) (q : Place) (f : Token)
    (hts : ts = [(q, f)]) : isCutFlaw f = false := by
  subst hts
  by_contra hf
  refine absurd (hcut q f ?_) hf
  rw [← h]
  rcases isCutFlaw_iff.mp (by simpa using hf) with rfl | rfl <;> simp [Value.nest]

theorem exists_lexemes_of_nest {ws : List Value} (h : Value.nest [] [] (tokensFrom p t) = vs ++ ws)
    (hcut : Uncut ws) :
    ∃ ls ls',
      lexemes t = ls ++ ls' ∧ Value.Spells (placed p ls) (placed (p.after (textOf ls)) ls') vs ∧
      Value.nest [] [] (tokensFrom (p.after (textOf ls)) (textOf ls')) = ws := by
  obtain ⟨ts, ts', heq, hspells, hws⟩ := Value.exists_spells h
  obtain ⟨ls, ls', hlexemes, rfl, rfl⟩ := exists_of_tokensFrom_eq heq (hcut.of_nest hws)
  refine ⟨ls, ls', hlexemes, hspells, ?_⟩
  rw [tokensFrom_eq, (lexemes_of_append hlexemes).2, hws]

theorem place_head_of_tokensFrom (h : Value.nest [] [] (tokensFrom p t) = v :: vs) :
    v.place = p := by
  cases t with
  | nil =>
    rw [tokensFrom, Value.nest_eq_nil_iff.mpr rfl] at h
    contradiction
  | cons c t =>
    obtain ⟨u, ts, heq⟩ := exists_tokensFrom_cons p c t
    exact Value.place_head_of_nest (heq ▸ h)

theorem nodes_of_cutFlaw {t : Token} (h : isCutFlaw t) : nodes [.token p t] = [.broken p] := by
  rcases isCutFlaw_iff.mp h with rfl | rfl <;> rw [nodes_cons (.inl rfl)] <;> simp [isHidden,
    Value.isLiteral, Value.isBraces, ruleNode, before, fromEnd, nodes_nil, Value.place]

theorem not_broken_of_read (h : read source = .ok ns) :
    nodes (Value.ofText source true) = ns ∧ ∀ n ∈ ns, ∀ p, n ≠ .broken p := by
  unfold read at h
  dsimp only at h
  split at h
  · next hnone =>
    obtain rfl := Except.ok.inj h
    refine ⟨rfl, ?_⟩
    rintro n hn p rfl
    have hfound := List.findSome?_eq_none_iff.mp hnone _ hn
    contradiction
  · contradiction

theorem read_of_broken (h : nodes (Value.ofText source true) = ns) (hnone : broken? ns = none) :
    read source = .ok ns := by
  unfold read
  dsimp only
  rw [h, hnone]

-- The fold over the tokens can be evaluated, unlike the matching of brackets that it comes to.
theorem ofText_eq_shut (source : Text) : Value.ofText source true =
    Value.shut (Value.readAll (tokensFrom {} (preprocess source))).1
      (Value.readAll (tokensFrom {} (preprocess source))).2 :=
  (ofText_eq source).trans (Value.nest_top _)

theorem read_of_shut (source : Text) (h : broken? (nodes (Value.shut
    (Value.readAll (tokensFrom {} (preprocess source))).1
      (Value.readAll (tokensFrom {} (preprocess source))).2)) = none) :
    read source = .ok (nodes (Value.ofText source true)) :=
  read_of_broken rfl (by rwa [ofText_eq_shut])

theorem exists_made {ns' : List Node} (h : read source = .ok (ns ++ n :: ns')) :
    ∃ es us es', made (Value.ofText source true) = es ++ (n, us) :: es' ∧ es.map (·.1) = ns ∧
      es'.map (·.1) = ns' := by
  have hnodes := (not_broken_of_read h).1
  rw [← map_fst_made] at hnodes
  obtain ⟨es, rest, heq, hes, hrest⟩ := List.map_eq_append_iff.mp hnodes
  obtain ⟨⟨m, us⟩, es', rfl, rfl, hes'⟩ := List.map_eq_cons_iff.mp hrest
  exact ⟨es, us, es', heq, hes, hes'⟩

/-- A source cut in two, and what is read behind the cut. -/
structure Cut (source a b : Text) (vs : List Value) (es : List (Node × List Value)) : Prop where
  eq_append : source = a ++ b
  isWhole : IsWhole a b
  nest_eq : Value.nest [] [] (tokensFrom (({} : Place).after (preprocess a)) (preprocess b)) = vs
  made_eq : made vs = es
  not_broken : ∀ e ∈ es, ∀ p, e.1 ≠ .broken p
  not_hidden : ∀ v ∈ vs.head?, isHidden v = false

theorem uncut_of_made (h : made vs = es) (hbroken : ∀ e ∈ es, ∀ p, e.1 ≠ .broken p) : Uncut vs := by
  rintro q f rfl
  by_contra hf
  have hnodes := map_fst_made [.token q f]
  rw [nodes_of_cutFlaw (by simpa using hf), h] at hnodes
  obtain ⟨e, es, rfl, he, -⟩ := List.map_eq_cons_iff.mp hnodes
  exact hbroken e List.mem_cons_self q he

theorem Cut.place_eq (h : Cut source a b vs ((n, us) :: es)) :
    n.place = ({} : Place).after (preprocess a) := by
  obtain ⟨ms, rest, rfl, hms, hmakes, -⟩ :=
    exists_of_made h.made_eq (h.not_broken _ List.mem_cons_self)
  obtain ⟨v, us, rfl⟩ : ∃ v us', us = v :: us' := by
    refine List.exists_cons_of_ne_nil ?_
    rintro rfl
    exact absurd hmakes.place_eq (by simp)
  cases ms with
  | nil => exact (Option.some.inj hmakes.place_eq).symm.trans (place_head_of_tokensFrom h.nest_eq)
  | cons m ms =>
    have hm := h.not_hidden m rfl
    rw [hms m List.mem_cons_self] at hm
    contradiction

theorem exists_cut (hread : read source = .ok ns)
    (h : made (Value.ofText source true) = es ++ (n, us) :: es') :
    ∃ a b rest, Cut source a b (us ++ rest) ((n, us) :: es') ∧ Makes us n ∧ made rest = es' := by
  obtain ⟨hnodes, hbroken⟩ := not_broken_of_read hread
  rw [← map_fst_made, h] at hnodes
  have hbroken' : ∀ e ∈ es ++ (n, us) :: es', ∀ p, e.1 ≠ .broken p := fun e he =>
    hbroken e.1 (hnodes ▸ List.mem_map_of_mem he)
  obtain ⟨vs, rest, hvs, hmakes, hmade, hlater⟩ :=
    exists_values h fun e he => hbroken' e (by simp at he ⊢; tauto)
  have hcut : ∀ e ∈ (n, us) :: es', ∀ p, e.1 ≠ .broken p :=
    fun e he => hbroken' e (List.mem_append_right es he)
  rw [ofText_eq] at hvs
  obtain ⟨ls, ls', hlexemes, -, hnest⟩ := exists_lexemes_of_nest hvs (uncut_of_made hmade hcut)
  obtain ⟨a, b, rfl, hwhole, ha, hb⟩ := exists_of_preprocess_eq (lexemes_of_append hlexemes).1
  refine ⟨a, b, rest, ⟨rfl, hwhole, by rw [ha, hb, hnest], hmade, hcut, fun v hv => ?_⟩,
    hmakes, hlater⟩
  refine hmakes.not_hidden v ?_
  cases us with
  | nil => exact absurd hmakes.place_eq (by simp)
  | cons u us => exact hv

end Graft.Style
