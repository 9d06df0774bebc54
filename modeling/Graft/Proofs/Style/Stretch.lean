import Graft.Proofs.Spans
import Graft.Proofs.Style.Contents

set_option autoImplicit false

/-!
The stretch of a node: what stands from its start up to the next node, with the lexemes that it is
read from. That of a comment is read as the comment whatever follows it, and that of a rule can be
read without what follows.
-/

namespace Graft.Style

open Text Lexeme

abbrev Made := Node × List Value

def stopIn (source : Text) (post : List Node) : Nat :=
  (post.head?.map (Node.startIn source)).getD source.length

theorem slice_append (a x c : Text) : (a ++ x ++ c).slice a.length (a ++ x).length = x := by
  rw [slice, List.take_left, List.drop_left]

namespace Cut

variable {source a b : Text} {vs : List Value} {es : List Made}

theorem eq_nil (h : Cut source a b vs []) : vs = [] ∧ b = [] := by
  have hvs : vs = [] := by
    cases vs with
    | nil => rfl
    | cons v vs => exact absurd h.made_eq (made_ne_nil (h.not_hidden v rfl) vs)
  exact ⟨hvs,
    eq_nil_of_preprocess (eq_nil_of_tokensFrom (Value.nest_eq_nil_iff.mp (h.nest_eq.trans hvs)))⟩

theorem stopIn_eq (h : Cut source a b vs es) : stopIn source (es.map (·.1)) = a.length := by
  cases es with
  | nil =>
    rw [h.eq_append, h.eq_nil.2, List.append_nil]
    rfl
  | cons e es =>
    have hplace : e.1.place = _ := h.place_eq
    rw [stopIn, List.map_cons, List.head?_cons, Option.map_some, Option.getD_some, Node.startIn,
      hplace, h.eq_append, offsetOf_after h.isWhole]

theorem next {rest : List Value} {es' : List Made} {ls ls' : List Lexeme} (h : Cut source a b vs es)
    (hlexemes : lexemes (preprocess b) = ls ++ ls')
    (hrest : Value.nest [] []
        (tokensFrom ((({} : Place).after (preprocess a)).after (textOf ls)) (textOf ls')) = rest)
    (hmade : made rest = es') (hbroken : ∀ e ∈ es', ∀ p, e.1 ≠ .broken p)
    (hhidden : ∀ v ∈ rest.head?, isHidden v = false) :
    ∃ x c, b = x ++ c ∧ IsWhole x c ∧ preprocess x = textOf ls ∧
      Cut source (a ++ x) c rest es' := by
  obtain ⟨x, c, rfl, hwhole, hx, hc⟩ := exists_of_preprocess_eq (lexemes_of_append hlexemes).1
  refine ⟨x, c, rfl, hwhole, hx, by rw [h.eq_append, List.append_assoc], h.isWhole.append hwhole,
    ?_, hmade, hbroken, hhidden⟩
  rw [preprocess_append h.isWhole.of_append, Place.after_append, hx, hc, hrest]

end Cut

section Stretch

variable {source : Text} {ns : List Node} {pre post : List Made}

theorem exists_cut_marks {n : Node} {us : List Value} (hread : read source = .ok ns)
    (h : made (Value.ofText source true) = pre ++ (n, us) :: post) :
    ∃ a b ms rest, Cut source a b (us ++ (ms ++ rest)) ((n, us) :: post) ∧ Makes us n ∧
      (∀ m ∈ ms, isHidden m) ∧
      made rest = post ∧ (∀ v ∈ rest.head?, isHidden v = false) ∧ Uncut rest := by
  obtain ⟨a, b, rest, hcut, hmakes, hmade⟩ := exists_cut hread h
  have hms : ∀ m ∈ rest.takeWhile isHidden, isHidden m := fun m hm => List.mem_takeWhile_imp hm
  rw [← List.takeWhile_append_dropWhile (p := isHidden) (l := rest)] at hcut
  rw [← List.takeWhile_append_dropWhile (p := isHidden) (l := rest),
    made_append_hidden hms] at hmade
  refine ⟨a, b, _, _, hcut, hmakes, hms, hmade, fun v hv => ?_,
    uncut_of_made hmade fun e he => hcut.not_broken e (List.mem_cons_of_mem _ he)⟩
  have hhead := List.head?_dropWhile_not isHidden rest
  rw [hv] at hhead
  simpa using hhead

theorem isRemark_of_comment {p : Place} {us : List Value} (hread : read source = .ok ns)
    (h : made (Value.ofText source true) = pre ++ (.comment p, us) :: post) (hpost : post ≠ []) :
    IsRemark (source.slice (Node.startIn source (.comment p))
      (stopIn source (post.map (·.1)))) := by
  obtain ⟨a, b, ms, rest, hcut, hmakes, hms, hmade, hhidden, huncut⟩ := exists_cut_marks hread h
  have hne : rest ≠ [] := by
    rintro rfl
    rw [made] at hmade
    exact hpost hmade.symm
  have hnest := hcut.nest_eq
  cases hmakes with
  | comment p t =>
    obtain ⟨l, ls, hlexemes, hfirm, htells, hls⟩ :=
      exists_tells_of_comment hnest (huncut.append_hidden hms) (by simp [hne])
    change _ = ms ++ rest at hls
    obtain ⟨ls₁, ls₂, heq, hfirm', htells', hls₂⟩ := exists_tells_of_hidden hls hms huncut
    have hsplit : lexemes (preprocess b) = [l] ++ ls := hlexemes
    obtain rfl : ls = ls₁ ++ ls₂ := by rw [← heq, (lexemes_of_append hsplit).2]
    rw [← List.append_assoc] at hsplit
    rw [← Place.after_append, ← textOf_append] at hls₂
    obtain ⟨x, c, rfl, -, hx, hnext⟩ := hcut.next hsplit hls₂ hmade
      (fun e he => hcut.not_broken e (List.mem_cons_of_mem _ he)) hhidden
    have hstart : Node.startIn source (.comment p) = a.length := hcut.stopIn_eq
    rw [hstart, hnext.stopIn_eq, hnext.eq_append, slice_append]
    refine ⟨[l] ++ ls₁, t, Value.unplacedAll ms, hx.symm, hfirm.append hfirm', fun rest' => ?_,
      hidden_unplaced hms⟩
    refine (htells.append htells').of_rest fun hnil => ?_
    exact absurd ((tokensOf_eq_nil hls₂ (lexemes_of_append hsplit).2).mp hnil) hne

end Stretch

/-- The text of a blank at the end of values. -/
def lastBlank (vs : List Value) : Text :=
  match vs.getLast? with
  | some (.token _ (.blank t)) => t
  | _ => []

def stem (vs : List Value) : List Value :=
  match vs.getLast? with
  | some (.token _ (.blank _)) => vs.dropLast
  | _ => vs

theorem stem_cases (vs : List Value) :
    stem vs = vs ∧ lastBlank vs = [] ∨ ∃ p, vs = stem vs ++ [.token p (.blank (lastBlank vs))] := by
  unfold stem lastBlank
  split
  · next p t h =>
    obtain ⟨us, rfl⟩ := List.getLast?_eq_some_iff.mp h
    exact .inr ⟨p, by simp⟩
  · exact .inl ⟨rfl, rfl⟩

theorem mem_of_stem {vs : List Value} {v : Value} (h : v ∈ stem vs) : v ∈ vs := by
  rcases stem_cases vs with ⟨heq, -⟩ | ⟨p, heq⟩
  · rwa [heq] at h
  · rw [heq]
    exact List.mem_append_left _ h

theorem head?_stem {vs : List Value} {v : Value} (h : v ∈ (stem vs).head?) : v ∈ vs.head? := by
  rcases stem_cases vs with ⟨heq, -⟩ | ⟨p, heq⟩
  · rwa [heq] at h
  · rw [heq, List.head?_append, h]
    rfl

theorem exists_tells_of_stem {p : Place} {t : Text} {us vs : List Value}
    (h : Value.nest [] [] (tokensFrom p t) = us ++ vs) (hcut : Uncut vs) (hne : vs ≠ []) :
    ∃ lst lbl ls', lexemes t = lst ++ lbl ++ ls' ∧ textOf lbl = lastBlank us ∧
      (∀ c ∈ lastBlank us, isSpace c) ∧ (∀ rest, Tells lst rest (Value.unplacedAll (stem us))) ∧
        (∀ rest, Tells (lst ++ lbl) rest (Value.unplacedAll us)) ∧
      Value.nest [] [] (tokensFrom (p.after (textOf (lst ++ lbl))) (textOf ls')) = vs := by
  rcases stem_cases us with ⟨hstem, hblank⟩ | ⟨q, hstem⟩
  · obtain ⟨ls, ls', hlexemes, hspells, hvs⟩ := exists_lexemes_of_nest h hcut
    have htells : ∀ rest, Tells ls rest (Value.unplacedAll us) := fun rest =>
      (tells_of_spells hspells).of_rest fun hnil =>
        absurd ((tokensOf_eq_nil hvs (lexemes_of_append hlexemes).2).mp hnil) hne
    refine ⟨ls, [], ls', by rw [List.append_nil, hlexemes], hblank.symm,
      by simp [hblank], ?_, ?_, ?_⟩
    · rwa [hstem]
    · rwa [List.append_nil]
    · rwa [List.append_nil]
  · rw [hstem, List.append_assoc, List.singleton_append] at h
    have hcut' : Uncut (.token q (.blank (lastBlank us)) :: vs) := by
      intro q' f heq
      obtain ⟨-, rfl⟩ := Value.token.inj (List.cons.inj heq).1
      rfl
    obtain ⟨ls, ls₁, hlexemes, hspells, hrest⟩ := exists_lexemes_of_nest h hcut'
    obtain ⟨l, ls', hlexemes', hl, htells', hvs⟩ := exists_tells_of_bare hrest hcut rfl
    obtain rfl : ls₁ = l :: ls' := by rw [← hlexemes', (lexemes_of_append hlexemes).2]
    have htext : l = ⟨lastBlank us, [.blank (lastBlank us)]⟩ :=
      eq_of_lexemes (lexemes_of_append hlexemes).2 hl rfl (by simp [Value.isComment])
    have htells : ∀ rest, Tells ls rest (Value.unplacedAll (stem us)) := fun rest =>
      (tells_of_spells hspells).of_rest fun hnil => by simp [tokensOf_cons, hl] at hnil
    refine ⟨ls, [l], ls', by rw [hlexemes]; simp, by rw [htext]; exact List.append_nil _,
      spaces_of_lexemes (lexemes_of_append hlexemes).2 hl, htells, fun rest => ?_, ?_⟩
    · have hboth := (htells ([l] ++ ls')).append htells'
      rw [hstem, Value.unplacedAll_append]
      refine hboth.of_rest fun hnil => absurd ?_ hne
      exact (tokensOf_eq_nil hvs (lexemes_tail (lexemes_of_append hlexemes).2)).mp hnil
    · rw [textOf_append, Place.after_append]
      exact hvs

/-- The lexemes of a rule: those of its selector, a blank behind it, and its block with the hidden
marks behind that. They can be read without what follows. -/
structure Laid (selector : List Value) (block : Value) (lst lbl lbk : List Lexeme)
    (ms : List Value) : Prop where
  lexemes_eq : lexemes (textOf lst ++ (textOf lbl ++ textOf lbk)) = lst ++ (lbl ++ lbk)
  blank_eq : textOf lbl = lastBlank selector
  spaces : ∀ c ∈ lastBlank selector, isSpace c
  brace : (textOf lbk).head? = some '\x7b'
  tells_stem : ∀ rest, Tells lst rest (Value.unplacedAll (stem selector))
  tells : ∀ rest, Tells (lst ++ lbl) rest (Value.unplacedAll selector)
  tells_block : Tells lbk [] (block.unplaced :: ms)
  hidden : ∀ m ∈ ms, isHidden m

theorem exists_laid {p : Place} {t : Text} {selector ms rest : List Value} {block : Value}
    (h : Value.nest [] [] (tokensFrom p t) = selector ++ block :: (ms ++ rest))
    (hblock : block.isBraces) (hms : ∀ m ∈ ms, isHidden m) (hcut : Uncut rest) :
    ∃ lst lbl lbk ls', lexemes t = lst ++ lbl ++ lbk ++ ls' ∧
      Laid selector block lst lbl lbk (Value.unplacedAll ms) ∧
      block.place = p.after (textOf (lst ++ lbl)) ∧
      Value.nest [] [] (tokensFrom (p.after (textOf (lst ++ lbl ++ lbk))) (textOf ls')) = rest := by
  have hcut' : Uncut (block :: (ms ++ rest)) := by
    intro q f heq
    rw [(List.cons.inj heq).1] at hblock
    contradiction
  obtain ⟨lst, lbl, ls, hlexemes, hblank, hspaces, hstem, htells, hls⟩ :=
    exists_tells_of_stem h hcut' (by simp)
  obtain ⟨lbr, ls₁, heq, hbrace, hbraces, hls₁, hclosed⟩ :=
    exists_tells_of_braces hls (hcut.append_hidden hms) hblock
  obtain ⟨lms, ls₂, heq', hfirm, hmarks, hls₂⟩ := exists_tells_of_hidden hls₁ hms hcut
  obtain rfl : ls = lbr ++ ls₁ := by rw [← heq, (lexemes_of_append hlexemes).2]
  obtain rfl : ls₁ = lms ++ ls₂ := by rw [← heq', (lexemes_of_append heq).2]
  have hall : lexemes t = lst ++ lbl ++ (lbr ++ lms) ++ ls₂ := by
    rw [hlexemes]
    simp
  have hbehind : Value.nest [] []
      (tokensFrom (p.after (textOf (lst ++ lbl ++ (lbr ++ lms)))) (textOf ls₂)) = rest := by
    rw [textOf_append, textOf_append lbr, Place.after_append, Place.after_append, hls₂]
  refine ⟨lst, lbl, lbr ++ lms, ls₂, hall,
    ⟨?_, hblank, hspaces, ?_, hstem, htells, ?_, hidden_unplaced hms⟩,
    place_head_of_tokensFrom hls, hbehind⟩
  · rw [← textOf_append, ← textOf_append, ← List.append_assoc]
    by_cases hrest : rest = []
    · have htext := eq_nil_of_tokensFrom (Value.nest_eq_nil_iff.mp (hbehind.trans hrest))
      have hnil : ls₂ = [] := by rw [← (lexemes_of_append hall).2, htext, lexemes_nil]
      rw [hnil, List.append_nil] at hall
      rw [← hall, textOf_lexemes]
    · -- the block is closed, so nothing behind it matters
      obtain ⟨ls, l, rfl, hl⟩ := hclosed (by simp [hrest])
      have hfirm' : Firm (lst ++ lbl ++ ls ++ [l]) := by
        have hsame : lst ++ lbl ++ ls ++ [l] ++ (lms ++ ls₂) = lexemes t := by
          rw [hlexemes]
          simp
        refine firm_of_closing (r := textOf (lms ++ ls₂)) ?_ hl
        rw [heq', ← textOf_append, hsame, textOf_lexemes]
      have hboth := (hfirm'.append hfirm).lexemes_eq
      simpa using hboth
  · rw [textOf_append, List.head?_append, hbrace]
    rfl
  · exact (hbraces.append hmarks).of_rest fun _ => rfl

structure IsSelector (vs : List Value) : Prop where
  starts : ∀ v ∈ vs.head?, startsRule v
  not_braces : ∀ v ∈ vs, v.isBraces = false

namespace IsSelector

theorem stem {vs : List Value} (h : IsSelector vs) : IsSelector (Style.stem vs) :=
  ⟨fun v hv => h.starts v (head?_stem hv), fun v hv => h.not_braces v (mem_of_stem hv)⟩

theorem unplaced {vs : List Value} (h : IsSelector vs) : IsSelector (Value.unplacedAll vs) := by
  rw [Value.unplacedAll_eq]
  refine ⟨fun v hv => ?_, fun v hv => ?_⟩
  · rw [List.head?_map] at hv
    obtain ⟨u, hu, rfl⟩ := Option.map_eq_some_iff.mp hv
    rw [startsRule_unplaced]
    exact h.starts u hu
  · obtain ⟨u, hu, rfl⟩ := List.mem_map.mp hv
    rw [Value.isBraces_unplaced]
    exact h.not_braces u hu

theorem concat_blank {vs : List Value} (h : IsSelector vs) (hne : vs ≠ []) (p : Place) (t : Text) :
    IsSelector (vs ++ [.token p (.blank t)]) := by
  obtain ⟨u, vs, rfl⟩ := List.exists_cons_of_ne_nil hne
  refine ⟨fun v hv => h.starts v hv, fun v hv => ?_⟩
  rcases List.mem_append.mp hv with hv | hv
  · exact h.not_braces v hv
  · rw [List.mem_singleton.mp hv]
    rfl

end IsSelector

theorem head?_of_preprocess {t : Text} {d : Char} (h : (preprocess t).head? = some d)
    (hd : d ≠ '\n') (hd' : d ≠ Char.ofNat 0xfffd) : t.head? = some d := by
  fun_cases preprocess t with
  | case1 => contradiction
  | case2 t =>
    rw [preprocess] at h
    exact absurd (Option.some.inj h).symm hd
  | case3 c t hnot =>
    rw [preprocess_cons hnot, List.head?_cons, Option.some.injEq] at h
    split at h
    · exact absurd h.symm hd
    · split at h
      · exact absurd h.symm hd'
      · rw [h]
        rfl

theorem exists_stretch {source : Text} {ns : List Node} {pre post : List Made} {p : Place}
    {selector us : List Value} (hread : read source = .ok ns)
    (h : made (Value.ofText source true) = pre ++ (.rule p selector, us) :: post) :
    ∃ head tail block lst lbl lbk ms, us = selector ++ [block] ∧ IsSelector selector ∧
      block.isBraces ∧
      Laid selector block lst lbl lbk ms ∧
      preprocess head = textOf lst ++ textOf lbl ∧ preprocess tail = textOf lbk ∧
        tail.head? = some '\x7b' ∧
      source.slice (Node.startIn source (.rule p selector)) (stopIn source (post.map (·.1))) =
        head ++ tail ∧
      source.slice (Node.startIn source (.rule p selector))
        (offsetOf (lineTable isSheetEnd source) block.place) = head := by
  obtain ⟨a, b, ms, rest, hcut, hmakes, hms, hmade, hhidden, huncut⟩ := exists_cut_marks hread h
  have hnest := hcut.nest_eq
  have hstart : Node.startIn source (.rule p selector) = a.length := hcut.stopIn_eq
  cases hmakes with
  | @rule _ _ block hplace hstarts hselector hblock =>
    rw [List.append_assoc, List.singleton_append] at hnest
    obtain ⟨lst, lbl, lbk, ls', hlexemes, hlaid, hblockPlace, hrest⟩ :=
      exists_laid hnest hblock hms huncut
    obtain ⟨x, c, rfl, hwhole, hx, hnext⟩ := hcut.next hlexemes hrest hmade
      (fun e he => hcut.not_broken e (List.mem_cons_of_mem _ he)) hhidden
    rw [textOf_append] at hx
    obtain ⟨head, tail, rfl, hwhole', hhead, htail⟩ := exists_of_preprocess_eq hx
    have hbrace : tail.head? = some '\x7b' :=
      head?_of_preprocess (htail ▸ hlaid.brace) (by decide) (by decide)
    refine ⟨head, tail, block, lst, lbl, lbk, Value.unplacedAll ms, rfl, ⟨hstarts, hselector⟩,
      hblock, hlaid, by rw [hhead, textOf_append], htail, hbrace, ?_, ?_⟩
    · rw [hstart, hnext.stopIn_eq, hnext.eq_append, slice_append]
    · have ha : IsWhole a (head ++ (tail ++ c)) := by
        have ha := hcut.isWhole
        rwa [List.append_assoc] at ha
      have hwhole'' : IsWhole head (tail ++ c) := by
        rintro ⟨-, hfeed⟩
        rw [List.head?_append, hbrace] at hfeed
        exact absurd (Option.some.inj hfeed) (by decide)
      have hplace' : block.place = ({} : Place).after (preprocess (a ++ head)) := by
        rw [hblockPlace, ← hhead, ← Place.after_append, preprocess_append ha.of_append]
      have hsource : source = a ++ head ++ (tail ++ c) := by
        rw [hcut.eq_append]
        simp
      rw [hstart, hplace', hsource, offsetOf_after (ha.append hwhole''), slice_append]

end Graft.Style
