import Graft.Proofs.Item.Header
import Graft.Proofs.Padding

set_option autoImplicit false

/-!
Texts moved from one indentation to another. Every line but the first loses what the old indentation
takes up and gets the new one, whatever it is a line of. This leaves a text as it is just when all
these lines fit: each has exactly the new indentation where the old one was, and blank lines have
nothing to lose.
-/

namespace Graft

namespace Text

variable {l t : Text} {ls : List Text}

theorem splitOn_append_newline (t u : Text) :
    (t ++ '\n' :: u).splitOn '\n' = t.splitOn '\n' ++ u.splitOn '\n' :=
  splitWhen_append_cons (p := (· == '\n')) rfl t u

theorem splitOn_of_not_mem (h : '\n' ∉ t) : t.splitOn '\n' = [t] :=
  splitWhen_of_forall fun _ hc => beq_false_of_ne fun heq => h (heq ▸ hc)

theorem splitOn_append {u : Text} (hu : '\n' ∉ u) {first : Text} {rest : List Text}
    (h : t.splitOn '\n' = first :: rest) : (u ++ t).splitOn '\n' = (u ++ first) :: rest := by
  induction u with
  | nil => exact h
  | cons c u ih =>
    rw [List.mem_cons, not_or] at hu
    have hrest := ih hu.2
    unfold splitOn at hrest ⊢
    rw [List.cons_append, splitWhen, if_neg (by simpa using Ne.symm hu.1), hrest]
    rfl

theorem splitOn_unlines (h : ∀ m ∈ l :: ls, '\n' ∉ m) :
    (unlines (l :: ls)).splitOn '\n' = l :: ls := by
  induction ls generalizing l with
  | nil => simpa [unlines, join] using splitOn_of_not_mem (h l List.mem_cons_self)
  | cons m ls ih =>
    rw [List.forall_mem_cons] at h
    rw [unlines_cons_cons, splitOn_append_newline, splitOn_of_not_mem h.1, ih h.2,
      List.singleton_append]

theorem unlines_append_unlines (l m : Text) (ls ms : List Text) :
    unlines (l :: (ls ++ m :: ms)) = unlines (l :: ls) ++ '\n' :: unlines (m :: ms) := by
  induction ls generalizing l with
  | nil => simp [unlines, join]
  | cons k ls ih => rw [List.cons_append, unlines_cons_cons, ih, unlines_cons_cons,
    List.append_assoc, List.cons_append]

theorem newline_not_mem_of_splitOn (t : Text) : ∀ l ∈ t.splitOn '\n', '\n' ∉ l := by
  induction t with
  | nil => simp [splitOn, splitWhen]
  | cons c t ih =>
    obtain ⟨first, rest, hsplit⟩ := exists_splitOn_cons t
    by_cases hc : c = '\n'
    · have hcut := splitOn_append_newline [] t
      rw [List.nil_append] at hcut
      rw [hc, hcut]
      exact List.forall_mem_cons.mpr ⟨List.not_mem_nil, ih⟩
    · have hcut := splitOn_append (u := [c]) (by simpa using Ne.symm hc) hsplit
      rw [List.singleton_append, List.singleton_append] at hcut
      rw [hsplit, List.forall_mem_cons] at ih
      rw [hcut]
      refine List.forall_mem_cons.mpr ⟨?_, ih.2⟩
      rw [List.mem_cons, not_or]
      exact ⟨Ne.symm hc, ih.1⟩

theorem exists_last_line (h : '\n' ∈ t) : ∃ u l : Text, t = u ++ '\n' :: l ∧ '\n' ∉ l := by
  induction t with
  | nil => contradiction
  | cons c t ih =>
    by_cases ht : '\n' ∈ t
    · obtain ⟨u, l, rfl, hl⟩ := ih ht
      exact ⟨c :: u, l, rfl, hl⟩
    · obtain rfl : '\n' = c := (List.mem_cons.mp h).resolve_right ht
      exact ⟨[], t, rfl, ht⟩

theorem map_eq_self_iff {f : Text → Text} : ls.map f = ls ↔ ∀ l ∈ ls, f l = l := by
  conv_lhs => rhs; rw [← List.map_id ls]
  exact List.map_inj_left

theorem isBlank_of_mem_indentation : ∀ c ∈ l.indentation, isBlank c := fun _ hc =>
  isBlank_of_isIndent (List.mem_takeWhile_imp hc)

theorem indentation_prefix (l : Text) : l.indentation <+: l := List.takeWhile_prefix _

end Text

namespace Indentation

variable {width : Nat} {by_ : Text} {c : Char} {t : Text} {rest : List Text}

theorem strip_zero (line : Text) : strip 0 line = line := by
  rw [strip, Nat.zero_min, List.drop_zero]

theorem take_append_strip (width : Nat) (line : Text) :
    line.indentation.take width ++ strip width line = line := by
  have htake : line.indentation.take width = line.take (min width line.indentation.length) := by
    obtain ⟨rest, hrest⟩ := Text.indentation_prefix line
    generalize line.indentation = blanks at hrest
    subst hrest
    rw [List.take_append_of_le_length (Nat.min_le_right _ _), List.take_eq_take_iff]
    omega
  rw [htake, strip, List.take_append_drop]

theorem isBlankText_strip (width : Nat) (line : Text) :
    (strip width line).isBlankText = line.isBlankText := by
  conv_rhs => rw [← take_append_strip width line]
  rw [Text.isBlankText, Text.isBlankText, List.all_append]
  have htake : (line.indentation.take width).all Text.isBlank := List.all_eq_true.mpr fun c hc =>
    Text.isBlank_of_mem_indentation c (List.mem_of_mem_take hc)
  rw [htake, Bool.true_and]

/-- A line moved from an indentation of `width` to `by_`; a blank one only goes to the left. -/
def moved (width : Nat) (by_ line : Text) : Text :=
  if line.isBlankText then strip width line else by_ ++ strip width line

/-- What moving leaves alone. -/
def Fits (width : Nat) (by_ line : Text) : Prop :=
  if line.isBlankText then width = 0 ∨ line.indentation = [] else by_ = line.indentation.take width

instance (line : Text) : Decidable (Fits width by_ line) := by
  unfold Fits
  infer_instance

theorem moved_eq_iff (line : Text) : moved width by_ line = line ↔ Fits width by_ line := by
  have hline := take_append_strip width line
  unfold moved Fits
  split
  · have hnil : strip width line = line ↔ line.indentation.take width = [] := by
      constructor
      · intro h
        rw [h] at hline
        exact List.append_left_eq_self.mp hline
      · intro h
        rwa [h, List.nil_append] at hline
    rw [hnil, List.take_eq_nil_iff]
  · conv_lhs => rhs; rw [← hline]
    exact List.append_left_inj _

theorem moved_strip (line : Text) : moved 0 by_ (strip width line) = moved width by_ line := by
  rw [moved, moved, isBlankText_strip, strip_zero]

theorem newline_not_mem_moved (hby : '\n' ∉ by_) {line : Text} (h : '\n' ∉ line) :
    '\n' ∉ moved width by_ line := by
  have hstrip : '\n' ∉ strip width line := fun hin => h (List.mem_of_mem_drop hin)
  unfold moved
  split
  · exact hstrip
  · rw [List.mem_append, not_or]
    exact ⟨hby, hstrip⟩

theorem moved_append {line : Text} (h : line.isBlankText = false) (t : Text) :
    moved width by_ (line ++ t) = moved width by_ line ++ t := by
  have hindent : (line ++ t).indentation = line.indentation := by
    obtain ⟨c, hc, hblank⟩ := List.all_eq_false.mp h
    have hends : (line.takeWhile Text.isIndent).length ≠ line.length := by
      intro hall
      have heq : line.takeWhile Text.isIndent = line := (List.takeWhile_prefix _).eq_of_length hall
      exact hblank (Text.isBlank_of_mem_indentation c (heq.symm ▸ hc))
    rw [Text.indentation, List.takeWhile_append, if_neg hends]
    rfl
  have hle : min width line.indentation.length ≤ line.length :=
    Nat.le_trans (Nat.min_le_right _ _) (Text.indentation_prefix line).length_le
  have hblank : (line ++ t).isBlankText = false := by
    rw [Text.isBlankText, List.all_append, Bool.and_eq_false_iff]
    exact .inl h
  rw [moved, moved, h, hblank, strip, strip, hindent, List.drop_append_of_le_length hle]
  simp

theorem exists_moved_append (u : Text) (hc : Text.isBlank c = false) (t : Text) :
    ∃ z, moved width by_ (u ++ c :: t) = z ++ c :: t := by
  have hindent : (u ++ c :: t).indentation = u.indentation := by
    have hno : ¬Text.isIndent c := fun h => by simp [Text.isBlank_of_isIndent h] at hc
    rw [Text.indentation, List.takeWhile_append, List.takeWhile_cons_of_neg hno, List.append_nil]
    split
    · next hall => exact ((List.takeWhile_prefix _).eq_of_length hall).symm
    · rfl
  have hle : min width u.indentation.length ≤ u.length :=
    Nat.le_trans (Nat.min_le_right _ _) (Text.indentation_prefix u).length_le
  have hblank : (u ++ c :: t).isBlankText = false :=
    List.all_eq_false.mpr ⟨c, by simp, by simp [hc]⟩
  rw [moved, hblank, strip, hindent, List.drop_append_of_le_length hle]
  exact ⟨by_ ++ u.drop (min width u.indentation.length), by simp⟩

/-- A text with every line but the first moved. -/
def relaid (width : Nat) (by_ t : Text) : Text :=
  match t.splitOn '\n' with
  | [] => []
  | first :: rest => Text.unlines (first :: rest.map (moved width by_))

theorem relaid_eq {first : Text} (h : t.splitOn '\n' = first :: rest) :
    relaid width by_ t = Text.unlines (first :: rest.map (moved width by_)) := by
  rw [relaid, h]

theorem relaid_eq_self_iff (hby : '\n' ∉ by_) (t : Text) :
    relaid width by_ t = t ↔ ∀ line ∈ (t.splitOn '\n').tail, Fits width by_ line := by
  obtain ⟨first, rest, hsplit⟩ := Text.exists_splitOn_cons t
  have hlines := Text.newline_not_mem_of_splitOn t
  rw [hsplit, List.forall_mem_cons] at hlines
  rw [relaid_eq hsplit, hsplit, List.tail_cons]
  have hmoved : ∀ l ∈ rest.map (moved width by_), '\n' ∉ l := by
    intro l hl
    obtain ⟨line, hline, rfl⟩ := List.mem_map.mp hl
    exact newline_not_mem_moved hby (hlines.2 line hline)
  calc Text.unlines (first :: rest.map (moved width by_)) = t
      ↔ first :: rest.map (moved width by_) = first :: rest := by
        constructor
        · intro h
          rw [← Text.splitOn_unlines (List.forall_mem_cons.mpr ⟨hlines.1, hmoved⟩), h, hsplit]
        · intro h
          rw [h, ← hsplit, Text.unlines_splitOn]
    _ ↔ ∀ line ∈ rest, moved width by_ line = line := by
        rw [List.cons.injEq, and_iff_right rfl, Text.map_eq_self_iff]
    _ ↔ ∀ line ∈ rest, Fits width by_ line := forall₂_congr fun line _ => moved_eq_iff line

theorem splitOn_mapLines {f : Text → Text} (hfeed : ∀ line, '\n' ∉ line → '\n' ∉ f line)
    (verbatim : List Nat) (t : Text) :
    (mapLines f verbatim t).splitOn '\n' =
      (t.splitOn '\n').mapIdx fun i line => if verbatim.contains i then line else f line := by
  have hall : ∀ m ∈ (t.splitOn '\n').mapIdx fun i line =>
      if verbatim.contains i then line else f line,
      '\n' ∉ m := by
    intro m hm
    obtain ⟨j, hj, rfl⟩ := List.mem_mapIdx.mp hm
    have hnone := Text.newline_not_mem_of_splitOn t _ (List.getElem_mem hj)
    split
    · exact hnone
    · exact hfeed _ hnone
  obtain ⟨first, rest, hsplit⟩ := Text.exists_splitOn_cons t
  rw [mapLines]
  rw [hsplit, List.mapIdx_cons] at hall ⊢
  exact Text.splitOn_unlines hall

theorem indent_eq_mapLines (t by_ : Text) (verbatim : List Nat) :
    Indentation.indent t by_ verbatim = mapLines (moved 0 by_) verbatim t := by
  have hmove : moved 0 by_ = fun line => if line.isBlankText then line else by_ ++ line := by
    funext line
    rw [moved, strip_zero]
  unfold Indentation.indent
  split
  · next hempty =>
    obtain rfl := List.isEmpty_iff.mp hempty
    have hid : ∀ line, moved 0 [] line = line := fun line => by simp [hmove]
    have hself : (t.splitOn '\n').mapIdx (fun i line => if verbatim.contains i then line else
        moved 0 [] line) =
        t.splitOn '\n' := List.ext_getElem (by simp) (by simp [hid])
    rw [mapLines, hself, Text.unlines_splitOn]
  · rw [hmove]

theorem indent_eq_relaid (by_ : Text) {first : Text} (h : t.splitOn '\n' = first :: rest) :
    Indentation.indent t by_ [] = (if first.isBlankText then [] else by_) ++ relaid 0 by_ t := by
  have hfirst : moved 0 by_ first = (if first.isBlankText then [] else by_) ++ first := by
    rw [moved, strip_zero]
    split <;> rfl
  rw [indent_eq_mapLines, mapLines_nil, relaid_eq h, h, List.map_cons, hfirst, Text.unlines_append]

theorem exists_indent_eq (by_ t : Text) :
    ∃ b, (b = [] ∨ b = by_) ∧ Indentation.indent t by_ [] = b ++ relaid 0 by_ t := by
  obtain ⟨first, rest, hsplit⟩ := Text.exists_splitOn_cons t
  refine ⟨_, ?_, indent_eq_relaid by_ hsplit⟩
  split
  · exact .inl rfl
  · exact .inr rfl

theorem dedentTail_eq_relaid (t own : Text) : dedentTail t own = relaid own.length [] t := by
  obtain ⟨first, rest, hsplit⟩ := Text.exists_splitOn_cons t
  have hmoved : moved own.length [] = strip own.length := by
    funext line
    unfold moved
    split <;> rfl
  rw [relaid_eq hsplit, dedentTail, hsplit, hmoved]

theorem splitOn_dedentTail (own : Text) {first : Text} (h : t.splitOn '\n' = first :: rest) :
    (dedentTail t own).splitOn '\n' = first :: rest.map (strip own.length) := by
  have hlines := Text.newline_not_mem_of_splitOn t
  rw [h, List.forall_mem_cons] at hlines
  rw [dedentTail, h]
  refine Text.splitOn_unlines (List.forall_mem_cons.mpr ⟨hlines.1, fun l hl => ?_⟩)
  obtain ⟨line, hline, rfl⟩ := List.mem_map.mp hl
  exact fun hin => hlines.2 line hline (List.mem_of_mem_drop hin)

theorem relaid_dedentTail (t own : Text) :
    relaid 0 by_ (dedentTail t own) = relaid own.length by_ t := by
  obtain ⟨first, rest, hsplit⟩ := Text.exists_splitOn_cons t
  rw [relaid_eq (splitOn_dedentTail own hsplit), relaid_eq hsplit, List.map_map]
  congr 2
  exact List.map_congr_left fun line _ => moved_strip line

theorem relaid_of_not_mem (h : '\n' ∉ t) : relaid width by_ t = t := by
  rw [relaid_eq (Text.splitOn_of_not_mem h)]
  simp [Text.unlines, Text.join]

theorem relaid_append_newline (t : Text) {u first : Text} (h : u.splitOn '\n' = first :: rest) :
    relaid width by_ (t ++ '\n' :: u) =
      relaid width by_ t ++
        '\n' :: Text.unlines (moved width by_ first :: rest.map (moved width by_)) := by
  obtain ⟨l, ls, hsplit⟩ := Text.exists_splitOn_cons t
  have hboth : (t ++ '\n' :: u).splitOn '\n' = l :: (ls ++ first :: rest) := by
    rw [Text.splitOn_append_newline, hsplit, h, List.cons_append]
  rw [relaid_eq hboth, relaid_eq hsplit, List.map_append, List.map_cons,
    Text.unlines_append_unlines]

theorem prefix_relaid (h : '\n' ∉ t ∨ ∃ u c, t = u ++ [c] ∧ Text.isBlank c = false) (v : Text) :
    relaid width by_ t <+: relaid width by_ (t ++ v) := by
  obtain ⟨first, rest, hsplit⟩ := Text.exists_splitOn_cons v
  by_cases hline : '\n' ∈ t
  · obtain ⟨u, l, rfl, hl⟩ := Text.exists_last_line hline
    have hblank : l.isBlankText = false := by
      obtain ⟨w, c, hw, hc⟩ := h.resolve_left (not_not_intro hline)
      have hlast : ('\n' :: l).getLast? = some c := by
        have hboth := congrArg List.getLast? hw
        rwa [List.getLast?_append_of_ne_nil _ (List.cons_ne_nil _ _), List.getLast?_concat] at hboth
      rcases List.mem_cons.mp (List.mem_of_getLast? hlast) with rfl | hmem
      · contradiction
      · exact List.all_eq_false.mpr ⟨c, hmem, by simp [hc]⟩
    rw [List.append_assoc, List.cons_append,
      relaid_append_newline u (Text.splitOn_append hl hsplit), relaid_append_newline u
        (Text.splitOn_of_not_mem hl), moved_append hblank, Text.unlines_append]
    simp [Text.unlines, Text.join]
  · rw [relaid_of_not_mem hline, relaid_eq (Text.splitOn_append hline hsplit), Text.unlines_append]
    exact List.prefix_append _ _

theorem suffix_relaid (u : Text) (hc : Text.isBlank c = false) (t : Text) :
    relaid width by_ (c :: t) <:+ relaid width by_ (u ++ c :: t) := by
  have hnewline : c ≠ '\n' := by
    rintro rfl
    contradiction
  obtain ⟨first, rest, hsplit⟩ := Text.exists_splitOn_cons t
  have hcut : Text.splitOn '\n' (c :: t) = (c :: first) :: rest :=
    Text.splitOn_append (u := [c]) (by simpa using hnewline.symm) hsplit
  rw [relaid_eq hcut]
  by_cases hline : '\n' ∈ u
  · obtain ⟨v, l, rfl, hl⟩ := Text.exists_last_line hline
    obtain ⟨z, hz⟩ := exists_moved_append l hc first
    rw [List.append_assoc, List.cons_append,
      relaid_append_newline v (Text.splitOn_append hl hcut), hz, Text.unlines_append]
    exact ⟨relaid width by_ v ++ '\n' :: z, by simp⟩
  · rw [relaid_eq (Text.splitOn_append hline hcut), Text.unlines_append]
    exact List.suffix_append _ _

end Indentation

end Graft
