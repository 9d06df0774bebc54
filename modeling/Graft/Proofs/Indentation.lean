import Graft.Proofs.Relaid

set_option autoImplicit false

/-!
Texts moved to the left and to the right. Either way the lines stay apart, verbatim ones stay as
they are, and no other line changes beyond the blanks at its start. The one move undoes the other
just where nothing is lost on the way: blank lines are empty, and for a move to the left first, the
others have the indentation to lose.
-/

namespace Graft

namespace Indentation

variable {by_ : Text} {verbatim : List Nat} {t : Text}

def pulled (width : Nat) (line : Text) : Text := if line.isBlankText then [] else strip width line

theorem newline_not_mem_pulled (width : Nat) {line : Text} (h : '\n' ∉ line) :
    '\n' ∉ pulled width line := by
  unfold pulled
  split
  · exact List.not_mem_nil
  · exact fun hin => h (List.mem_of_mem_drop hin)

section

variable (hby : ∀ c ∈ by_, Text.isIndent c)
include hby

theorem newline_not_mem_of_forall : '\n' ∉ by_ := fun hin =>
  absurd (hby _ hin) (by decide)

theorem strip_append (line : Text) : strip by_.length (by_ ++ line) = line := by
  have hindent : (by_ ++ line).indentation = by_ ++ line.indentation :=
    List.takeWhile_append_of_pos hby
  rw [strip, hindent, List.length_append, Nat.min_eq_left (Nat.le_add_right _ _), List.drop_left]

theorem prefix_iff_take (line : Text) : by_ <+: line ↔ by_ = line.indentation.take by_.length := by
  constructor
  · rintro ⟨rest, rfl⟩
    rw [Text.indentation, List.takeWhile_append_of_pos hby, List.take_left]
  · intro h
    rw [h]
    exact (List.take_prefix _ _).trans (Text.indentation_prefix line)

theorem pulled_moved_eq_iff (line : Text) :
    pulled by_.length (moved 0 by_ line) = line ↔ (line.isBlankText → line = []) := by
  by_cases hblank : line.isBlankText
  · rw [moved, if_pos hblank, strip_zero, pulled, if_pos hblank]
    exact ⟨fun h _ => h.symm, fun h => (h hblank).symm⟩
  · have hboth : ¬(by_ ++ line).isBlankText := by
      rw [Text.isBlankText, List.all_append, Bool.and_eq_true]
      exact fun h => hblank h.2
    rw [moved, if_neg hblank, strip_zero, pulled, if_neg hboth, strip_append hby]
    exact ⟨fun _ h => absurd h hblank, fun _ => rfl⟩

theorem moved_pulled_eq_iff (line : Text) :
    moved 0 by_ (pulled by_.length line) = line ↔
      (line.isBlankText → line = []) ∧ (line.isBlankText = false → by_ <+: line) := by
  unfold pulled
  split
  · next hblank =>
    have hnil : moved 0 by_ [] = [] := rfl
    rw [hnil]
    exact ⟨fun h => ⟨fun _ => h.symm, fun hno => by simp [hblank] at hno⟩,
      fun h => (h.1 hblank).symm⟩
  · next hblank =>
    rw [moved_strip, moved_eq_iff, Fits, if_neg hblank, ← prefix_iff_take hby]
    simp [hblank]

end

/-- Every line that is not verbatim has the property. -/
def ForOthers (verbatim : List Nat) (t : Text) (p : Text → Prop) : Prop :=
  ∀ e ∈ (t.splitOn '\n').zipIdx, e.2 ∉ verbatim → p e.1

instance {p : Text → Prop} [DecidablePred p] : Decidable (ForOthers verbatim t p) :=
  inferInstanceAs (Decidable (∀ e ∈ (t.splitOn '\n').zipIdx, e.2 ∉ verbatim → p e.1))

/-- The lines of `t'` are those of `t`, the verbatim ones as they are and each other one with at
most the blanks at its start changed, or emptied if it is blank. -/
structure Realigned (verbatim : List Nat) (t t' : Text) : Prop where
  length_eq : (t'.splitOn '\n').length = (t.splitOn '\n').length
  verbatim_eq : ∀ i ∈ verbatim, (t'.splitOn '\n')[i]? = (t.splitOn '\n')[i]?
  other_eq : ∀ i line line', i ∉ verbatim → (t.splitOn '\n')[i]? = some line →
    (t'.splitOn '\n')[i]? = some line' →
    line'.dropWhile Text.isIndent = line.dropWhile Text.isIndent ∨ line.isBlankText ∧ line' = []

theorem forOthers_congr {p q : Text → Prop} (h : ∀ line, p line ↔ q line) :
    ForOthers verbatim t p ↔ ForOthers verbatim t q :=
  forall₃_congr fun e _ _ => h e.1

theorem forOthers_and {p q : Text → Prop} :
    (ForOthers verbatim t fun line => p line ∧ q line) ↔ ForOthers verbatim t p ∧
      ForOthers verbatim t q :=
  ⟨fun h => ⟨fun e he hi => (h e he hi).1, fun e he hi => (h e he hi).2⟩,
    fun h e he hi => ⟨h.1 e he hi, h.2 e he hi⟩⟩

section

variable {f g : Text → Text}

theorem getElem?_splitOn_mapLines (hfeed : ∀ line, '\n' ∉ line → '\n' ∉ f line)
    (verbatim : List Nat) (t : Text) (i : Nat) :
    ((mapLines f verbatim t).splitOn '\n')[i]? =
      (t.splitOn '\n')[i]?.map fun line => if i ∈ verbatim then line else f line := by
  rw [splitOn_mapLines hfeed, List.getElem?_mapIdx]
  simp

theorem realigned_mapLines (hfeed : ∀ line, '\n' ∉ line → '\n' ∉ f line)
    (hf : ∀ line, (f line).dropWhile Text.isIndent = line.dropWhile Text.isIndent ∨
        line.isBlankText ∧ f line = [])
    (verbatim : List Nat) (t : Text) : Realigned verbatim t (mapLines f verbatim t) where
  length_eq := by rw [splitOn_mapLines hfeed, List.length_mapIdx]
  verbatim_eq i hi := by simp [getElem?_splitOn_mapLines hfeed, hi]
  other_eq i line line' hi hline hline' := by
    rw [getElem?_splitOn_mapLines hfeed, hline, Option.map_some, if_neg hi] at hline'
    exact Option.some.inj hline' ▸ hf line

theorem mapLines_mapLines (hfeed : ∀ line, '\n' ∉ line → '\n' ∉ f line) (verbatim : List Nat)
    (t : Text) :
    mapLines g verbatim (mapLines f verbatim t) = mapLines (fun line => g (f line)) verbatim t := by
  rw [mapLines, splitOn_mapLines hfeed, List.mapIdx_mapIdx, mapLines]
  congr 2
  funext i line
  by_cases hi : i ∈ verbatim <;> simp [hi]

theorem mapLines_eq_self_iff (hfeed : ∀ line, '\n' ∉ line → '\n' ∉ f line) (verbatim : List Nat)
    (t : Text) :
    mapLines f verbatim t = t ↔ ForOthers verbatim t fun line => f line = line := by
  constructor
  · intro h e he hi
    have heq := getElem?_splitOn_mapLines hfeed verbatim t e.2
    rw [h, List.mem_zipIdx_iff_getElem?.mp he, Option.map_some, if_neg hi] at heq
    exact (Option.some.inj heq).symm
  · intro h
    have hlines : (mapLines f verbatim t).splitOn '\n' = t.splitOn '\n' := by
      refine List.ext_getElem? fun i => ?_
      rw [getElem?_splitOn_mapLines hfeed]
      cases hline : (t.splitOn '\n')[i]? with
      | none => rfl
      | some line =>
        by_cases hi : i ∈ verbatim
        · simp [hi]
        · simp [hi, h (line, i) (List.mem_zipIdx_iff_getElem?.mpr hline) hi]
    rw [← Text.unlines_splitOn (mapLines f verbatim t), hlines, Text.unlines_splitOn]

end

theorem dropWhile_pulled (width : Nat) (line : Text) :
    (pulled width line).dropWhile Text.isIndent = line.dropWhile Text.isIndent ∨
      line.isBlankText ∧ pulled width line = [] := by
  unfold pulled
  split
  · next hblank => exact .inr ⟨hblank, rfl⟩
  · refine .inl ?_
    conv_rhs => rw [← take_append_strip width line]
    exact (List.dropWhile_append_of_pos fun c hc =>
      List.mem_takeWhile_imp (List.mem_of_mem_take hc)).symm

theorem dropWhile_moved (hby : ∀ c ∈ by_, Text.isIndent c) (line : Text) :
    (moved 0 by_ line).dropWhile Text.isIndent = line.dropWhile Text.isIndent := by
  rw [moved, strip_zero]
  split
  · rfl
  · exact List.dropWhile_append_of_pos hby

theorem dedent_eq_mapLines (t : Text) (width : Nat) (verbatim : List Nat) :
    dedent t width verbatim = mapLines (pulled width) verbatim t := rfl

/-- Moving to the left and to the right by the same indentation keep the lines and what is in them,
and the one undoes the other just if blank lines are empty and, for a move to the left first, all
others start with it. -/
theorem dedent_indent_inverse (hby : ∀ c ∈ by_, Text.isIndent c) (t : Text) (verbatim : List Nat) :
    Realigned verbatim t (dedent t by_.length verbatim) ∧
      Realigned verbatim t (indent t by_ verbatim) ∧
    (dedent (indent t by_ verbatim) by_.length verbatim = t ↔
      ForOthers verbatim t fun line => line.isBlankText → line = []) ∧
    (indent (dedent t by_.length verbatim) by_ verbatim = t ↔
      (ForOthers verbatim t fun line => line.isBlankText → line = []) ∧
      ForOthers verbatim t fun line => line.isBlankText = false → by_ <+: line) := by
  have hpulled : ∀ line, '\n' ∉ line → '\n' ∉ pulled by_.length line :=
    fun _ => newline_not_mem_pulled _
  have hmoved : ∀ line, '\n' ∉ line → '\n' ∉ moved 0 by_ line := fun _ =>
    newline_not_mem_moved (newline_not_mem_of_forall hby)
  simp only [dedent_eq_mapLines, indent_eq_mapLines, mapLines_mapLines hpulled,
    mapLines_mapLines hmoved]
  refine ⟨realigned_mapLines hpulled (dropWhile_pulled _) _ t,
    realigned_mapLines hmoved (fun line => .inl (dropWhile_moved hby line)) _ t, ?_, ?_⟩
  · rw [mapLines_eq_self_iff fun line hline => hpulled _ (hmoved line hline)]
    exact forOthers_congr (pulled_moved_eq_iff hby)
  · rw [mapLines_eq_self_iff fun line hline => hmoved _ (hpulled line hline), ← forOthers_and]
    exact forOthers_congr (moved_pulled_eq_iff hby)

theorem dedent_indent_inverse_string :
    let by_ : Text := "\t ".toList
    let t : Text := "\t x = '''\n raw\n  \n\n\t \ty".toList
    (∀ c ∈ by_, Text.isIndent c) ∧
      dedent t by_.length [1, 2] = "x = '''\n raw\n  \n\n\ty".toList ∧
      indent (dedent t by_.length [1, 2]) by_ [1, 2] = t ∧
      dedent (indent t by_ [1, 2]) by_.length [1, 2] = t := by
  intro by_ t
  have hby : ∀ c ∈ by_, Text.isIndent c := by simp [by_, Text.isIndent]
  obtain ⟨-, -, hright, hleft⟩ := dedent_indent_inverse hby t [1, 2]
  exact ⟨hby, by decide +kernel, hleft.mpr (by decide +kernel), hright.mpr (by decide +kernel)⟩

theorem indentation_eq_nil_iff (line : Text) :
    line.indentation = [] ↔ ∀ c ∈ line.head?, c ≠ ' ' ∧ c ≠ '\t' := by
  cases line with
  | nil => simp [Text.indentation]
  | cons c line => simp [Text.indentation, List.takeWhile_cons, Text.isIndent]

theorem fits_iff (hne : by_ ≠ []) (hby : ∀ c ∈ by_, Text.isIndent c) (line : Text) :
    Fits by_.length by_ line ↔ (line.isBlankText = false → by_ <+: line) ∧
      (line.isBlankText → ∀ c ∈ line.head?, c ≠ ' ' ∧ c ≠ '\t') := by
  have hwidth : by_.length ≠ 0 := mt List.length_eq_zero_iff.mp hne
  rw [← indentation_eq_nil_iff, prefix_iff_take hby]
  unfold Fits
  split
  · next hblank => simp [hblank, hne]
  · next hblank => simp [hblank]

/-- Moving all lines but the first to the left and then all lines to the right gives the text back,
with the indentation before it, just if every later line fits: a blank one starts with neither a
space nor a tab, any other with the indentation. -/
theorem indent_dedentTail_eq_iff (hne : by_ ≠ []) (hby : ∀ c ∈ by_, Text.isIndent c) (t : Text)
    (hfirst : ((t.splitOn '\n').headD []).isBlankText = false) :
    indent (dedentTail t by_) by_ [] = by_ ++ t ↔
      ∀ line ∈ (t.splitOn '\n').tail, (line.isBlankText = false → by_ <+: line) ∧
        (line.isBlankText → ∀ c ∈ line.head?, c ≠ ' ' ∧ c ≠ '\t') := by
  obtain ⟨first, rest, hsplit⟩ := Text.exists_splitOn_cons t
  rw [hsplit, List.headD_cons] at hfirst
  calc indent (dedentTail t by_) by_ [] = by_ ++ t
      ↔ by_ ++ relaid 0 by_ (dedentTail t by_) = by_ ++ t := by
        rw [indent_eq_relaid by_ (splitOn_dedentTail by_ hsplit), hfirst]
        rfl
    _ ↔ relaid by_.length by_ t = t := by rw [List.append_right_inj, relaid_dedentTail]
    _ ↔ ∀ line ∈ (t.splitOn '\n').tail, Fits by_.length by_ line :=
        relaid_eq_self_iff (newline_not_mem_of_forall hby) t
    _ ↔ _ := forall₂_congr fun line _ => fits_iff hne hby line

theorem indent_dedentTail_eq_iff_feed :
    let by_ : Text := "  ".toList
    let t : Text := "f(\n    g,\n\x0c\n  )".toList
    by_ ≠ [] ∧ (∀ c ∈ by_, Text.isIndent c) ∧ ((t.splitOn '\n').headD []).isBlankText = false ∧
      indent (dedentTail t by_) by_ [] = by_ ++ t := by
  intro by_ t
  have hby : ∀ c ∈ by_, Text.isIndent c := by simp [by_, Text.isIndent]
  have hfirst : ((t.splitOn '\n').headD []).isBlankText = false := by decide +kernel
  have hlines : (t.splitOn '\n').tail = ["    g,".toList, "\x0c".toList, "  )".toList] := by
    decide +kernel
  refine ⟨by decide, hby, hfirst, (indent_dedentTail_eq_iff (by decide) hby t hfirst).mpr ?_⟩
  rw [hlines]
  refine List.forall_mem_cons.mpr
    ⟨⟨fun _ => by decide +kernel, fun h => absurd h (by decide +kernel)⟩, ?_⟩
  refine List.forall_mem_cons.mpr ⟨⟨fun h => absurd h (by decide +kernel), fun _ c hc => ?_⟩, ?_⟩
  · obtain rfl := Option.some.inj hc
    decide
  · exact List.forall_mem_singleton.mpr ⟨fun _ => by decide +kernel, fun h =>
      absurd h (by decide +kernel)⟩

end Indentation

end Graft
