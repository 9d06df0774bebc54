import Graft.Indentation
import Graft.Proofs.Splice

set_option autoImplicit false

/-!
Texts with blanks put in at the start of lines. Moving a text to the right pads it in this way, so
what padding keeps, such as the ink, indentation keeps too.
-/

namespace Graft

namespace Text

/-- The second text is the first with blanks put in after some of its newlines. -/
inductive Padded : Text → Text → Prop
  | nil : Padded [] []
  | char (c : Char) {t t' : Text} : Padded t t' → Padded (c :: t) (c :: t')
  | line {b t t' : Text} : b.isBlankText → Padded t t' → Padded ('\n' :: t) ('\n' :: (b ++ t'))

namespace Padded

variable {t t' : Text}

theorem append (u : Text) (h : Padded t t') : Padded (u ++ t) (u ++ t') := by
  induction u with
  | nil => exact h
  | cons c u ih => exact ih.char c

theorem refl (t : Text) : Padded t t := by
  simpa using nil.append t

theorem head_eq (h : Padded t t') : t'.head? = t.head? := by
  cases h <;> rfl

theorem eq_nil (h : Padded [] t') : t' = [] := by
  cases h
  rfl

theorem ink_eq (h : Padded t t') : t'.ink = t.ink := by
  induction h with
  | nil => rfl
  | char c _ ih => rw [ink_cons, ink_cons, ih]
  | line hb _ ih => rw [ink_cons, ink_cons, ink_append, ink_eq_nil_iff.mpr hb, List.nil_append, ih]

theorem of_append {u : Text} (hu : '\n' ∉ u) (h : Padded (u ++ t) t') :
    ∃ r, t' = u ++ r ∧ Padded t r := by
  induction u generalizing t' with
  | nil => exact ⟨t', rfl, h⟩
  | cons c u ih =>
    rw [List.mem_cons, not_or] at hu
    rw [List.cons_append] at h
    cases h with
    | char _ h =>
      obtain ⟨r, rfl, hr⟩ := ih hu.2 h
      exact ⟨r, rfl, hr⟩
    | line => exact absurd rfl hu.1

theorem of_append_padded {u : Text} (hu : '\n' ∉ u) (h : Padded t (u ++ t')) :
    ∃ r, t = u ++ r ∧ Padded r t' := by
  induction u generalizing t with
  | nil => exact ⟨t, rfl, h⟩
  | cons c u ih =>
    rw [List.mem_cons, not_or] at hu
    rw [List.cons_append] at h
    generalize hs : u ++ t' = s at h
    cases h with
    | char _ h =>
      subst hs
      obtain ⟨r, rfl, hr⟩ := ih hu.2 h
      exact ⟨r, rfl, hr⟩
    | line => exact absurd rfl hu.1

end Padded

theorem unlines_cons_cons (l m : Text) (ls : List Text) :
    unlines (l :: m :: ls) = l ++ '\n' :: unlines (m :: ls) := by
  simp [unlines, join_cons]

theorem unlines_append (b l : Text) (ls : List Text) :
    unlines ((b ++ l) :: ls) = b ++ unlines (l :: ls) :=
  join_append ['\n'] b l ls

theorem unlines_append_cons (ls : List Text) (m : Text) (ms : List Text) :
    unlines (ls ++ m :: ms) = ls.flatMap (· ++ ['\n']) ++ unlines (m :: ms) :=
  join_append_cons ['\n'] ls m ms

theorem unlines_concat (ls : List Text) (last : Text) :
    unlines (ls ++ [last]) = ls.flatMap (· ++ ['\n']) ++ last :=
  join_concat ['\n'] ls last

theorem exists_splitOn_cons (t : Text) : ∃ l ls, t.splitOn '\n' = l :: ls :=
  List.exists_cons_of_ne_nil (splitWhen_ne_nil _ t)

theorem unlines_splitOn (t : Text) : unlines (t.splitOn '\n') = t := join_splitOn '\n' t

theorem padded_unlines {f : Text → Text}
    (hf : ∀ l, ∃ b : Text, b.isBlankText ∧ f l = b ++ l) (l : Text) (ls : List Text) :
    Padded (unlines (l :: ls)) (unlines (l :: ls.map f)) := by
  induction ls generalizing l with
  | nil => exact .refl _
  | cons m ls ih =>
    obtain ⟨b, hb, hm⟩ := hf m
    rw [List.map_cons, unlines_cons_cons, unlines_cons_cons, hm, unlines_append]
    exact ((ih m).line hb).append l

end Text

namespace Indentation

theorem mapLines_nil (f : Text → Text) (t : Text) :
    mapLines f [] t = Text.unlines ((t.splitOn '\n').map f) :=
  congrArg Text.unlines (List.ext_getElem (by simp) (by simp))

theorem exists_padded_of_indent {by_ : Text} (hblank : by_.isBlankText) (t : Text) :
    ∃ b t' : Text, b.isBlankText ∧ Text.Padded t t' ∧ Indentation.indent t by_ [] = b ++ t' := by
  have hmove : ∀ l : Text, ∃ b : Text,
      b.isBlankText ∧ (if l.isBlankText then l else by_ ++ l) = b ++ l := by
    intro l
    split
    · exact ⟨[], rfl, rfl⟩
    · exact ⟨by_, hblank, rfl⟩
  unfold Indentation.indent
  split
  · exact ⟨[], t, rfl, .refl t, rfl⟩
  · obtain ⟨l, ls, hsplit⟩ := Text.exists_splitOn_cons t
    obtain ⟨b, hb, hl⟩ := hmove l
    have hpadded := Text.padded_unlines hmove l ls
    rw [← hsplit, Text.unlines_splitOn] at hpadded
    refine ⟨b, _, hb, hpadded, ?_⟩
    rw [mapLines_nil, hsplit, List.map_cons, hl, Text.unlines_append]

theorem ink_indent {by_ : Text} (hblank : by_.isBlankText) (t : Text) :
    (Indentation.indent t by_ []).ink = t.ink := by
  obtain ⟨b, t', hb, hpadded, heq⟩ := exists_padded_of_indent hblank t
  rw [heq, Text.ink_append, Text.ink_eq_nil_iff.mpr hb, List.nil_append, hpadded.ink_eq]

end Indentation

end Graft
