import Graft.Proofs.ClassMerge
import Graft.Proofs.Relaid

set_option autoImplicit false

/-!
Lines shown in a text, up to the blanks around them. A line stays shown when lines are put before or
behind it, when blanks are put around the text or dropped at its end, and when the text is moved to
the left or right.
-/

namespace Graft

namespace Text

/-- One of the lines is `l`, with blanks around it. -/
def Shows (t l : Text) : Prop :=
  ∃ a b : Text, a.isBlankText ∧ b.isBlankText ∧ a ++ (l ++ b) ∈ t.splitOn '\n'

def OpensLine (t : Text) : Prop := t = [] ∨ ∃ u, t = u ++ ['\n']

/-- What stands before the text ends a line with it, up to blanks. -/
def ClosesLine (t : Text) : Prop := ∃ b u : Text, b.isBlankText ∧ (t = b ∨ t = b ++ '\n' :: u)

theorem isBlankText_append {t u : Text} : (t ++ u).isBlankText ↔ t.isBlankText ∧ u.isBlankText := by
  simp [isBlankText, List.all_append]

theorem isBlankText_of_subset {t u : Text} (h : t ⊆ u) (hu : u.isBlankText) : t.isBlankText :=
  List.all_eq_true.mpr fun c hc => List.all_eq_true.mp hu c (h hc)

theorem subset_of_mem_splitOn {t l : Text} (h : l ∈ t.splitOn '\n') : l ⊆ t := by
  have hin : l <:+: unlines (t.splitOn '\n') := infix_join ['\n'] h
  rw [unlines_splitOn] at hin
  exact hin.subset

theorem exists_splitOn_append (t : Text) :
    ∃ ls last, '\n' ∉ last ∧ last ⊆ t ∧ t.splitOn '\n' = ls ++ [last] ∧
    ∀ v : Text, (t ++ v).splitOn '\n' = ls ++ (last ++ v).splitOn '\n' := by
  by_cases ht : '\n' ∈ t
  · obtain ⟨u, l, rfl, hl⟩ := exists_last_line ht
    refine ⟨u.splitOn '\n', l, hl, by simp, ?_, fun v => ?_⟩
    · rw [splitOn_append_newline, splitOn_of_not_mem hl]
    · rw [List.append_assoc, List.cons_append, splitOn_append_newline]
  · exact ⟨[], t, ht, List.Subset.refl t, by rw [splitOn_of_not_mem ht, List.nil_append],
      fun v => rfl⟩

namespace Shows

variable {t u l b : Text} {c : Char}

theorem append_newline (h : t.Shows l) (u : Text) : (t ++ '\n' :: u).Shows l := by
  obtain ⟨a, b, ha, hb, hmem⟩ := h
  exact ⟨a, b, ha, hb, by simp [splitOn_append_newline, hmem]⟩

theorem newline_append (t : Text) (h : u.Shows l) : (t ++ '\n' :: u).Shows l := by
  obtain ⟨a, b, ha, hb, hmem⟩ := h
  exact ⟨a, b, ha, hb, by simp [splitOn_append_newline, hmem]⟩

theorem append_blank (h : t.Shows l) (hb : b.isBlankText) : (t ++ b).Shows l := by
  obtain ⟨x, y, hx, hy, hmem⟩ := h
  obtain ⟨ls, last, hlast, -, hsplit, happend⟩ := exists_splitOn_append t
  obtain ⟨first, rest, hfirst⟩ := exists_splitOn_cons b
  have hblank : first.isBlankText :=
    isBlankText_of_subset (subset_of_mem_splitOn (by simp [hfirst])) hb
  have hlines := happend b
  rw [splitOn_append hlast hfirst] at hlines
  rw [hsplit, List.mem_append, List.mem_singleton] at hmem
  rcases hmem with hmem | rfl
  · exact ⟨x, y, hx, hy, by simp [hlines, hmem]⟩
  · exact ⟨x, y ++ first, hx, isBlankText_append.mpr ⟨hy, hblank⟩, by simp [hlines]⟩

theorem blank_append (hb : b.isBlankText) (h : t.Shows l) : (b ++ t).Shows l := by
  obtain ⟨x, y, hx, hy, hmem⟩ := h
  obtain ⟨ls, last, hlast, hsubset, -, happend⟩ := exists_splitOn_append b
  obtain ⟨first, rest, hfirst⟩ := exists_splitOn_cons t
  have hlines := happend t
  rw [splitOn_append hlast hfirst] at hlines
  rw [hfirst, List.mem_cons] at hmem
  rcases hmem with rfl | hmem
  · refine ⟨last ++ x, y, isBlankText_append.mpr ⟨isBlankText_of_subset hsubset hb, hx⟩, hy, ?_⟩
    simp [hlines]
  · exact ⟨x, y, hx, hy, by simp [hlines, hmem]⟩

theorem opened (hu : u.OpensLine) (h : t.Shows l) : (u ++ t).Shows l := by
  rcases hu with rfl | ⟨v, rfl⟩
  · exact h
  · rw [List.append_assoc]
    exact newline_append v h

theorem closed (h : t.Shows l) (hu : u.ClosesLine) : (t ++ u).Shows l := by
  obtain ⟨b, v, hb, rfl | rfl⟩ := hu
  · exact h.append_blank hb
  · rw [← List.append_assoc]
    exact (h.append_blank hb).append_newline v

theorem of_append_blank (hc : isBlank c = false) (hb : b.isBlankText)
    (h : (t ++ b).Shows (l ++ [c])) :
    t.Shows (l ++ [c]) := by
  obtain ⟨x, y, hx, hy, hmem⟩ := h
  obtain ⟨ls, last, hlast, -, hsplit, happend⟩ := exists_splitOn_append t
  obtain ⟨first, rest, hfirst⟩ := exists_splitOn_cons b
  have hinked : ∀ line ∈ b.splitOn '\n', c ∉ line := fun line hline hin => by
    rw [List.all_eq_true.mp hb c (subset_of_mem_splitOn hline hin)] at hc
    contradiction
  rw [hfirst, List.forall_mem_cons] at hinked
  rw [happend, splitOn_append hlast hfirst, List.mem_append, List.mem_cons] at hmem
  rcases hmem with hmem | heq | hmem
  · exact ⟨x, y, hx, hy, hsplit ▸ List.mem_append_left [last] hmem⟩
  · rw [← List.append_assoc] at heq
    rcases List.append_eq_append_iff.mp heq with ⟨z, hz, hy'⟩ | ⟨z, hz, hfirst'⟩
    · refine ⟨x, z, hx, (isBlankText_append.mp (hy' ▸ hy)).1, ?_⟩
      rw [hsplit, ← List.append_assoc, ← hz]
      simp
    · rcases List.eq_nil_or_concat z with rfl | ⟨w, d, rfl⟩
      · refine ⟨x, [], hx, rfl, ?_⟩
        rw [hsplit, List.append_nil, hz]
        simp
      · -- The line would end among the blanks, with a character that is none.
        rw [List.concat_eq_append, ← List.append_assoc, ← List.append_assoc] at hz
        obtain rfl : c = d := (List.append_inj' hz rfl).2 |> List.singleton_inj.mp
        exact absurd (by simp [hfirst']) hinked.1
  · exact absurd (by simp) (hinked.2 _ hmem)

theorem trimEnd (hc : isBlank c = false) (h : t.Shows (l ++ [c])) : t.trimEnd.Shows (l ++ [c]) := by
  obtain ⟨b, heq, hb⟩ := exists_dropLastWhile_append isBlank t
  rw [heq] at h
  exact of_append_blank hc (List.all_eq_true.mpr hb) h

theorem trimmed (h : t.Shows l) : t.Shows l.trimEnd := by
  obtain ⟨x, y, hx, hy, hmem⟩ := h
  obtain ⟨b, heq, hb⟩ := exists_dropLastWhile_append isBlank l
  refine ⟨x, b ++ y, hx, isBlankText_append.mpr ⟨List.all_eq_true.mpr hb, hy⟩, ?_⟩
  rwa [heq, List.append_assoc] at hmem

theorem join (hb : b.isBlankText) {ts : List Text} (ht : t ∈ ts) (h : t.Shows l) :
    (Text.join ('\n' :: b) ts).Shows l := by
  induction ts with
  | nil => contradiction
  | cons x ts ih =>
    cases ts with
    | nil =>
      obtain rfl := List.mem_singleton.mp ht
      simpa [Text.join] using h
    | cons y ts =>
      rw [Text.join, List.intercalate_cons_cons, List.append_assoc, List.cons_append]
      rcases List.mem_cons.mp ht with rfl | ht
      · exact h.append_newline _
      · exact newline_append x (blank_append hb (ih ht))

end Shows

end Text

namespace Indentation

open Text

variable {c : Char} {t l : Text}

theorem exists_strip_eq (hc : isBlank c = false) (width : Nat) {a : Text} (ha : a.isBlankText)
    (t : Text) :
    ∃ b : Text, b.isBlankText ∧ strip width (a ++ c :: t) = b ++ c :: t := by
  have heq := take_append_strip width (a ++ c :: t)
  rcases List.append_eq_append_iff.mp heq with ⟨x, hx, hstrip⟩ | ⟨x, hx, hstrip⟩
  · exact ⟨x, (isBlankText_append.mp (hx ▸ ha)).2, hstrip⟩
  · cases x with
    | nil => exact ⟨[], rfl, hstrip.symm⟩
    | cons d x =>
      obtain ⟨rfl, -⟩ := List.cons.inj hstrip
      have hin : c ∈ (a ++ c :: t).indentation := List.mem_of_mem_take (by rw [hx]; simp)
      rw [isBlank_of_mem_indentation c hin] at hc
      contradiction

theorem shows_mapLines {f : Text → Text} (hfeed : ∀ line, '\n' ∉ line → '\n' ∉ f line)
    (hf : ∀ a t : Text, a.isBlankText → ∃ b : Text, b.isBlankText ∧ f (a ++ c :: t) = b ++ c :: t)
    (verbatim : List Nat) (h : t.Shows (c :: l)) : (mapLines f verbatim t).Shows (c :: l) := by
  obtain ⟨x, y, hx, hy, hmem⟩ := h
  obtain ⟨i, hi, hline⟩ := List.mem_iff_getElem.mp hmem
  have hmapped : (if verbatim.contains i then x ++ (c :: l ++ y) else f (x ++ (c :: l ++ y))) ∈
      (mapLines f verbatim t).splitOn '\n' := by
    rw [splitOn_mapLines hfeed, ← hline]
    exact List.mem_mapIdx.mpr ⟨i, hi, rfl⟩
  split at hmapped
  · exact ⟨x, y, hx, hy, hmapped⟩
  · obtain ⟨b, hb, heq⟩ := hf x (l ++ y) hx
    exact ⟨b, y, hb, hy, heq ▸ hmapped⟩

theorem isBlankText_append_cons (hc : isBlank c = false) (a t : Text) :
    (a ++ c :: t).isBlankText = false := by
  simp [isBlankText, List.all_append, hc]

theorem shows_dedent (hc : isBlank c = false) (width : Nat) (verbatim : List Nat)
    (h : t.Shows (c :: l)) :
    (dedent t width verbatim).Shows (c :: l) := by
  refine shows_mapLines (fun line hline => ?_) (fun a u ha => ?_) verbatim h
  · split
    · exact List.not_mem_nil
    · exact fun hin => hline (List.mem_of_mem_drop hin)
  · rw [isBlankText_append_cons hc]
    exact exists_strip_eq hc width ha u

theorem shows_indent (hc : isBlank c = false) {by_ : Text} (hblank : by_.isBlankText)
    (hfeed : '\n' ∉ by_) (verbatim : List Nat) (h : t.Shows (c :: l)) :
    (indent t by_ verbatim).Shows (c :: l) := by
  unfold indent
  split
  · exact h
  · refine shows_mapLines (fun line hline => ?_) (fun a u ha => ?_) verbatim h
    · split
      · exact hline
      · simp [hline, hfeed]
    · rw [isBlankText_append_cons hc]
      exact ⟨by_ ++ a, isBlankText_append.mpr ⟨hblank, ha⟩, by simp⟩

end Indentation

end Graft
