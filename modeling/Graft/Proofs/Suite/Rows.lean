import Graft.Proofs.Shown
import Graft.Proofs.Suite.Frame

set_option autoImplicit false

/-!
Rows that hold only a comment. Where every row ends with a newline, the rows that are counted for
the comments are those that are counted for the statements, and a row with a comment is that comment
behind blanks.
-/

namespace Graft

namespace Text

variable {isEnd : Char → Bool} {t : Text}

theorem of_mem_linesBy {l : Text × Text} (h : l ∈ linesBy isEnd t) :
    (∀ c ∈ l.1, isEnd c = false) ∧ (l.2 = [] ∨ l.2 = ['\r', '\n'] ∨ ∃ c, isEnd c ∧ l.2 = [c]) := by
  fun_induction linesBy isEnd t generalizing l with
  | case1 => contradiction
  | case2 cs ih =>
    rcases List.mem_cons.mp h with rfl | h
    · exact ⟨by simp, .inr (.inl rfl)⟩
    · exact ih h
  | case3 c cs hcrlf hc ih =>
    rcases List.mem_cons.mp h with rfl | h
    · exact ⟨by simp, .inr (.inr ⟨c, hc, rfl⟩)⟩
    · exact ih h
  | case4 c cs hcrlf hc hnil ih =>
    obtain rfl := List.mem_singleton.mp h
    exact ⟨by simpa using hc, .inl rfl⟩
  | case5 c cs hcrlf hc line stop rest hcons ih =>
    rw [hcons] at ih
    rcases List.mem_cons.mp h with rfl | h
    · obtain ⟨hline, hstop⟩ := ih List.mem_cons_self
      exact ⟨List.forall_mem_cons.mpr ⟨by simpa using hc, hline⟩, hstop⟩
    · exact ih (List.mem_cons_of_mem _ h)

theorem end_ne_nil {i : Nat} {l : Text × Text} (hl : (linesBy isEnd t)[i]? = some l)
    (hlt : i + 1 < (linesBy isEnd t).length) : l.2 ≠ [] := by
  fun_induction linesBy isEnd t generalizing i l with
  | case1 => contradiction
  | case2 cs ih =>
    cases i with
    | zero =>
      obtain rfl := Option.some.inj hl
      simp
    | succ i => exact ih (by simpa using hl) (by simpa using hlt)
  | case3 c cs hcrlf hc ih =>
    cases i with
    | zero =>
      obtain rfl := Option.some.inj hl
      simp
    | succ i => exact ih (by simpa using hl) (by simpa using hlt)
  | case4 c cs hcrlf hc hnil ih => simp at hlt
  | case5 c cs hcrlf hc line stop rest hcons ih =>
    rw [hcons] at ih
    cases i with
    | zero =>
      obtain rfl := Option.some.inj hl
      exact ih (l := (line, stop)) rfl hlt
    | succ i => exact ih (i := i + 1) hl hlt

theorem drop_rowStart (isEnd : Char → Bool) (t : Text) (n : Nat) :
    t.drop (rowStart isEnd t n) = ((linesBy isEnd t).drop n).flatMap withEnd := by
  have hall := flatMap_linesBy isEnd t
  rw [← List.take_append_drop n (linesBy isEnd t), List.flatMap_append] at hall
  have hdrop : (((linesBy isEnd t).take n).flatMap withEnd ++
      ((linesBy isEnd t).drop n).flatMap withEnd).drop
      (((linesBy isEnd t).take n).flatMap withEnd).length =
        ((linesBy isEnd t).drop n).flatMap withEnd :=
    List.drop_left
  rwa [hall] at hdrop

theorem splitOn_newline_cons (t : Text) : Text.splitOn '\n' ('\n' :: t) = [] :: t.splitOn '\n' :=
  splitOn_append_newline [] t

end Text

namespace Suite

/-- No row ends with a carriage return alone. -/
def hasFeeds (host : Text) : Bool := (Text.linesBy isRowEnd host).all fun l => l.2 != ['\r']

theorem withFeeds_cons (l : Text) {ls : List Text} (h : ls ≠ []) :
    Rows.withFeeds (l :: ls) = (l ++ ['\n']) :: Rows.withFeeds ls := by
  obtain ⟨m, ls, rfl⟩ := List.exists_cons_of_ne_nil h
  rfl

theorem withFeeds_splitOn {host : Text} (h : hasFeeds host) :
    Rows.withFeeds (host.splitOn '\n') = (Text.linesBy isRowEnd host).map Text.withEnd := by
  unfold hasFeeds at h
  fun_induction Text.linesBy isRowEnd host with
  | case1 => rfl
  | case2 cs ih =>
    obtain ⟨first, rest, hsplit⟩ := Text.exists_splitOn_cons cs
    have hcut : Text.splitOn '\n' ('\r' :: '\n' :: cs) = ['\r'] :: Text.splitOn '\n' cs :=
      Text.splitOn_append_newline ['\r'] cs
    rw [List.all_cons, Bool.and_eq_true] at h
    rw [hcut, withFeeds_cons _ (by simp [hsplit]), ih h.2]
    rfl
  | case3 c cs hcrlf hc ih =>
    obtain ⟨first, rest, hsplit⟩ := Text.exists_splitOn_cons cs
    rw [List.all_cons, Bool.and_eq_true] at h
    obtain rfl : c = '\n' := by
      have hne : c ≠ '\r' := by simpa using h.1
      simpa [isRowEnd, hne] using hc
    rw [Text.splitOn_newline_cons, withFeeds_cons _ (by simp [hsplit]), ih h.2]
    rfl
  | case4 c cs hcrlf hc hnil ih =>
    obtain rfl : cs = [] := by
      have hall := Text.flatMap_linesBy isRowEnd cs
      rw [hnil] at hall
      exact hall.symm
    have hne : '\n' ∉ [c] := by
      rw [List.mem_singleton]
      rintro rfl
      exact hc rfl
    rw [Text.splitOn_of_not_mem hne]
    rfl
  | case5 c cs hcrlf hc line stop rest hcons ih =>
    obtain ⟨first, others, hsplit⟩ := Text.exists_splitOn_cons cs
    have hne : '\n' ∉ [c] := by
      rw [List.mem_singleton]
      rintro rfl
      exact hc rfl
    have hcut := Text.splitOn_append hne hsplit
    have hrest := ih (by rw [hcons]; exact h)
    rw [hcons, hsplit] at hrest
    rw [List.singleton_append, List.singleton_append] at hcut
    rw [hcut]
    cases others with
    | nil =>
      cases first with
      | nil => simp [Rows.withFeeds] at hrest
      | cons d first =>
        simp only [Rows.withFeeds, List.isEmpty_cons, Bool.false_eq_true, if_false, List.map_cons,
          List.cons.injEq, Text.withEnd, List.cons_append] at hrest ⊢
        exact ⟨⟨trivial, hrest.1⟩, hrest.2⟩
    | cons m others =>
      simp only [Rows.withFeeds, List.map_cons, List.cons.injEq, Text.withEnd,
        List.cons_append] at hrest ⊢
      exact ⟨⟨trivial, hrest.1⟩, hrest.2⟩

/-- A row with its end, and the next row behind it. All rows but the last end with a newline. -/
structure Ends (host : Text) (n : Nat) (e : Text) : Prop where
  drop_eq : host.drop (rowStart host n) = row host n ++ (e ++ host.drop (rowStart host (n + 1)))
  next_eq : rowStart host (n + 1) = rowStop host n + e.length
  blank : e.isBlankText
  newline : n < rowCount host → ∃ b : Text, b.isBlankText ∧ e = b ++ ['\n']

section

variable {host : Text} {n : Nat} {e : Text}

theorem exists_ends (h : hasFeeds host) (hn : 1 ≤ n) (hcount : n ≤ rowCount host) :
    ∃ e, Ends host n e := by
  obtain ⟨k, rfl⟩ := Nat.exists_eq_add_of_le' hn
  have hlt : k < (Text.linesBy isRowEnd host).length := hcount
  obtain ⟨l, hl⟩ : ∃ l, (Text.linesBy isRowEnd host)[k]? = some l :=
    ⟨_, List.getElem?_eq_getElem hlt⟩
  have hrow : row host (k + 1) = l.1 := by
    rw [row, Nat.add_sub_cancel, hl]
    rfl
  have hnext : rowStart host (k + 1 + 1) = rowStop host (k + 1) + l.2.length := by
    rw [rowStop, hrow]
    exact Text.rowStart_succ hl
  have hfeed : l.2 ≠ ['\r'] := by simpa using List.all_eq_true.mp h l (List.mem_of_getElem? hl)
  obtain ⟨-, hcases⟩ := Text.of_mem_linesBy (List.mem_of_getElem? hl)
  have hend : l.2 = [] ∨ ∃ b : Text, b.isBlankText ∧ l.2 = b ++ ['\n'] := by
    rcases hcases with hnil | hboth | ⟨c, hc, hone⟩
    · exact .inl hnil
    · exact .inr ⟨['\r'], by decide, hboth⟩
    · have hne : c ≠ '\r' := fun heq => hfeed (by rw [hone, heq])
      obtain rfl : c = '\n' := by simpa [isRowEnd, hne] using hc
      exact .inr ⟨[], rfl, hone⟩
  refine ⟨l.2, ?_, hnext, ?_, fun hmore => hend.resolve_left (Text.end_ne_nil hl hmore)⟩
  · have hdrop := List.drop_eq_getElem_cons hlt
    rw [(List.getElem?_eq_some_iff.mp hl).2] at hdrop
    rw [hrow, rowStart, rowStart, Text.drop_rowStart, Text.drop_rowStart, Nat.add_sub_cancel,
      Nat.add_sub_cancel, hdrop, List.flatMap_cons, Text.withEnd, List.append_assoc]
  · rcases hend with hnil | ⟨b, hb, heq⟩
    · rw [hnil]
      rfl
    · rw [heq]
      exact Text.isBlankText_append.mpr ⟨hb, by decide⟩

theorem Ends.drop_rowStop (h : Ends host n e) :
    host.drop (rowStop host n) = e ++ host.drop (rowStart host (n + 1)) := by
  rw [rowStop, ← List.drop_drop, h.drop_eq, List.drop_left]

theorem Ends.slice_row (h : Ends host n e) :
    host.slice (rowStart host n) (rowStop host n) = row host n := by
  rw [Text.slice_eq, rowStop, Nat.add_sub_cancel_left, h.drop_eq, List.take_left]

theorem Ends.slice_end (h : Ends host n e) :
    host.slice (rowStop host n) (rowStart host (n + 1)) = e := by
  rw [Text.slice_eq, h.next_eq, Nat.add_sub_cancel_left, h.drop_rowStop, List.take_left]

end

def IsComment (line text : Text) : Prop :=
  ∃ a w : Text, a.isBlankText ∧ line = a ++ '#' :: w ∧
    (text = '#' :: w.takeWhile Rows.isVisibleInComment ∨
      text = Text.dropLastWhile (!Rows.isVisibleInComment ·) ('#' :: w))

namespace Rows

theorem comments_append (a b : Rows) : (a ++ b).comments = a.comments ++ b.comments := rfl

theorem comments_scan (row bound : Nat) (s : State) (t : Text) :
    (scan row bound false s t).2.comments = [] := by
  induction bound generalizing s t with
  | zero => rfl
  | succ bound ih =>
    cases t with
    | nil => rfl
    | cons c cs =>
      simp only [scan, Bool.false_and, Bool.false_eq_true, if_false]
      repeat' split
      all_goals first | rfl | exact ih _ _

theorem isComment_of_scan {row bound : Nat} {s : State} {t : Text} {e : Nat × Text}
    (h : e ∈ (scan row bound true s t).2.comments) : e.1 = row ∧ IsComment t e.2 := by
  induction bound generalizing s t with
  | zero => contradiction
  | succ bound ih =>
    cases t with
    | nil => contradiction
    | cons c cs =>
      have hfalse : ∀ s t, e ∉ (scan row bound false s t).2.comments := fun s t => by
        rw [comments_scan]
        exact List.not_mem_nil
      simp only [scan, Bool.true_and] at h
      split at h
      · split at h
        · contradiction
        · exact absurd h (hfalse _ _)
      · split at h
        · next hc =>
          obtain rfl := eq_of_beq hc
          rw [comments_append, comments_scan, List.append_nil] at h
          obtain rfl := List.mem_singleton.mp h
          exact ⟨rfl, [], cs, rfl, rfl, .inl rfl⟩
        · split at h
          · split at h
            · split at h
              · exact absurd h (hfalse _ _)
              · contradiction
            · split at h
              · exact absurd h (hfalse _ _)
              · contradiction
              · exact absurd h (hfalse _ _)
          · split at h
            · exact absurd h (hfalse _ _)
            · split at h
              · exact absurd h (hfalse _ _)
              · cases hblank : Text.isBlank c with
                | false => exact absurd (hblank ▸ h) (hfalse _ _)
                | true =>
                  rw [hblank] at h
                  obtain ⟨hrow, a, w, ha, rfl, htext⟩ := ih h
                  exact ⟨hrow, c :: a, w, by simpa [Text.isBlankText, hblank] using ha, rfl, htext⟩

theorem exists_margin_eq (n : Nat) (t : Text) :
    ∃ a : Text, a.isBlankText ∧ t = a ++ (margin n t).2 := by
  fun_induction margin n t with
  | case1 n cs ih =>
    obtain ⟨a, ha, heq⟩ := ih
    exact ⟨' ' :: a, (Text.isBlankText_append (t := [' '])).mpr ⟨by decide, ha⟩,
      by rw [List.cons_append, ← heq]⟩
  | case2 n cs ih =>
    obtain ⟨a, ha, heq⟩ := ih
    exact ⟨'\t' :: a, (Text.isBlankText_append (t := ['\t'])).mpr ⟨by decide, ha⟩,
      by rw [List.cons_append, ← heq]⟩
  | case3 n cs ih =>
    obtain ⟨a, ha, heq⟩ := ih
    exact ⟨'\x0c' :: a, (Text.isBlankText_append (t := ['\x0c'])).mpr ⟨by decide, ha⟩,
      by rw [List.cons_append, ← heq]⟩
  | case4 n cs => exact ⟨[], rfl, rfl⟩

theorem isComment_of_newStatement {n : Nat} {s : State} {line : Text} {e : Nat × Text}
    (h : e ∈ (newStatement n s line).2.comments) : e.1 = n ∧ IsComment line e.2 := by
  obtain ⟨a, ha, hline⟩ := exists_margin_eq 0 line
  simp only [newStatement] at h
  split at h
  · contradiction
  · next c cs hrest =>
    rw [hrest] at hline
    split at h
    · next hc =>
      obtain rfl := eq_of_beq hc
      obtain rfl := List.mem_singleton.mp h
      exact ⟨rfl, a, cs, ha, hline, .inr (by rw [hrest])⟩
    · split at h
      · contradiction
      · split at h
        · obtain ⟨hrow, b, w, hb, heq, htext⟩ := isComment_of_scan h
          rw [hrest] at heq
          refine ⟨hrow, a ++ b, w, Text.isBlankText_append.mpr ⟨ha, hb⟩, ?_, htext⟩
          rw [hline, heq, List.append_assoc]
        · contradiction

theorem isComment_of_row {n : Nat} {s : State} {line : Text} {e : Nat × Text}
    (h : e ∈ (row n s line).2.comments) : e.1 = n ∧ IsComment line e.2 := by
  unfold row at h
  split at h
  · split at h
    · rw [comments_append, comments_scan] at h
      contradiction
    · split at h <;> contradiction
  · split at h
    · exact isComment_of_newStatement h
    · exact isComment_of_scan h

theorem exists_of_mem_rows {n : Nat} {s : State} {ls : List Text} {e : Nat × Text}
    (h : e ∈ (rows n s ls).comments) :
    ∃ i line, ls[i]? = some line ∧ e.1 = n + i ∧ IsComment line e.2 := by
  induction ls generalizing n s with
  | nil => contradiction
  | cons line ls ih =>
    have hfirst : e ∈ (row n s line).2.comments → ∃ i l, (line :: ls)[i]? = some l ∧ e.1 = n + i ∧
        IsComment l e.2 :=
      fun h => ⟨0, line, rfl, isComment_of_row h⟩
    simp only [rows] at h
    split at h
    · exact hfirst h
    · rw [comments_append, List.mem_append] at h
      rcases h with h | h
      · exact hfirst h
      · obtain ⟨i, l, hl, hrow, hcomment⟩ := ih h
        exact ⟨i + 1, l, by simpa using hl, by omega, hcomment⟩

end Rows

theorem IsComment.eq_append {x e text : Text} (hx : ∀ c ∈ x, Rows.isVisibleInComment c)
    (he : ∀ c ∈ e, Rows.isVisibleInComment c = false) (h : IsComment (x ++ e) text) :
    ∃ a w : Text, a.isBlankText ∧ text = '#' :: w ∧ x = a ++ text := by
  obtain ⟨a, w, ha, hline, htext⟩ := h
  have hsharp : '#' ∉ e := fun hin => absurd (he _ hin) (by decide)
  obtain ⟨y, hy⟩ : ∃ y, x = a ++ '#' :: y ∧ w = y ++ e := by
    rcases List.append_eq_append_iff.mp hline with ⟨z, -, rfl⟩ | ⟨z, rfl, hz⟩
    · simp at hsharp
    · cases z with
      | nil =>
        rw [List.nil_append] at hz
        simp [← hz] at hsharp
      | cons d z =>
        obtain ⟨rfl, rfl⟩ := List.cons.inj hz
        exact ⟨z, rfl, rfl⟩
  obtain ⟨rfl, rfl⟩ := hy
  refine ⟨a, y, ha, ?_⟩
  have htext : text = '#' :: y := by
    have hvisible : ∀ c ∈ '#' :: y, Rows.isVisibleInComment c :=
      fun c hc => hx c (by simp [List.mem_cons.mp hc])
    rcases htext with rfl | rfl
    · have hend : e.takeWhile Rows.isVisibleInComment = [] := by
        cases e with
        | nil => rfl
        | cons d e => rw [List.takeWhile_cons, he d List.mem_cons_self]; rfl
      rw [List.takeWhile_append_of_pos fun c hc => hvisible c (List.mem_cons_of_mem _ hc), hend,
        List.append_nil]
    · rw [← List.cons_append, Text.dropLastWhile_append_of_all _ fun c hc => by rw [he c hc]; rfl]
      obtain ⟨u, d, hd⟩ := (List.eq_nil_or_concat ('#' :: y)).resolve_left (List.cons_ne_nil _ _)
      rw [List.concat_eq_append] at hd
      rw [hd, Text.dropLastWhile_concat _ (by rw [hvisible d (by rw [hd]; simp)]; rfl)]
  exact ⟨htext, by rw [htext]⟩

theorem exists_row_eq {host : Text} (h : hasFeeds host) {r : Nat} {text : Text}
    (hr : (Rows.ofSource host).comment? r = some text) :
    1 ≤ r ∧ r ≤ rowCount host ∧ ∃ a w : Text,
      a.isBlankText ∧ text = '#' :: w ∧ row host r = a ++ text := by
  obtain ⟨pre, post, hmem, -⟩ := List.lookup_eq_some_iff.mp hr
  obtain ⟨i, line, hline, hi, hcomment⟩ := Rows.exists_of_mem_rows (e := (r, text)) (by
    rw [← Rows.ofSource, hmem]
    simp)
  rw [withFeeds_splitOn h, List.getElem?_map] at hline
  obtain ⟨l, hl, rfl⟩ := Option.map_eq_some_iff.mp hline
  obtain ⟨hnone, hend⟩ := Text.of_mem_linesBy (List.mem_of_getElem? hl)
  have hrow : row host r = l.1 := by
    have hindex : r - 1 = i := by omega
    rw [row, hindex, hl]
    rfl
  have hlt := (List.getElem?_eq_some_iff.mp hl).1
  refine ⟨by omega, by unfold rowCount; omega, ?_⟩
  rw [hrow]
  refine hcomment.eq_append (fun c hc => ?_) fun c hc => ?_
  · have hend := hnone c hc
    simp_all [isRowEnd, Rows.isVisibleInComment]
  · have hmem : c = '\n' ∨ c = '\r' := by
      rcases hend with hend | hend | ⟨d, hd, hend⟩
      · simp [hend] at hc
      · simpa [hend, or_comm] using hc
      · simpa [hend, isRowEnd, List.mem_singleton.mp (hend ▸ hc)] using hd
    rcases hmem with rfl | rfl <;> rfl

end Suite

end Graft
