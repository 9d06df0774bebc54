import Graft.Proofs.Attached
import Graft.Proofs.Style.Nodes

set_option autoImplicit false

/-!
Spans of nodes and of class bodies. Parsers report lines and columns, each by its own line ends, and
a table of all line breaks turns them into offsets. The offsets are right just when no other line
break comes before.
-/

namespace Graft

open Text

namespace Suite

variable {n : Nat} {t : Pieces Details} {r : ClassMerge.Replacement}

theorem isRule_isRowEnd : IsRule isRowEnd where
  feed := by decide
  ret := by decide
  isBreak c h := by
    rcases (by simpa [isRowEnd] using h : c = '\n' ∨ c = '\r') with rfl | rfl <;> decide

variable {host : Text} {hosts : List ClassBody} {c : ClassBody}

theorem exists_getElem_row (hn : 1 ≤ n) (hcount : n ≤ rowCount host) :
    ∃ l, (linesBy isRowEnd host)[n - 1]? = some l ∧ row host n = l.1 ∧
      rowStop host n = rowStart host n + l.1.length := by
  have hlt : n - 1 < (linesBy isRowEnd host).length := by
    unfold rowCount at hcount
    omega
  have hget := List.getElem?_eq_getElem hlt
  have hrow : row host n = (linesBy isRowEnd host)[n - 1].1 := by
    rw [row, hget]
    rfl
  exact ⟨_, hget, hrow, by rw [rowStop, hrow]⟩

theorem getD_offsets (hn : 1 ≤ n) (hcount : n ≤ rowCount host) :
    (lineOffsets isBreak host).toArray.getD (n - 1) 0 = Text.rowStart isBreak host (n - 1) := by
  refine getD_lineOffsets (lt_length_linesBy isRule_isRowEnd ?_)
  unfold rowCount at hcount
  omega

theorem line_eq (n : Nat) :
    (Source.ofText host).line n = ((linesBy isBreak host)[n - 1]?.map (·.1)).getD [] := by
  rw [Source.line, Source.ofText, Text.lines]
  simp

theorem row_of_breaksOnlyAt {m : Nat} (hm : 1 ≤ m) (hmn : m ≤ n) (hcount : n ≤ rowCount host)
    (h : breaksOnlyAt isRowEnd (host.take (rowStop host n))) :
    (lineOffsets isBreak host).toArray.getD (m - 1) 0 = rowStart host m ∧
      (Source.ofText host).line m = row host m := by
  obtain ⟨l, hl, hrow, hstop⟩ := exists_getElem_row hm (Nat.le_trans hmn hcount)
  have hinitial : host.take (rowStop host m) <+: host.take (rowStop host n) :=
    List.take_prefix_take_left (rowStop_mono hm hmn)
  have hbefore : breaksOnlyAt isRowEnd (host.take (rowStop host m)) :=
    List.all_eq_true.mpr fun d hd => List.all_eq_true.mp h d (hinitial.subset hd)
  rw [hstop] at hbefore
  obtain ⟨hstart, hline⟩ := line_of_breaksOnlyAt isRule_isRowEnd hl hbefore
  rw [getD_offsets hm (Nat.le_trans hmn hcount), line_eq, hline, hrow]
  exact ⟨hstart, rfl⟩

theorem replacedRange_iff (h : InRows host hosts) (hc : c ∈ hosts)
    (hr : renderBody (.ofText host) (lineOffsets isBreak host).toArray c t = .ok r) :
    (r.start, r.stop) = replacedRange host c ↔
      breaksOnlyAt isRowEnd (host.take (replacedRange host c).2) := by
  obtain ⟨hline, hfirst, hdecorated, hstop, hcount⟩ := h.1 c hc
  have hpos : 1 ≤ c.place.stop := by omega
  have hrange : (replacedRange host c).2 = rowStop host c.place.stop := rfl
  constructor
  · intro heq
    obtain ⟨l, hl, -, hrow⟩ := exists_getElem_row hpos hcount
    rw [hrow] at hrange
    have hsame : r.stop = (replacedRange host c).2 := congrArg Prod.snd heq
    have hend : r.stop = (lineOffsets isBreak host).toArray.getD (c.place.stop - 1) 0 +
        ((Source.ofText host).line c.place.stop).length := by
      obtain ⟨members, -, hr⟩ := Traced.exists_of_bind hr
      obtain rfl := Except.ok.inj hr
      rfl
    rw [hend, hrange, getD_offsets hpos hcount, line_eq] at hsame
    rw [hrange]
    exact (lineStop_eq_iff isRule_isRowEnd hl).mp hsame
  · intro honly
    exact range_of_renderBody h hc (fun m hm hle => row_of_breaksOnlyAt hm hle hcount honly) hr

end Suite

namespace Style

variable {source : Text} {ns ns' : List Node} {n : Node}

/-- Where a node starts, by the line ends of sheets. -/
def Node.startIn (source : Text) (n : Node) : Nat := offsetOf (lineTable isSheetEnd source) n.place

def spansAt (source : Text) : List Nat → List (Nat × Text)
  | [] => []
  | o :: os => (o, source.slice o (os.head?.getD source.length)) :: spansAt source os

/-- Every line break above the line of a node is a line end of sheets. -/
def IsPlainAbove (source : Text) (n : Node) : Prop :=
  breaksOnlyAt isSheetEnd (source.take (Text.rowStart isSheetEnd source (n.place.line - 1)))

instance (source : Text) (n : Node) : Decidable (IsPlainAbove source n) :=
  inferInstanceAs (Decidable (_ = true))

theorem spell_eq (source : Text) (offsets : Array Nat) (ns : List Node) :
    (spell source offsets ns).map (fun s => (s.start, s.text)) =
      spansAt source (ns.map fun n => offsetOf offsets n.place) := by
  induction ns with
  | nil => rfl
  | cons n ns ih =>
    rw [spell, List.map_cons, ih, List.map_cons, spansAt]
    simp only [List.head?_map]

theorem map_fst_spansAt (source : Text) (os : List Nat) : (spansAt source os).map (·.1) = os := by
  induction os with
  | nil => rfl
  | cons o os ih => rw [spansAt, List.map_cons, ih]

theorem offsetOf_positionBy {o : Nat} (ho : o ≤ source.length)
    (h : IsWhole (source.take o) (source.drop o)) {p : Place}
    (hp : p.toPair = positionBy isSheetEnd source o) :
    offsetOf (lineTable isSheetEnd source) p = o ∧ (offsetOf (lineTable isBreak source) p = o ↔
      breaksOnlyAt isSheetEnd (source.take (Text.rowStart isSheetEnd source (p.line - 1)))) := by
  obtain ⟨hle, -, hiff⟩ := rowStart_isBreak_positionBy isRule_isSheetEnd ho h
  have hline : p.line = (positionBy isSheetEnd source o).1 := congrArg Prod.fst hp
  have hcolumn : p.column = (positionBy isSheetEnd source o).2 := congrArg Prod.snd hp
  obtain ⟨hrows, hstart⟩ := rowStart_positionBy isRule_isSheetEnd ho h
  rw [offsetOf, offsetOf, hline, hcolumn, getD_lineTable hle, getD_lineTable hrows]
  exact ⟨hstart, hiff⟩

theorem offsetOf_after {a b : Text} (h : IsWhole a b) :
    offsetOf (lineTable isSheetEnd (a ++ b)) (({} : Place).after (preprocess a)) = a.length := by
  refine (offsetOf_positionBy (by simp) (by rwa [List.take_left, List.drop_left]) ?_).1
  rw [after_preprocess, positionBy, List.take_left]
  rfl

/-- A node and those behind it, as they are read from an offset on, which has the place of the
node. -/
structure ReadsAt (source : Text) (o : Nat) (n : Node) (ns : List Node) : Prop where
  le_length : o ≤ source.length
  isWhole : IsWhole (source.take o) (source.drop o)
  position_eq : positionBy isSheetEnd source o = n.place.toPair
  nodes_eq : nodes (Value.nest [] [] (tokensFrom n.place (preprocess (source.drop o)))) = n :: ns

theorem readsAt_startIn (h : read source = .ok (ns ++ n :: ns')) :
    ReadsAt source (n.startIn source) n ns' := by
  obtain ⟨es, us, es', hmade, -, rfl⟩ := exists_made h
  obtain ⟨a, b, rest, hcut, -, -⟩ := exists_cut h hmade
  obtain rfl := hcut.eq_append
  have hstart : n.startIn (a ++ b) = a.length := by
    rw [Node.startIn, hcut.place_eq, offsetOf_after hcut.isWhole]
  rw [hstart]
  refine ⟨by simp, by rw [List.take_left, List.drop_left]; exact hcut.isWhole, ?_, ?_⟩
  · rw [hcut.place_eq, after_preprocess, positionBy, List.take_left]
    rfl
  · rw [List.drop_left, hcut.place_eq, hcut.nest_eq, ← map_fst_made, hcut.made_eq, List.map_cons]

theorem offsetOf_eq_startIn_iff (h : read source = .ok (ns ++ n :: ns')) :
    offsetOf (lineTable isBreak source) n.place = n.startIn source ↔ IsPlainAbove source n := by
  have hreads := readsAt_startIn h
  exact (offsetOf_positionBy hreads.le_length hreads.isWhole hreads.position_eq.symm).2

theorem spell_iff (h : read source = .ok ns) :
    (spell source (lineTable isBreak source) ns).map (fun s => (s.start, s.text)) =
      spansAt source (ns.map (Node.startIn source)) ↔ ∀ n ∈ ns, IsPlainAbove source n := by
  rw [spell_eq]
  constructor
  · intro heq n hn
    have hstarts := congrArg (List.map Prod.fst) heq
    rw [map_fst_spansAt, map_fst_spansAt] at hstarts
    obtain ⟨pre, post, rfl⟩ := List.append_of_mem hn
    exact (offsetOf_eq_startIn_iff h).mp (List.map_inj_left.mp hstarts n hn)
  · intro hplain
    refine congrArg (spansAt source) (List.map_inj_left.mpr fun n hn => ?_)
    obtain ⟨pre, post, rfl⟩ := List.append_of_mem hn
    exact (offsetOf_eq_startIn_iff h).mpr (hplain n hn)

end Style

/-- The table of line breaks gives an offset back from its line and column, by the line ends of
sheets or of rows, just when no other line break comes before its line. So the nodes of a sheet have
the spans from which they are read just when that holds of all of them, and a class body has the
stretch that its places say just when no line break but those of rows comes before its end. -/
theorem lineTable_agrees_iff (source : Text) :
    (∀ o ≤ source.length, IsWhole (source.take o) (source.drop o) →
      (Style.offsetOf (lineTable isBreak source)
          ⟨(positionBy Style.isSheetEnd source o).1, (positionBy Style.isSheetEnd source o).2⟩ = o ↔
        breaksOnlyAt Style.isSheetEnd
          (source.take
            (rowStart Style.isSheetEnd source ((positionBy Style.isSheetEnd source o).1 - 1))))) ∧
    (∀ o < source.length, IsWhole (source.take o) (source.drop o) →
      ((lineOffsets isBreak source).toArray.getD ((positionBy Suite.isRowEnd source o).1 - 1) 0 +
          (positionBy Suite.isRowEnd source o).2 - 1 = o ↔
        breaksOnlyAt Suite.isRowEnd
          (source.take
            (rowStart Suite.isRowEnd source ((positionBy Suite.isRowEnd source o).1 - 1))))) ∧
    (∀ ns, Style.read source = .ok ns →
      (∀ pre n post, ns = pre ++ n :: post → Style.ReadsAt source (n.startIn source) n post) ∧
      ((Style.spell source (lineTable isBreak source) ns).map (fun s => (s.start, s.text)) =
          Style.spansAt source (ns.map (Style.Node.startIn source)) ↔
        ∀ n ∈ ns, Style.IsPlainAbove source n)) ∧
    ∀ hosts c t r, Suite.InRows source hosts → c ∈ hosts →
      Suite.renderBody (.ofText source) (lineOffsets isBreak source).toArray c t = .ok r →
      ((r.start, r.stop) = Suite.replacedRange source c ↔
        breaksOnlyAt Suite.isRowEnd (source.take (Suite.replacedRange source c).2)) := by
  refine ⟨fun o ho h => (Style.offsetOf_positionBy ho h rfl).2, fun o ho h => ?_,
    fun ns h => ⟨?_, Style.spell_iff h⟩, fun hosts c t r h hc hr => Suite.replacedRange_iff h hc hr⟩
  · obtain ⟨-, hlt, hiff⟩ := rowStart_isBreak_positionBy Suite.isRule_isRowEnd (Nat.le_of_lt ho) h
    rwa [getD_lineOffsets (hlt ho)]
  · rintro pre n post rfl
    exact Style.readsAt_startIn h

/-- A form feed in a comment, and a carriage return before the newline: the rule below is where the
table says. -/
theorem lineTable_agrees_iff_feeds :
    let source : Text := "/*\x0c*/\r\nb \x7b\x7d\n".toList
    7 ≤ source.length ∧ IsWhole (source.take 7) (source.drop 7) ∧
      positionBy Style.isSheetEnd source 7 = (3, 1) ∧
        Style.offsetOf (lineTable isBreak source) ⟨3, 1⟩ = 7 ∧
      ∃ ns, Style.read source = .ok ns ∧ ns.length = 4 ∧
        (Style.spell source (lineTable isBreak source) ns).map (fun s => (s.start, s.text)) =
          Style.spansAt source (ns.map (Style.Node.startIn source)) := by
  intro source
  have hvalues := Style.ofText_eq_shut source
  have hread := Style.read_of_shut source (by decide +kernel)
  refine ⟨by decide, by decide, by decide,
    ((lineTable_agrees_iff source).1 7 (by decide) (by decide)).mpr (by decide), _, hread, ?_,
    (((lineTable_agrees_iff source).2.2.1 _ hread).2).mpr ?_⟩
  · rw [hvalues]
    decide +kernel
  · rw [hvalues]
    decide +kernel

/-- A vertical tab in a comment is a line break, but ends no line of a sheet: the rule below is
taken to start inside the comment. -/
theorem lineTable_misplaces_rule :
    let source : Text := "/*\x0b*/\na \x7b\x7d\n".toList
    IsWhole (source.take 6) (source.drop 6) ∧ positionBy Style.isSheetEnd source 6 = (2, 1) ∧
      Style.offsetOf (lineTable isBreak source) ⟨2, 1⟩ = 3 ∧
      ∃ ns, Style.read source = .ok ns ∧
        (Style.extract source ns).table.values.map (fun p => (p.name, p.text)) =
          [(['a'], "*/\na".toList)] := by
  intro source
  have hvalues := Style.ofText_eq_shut source
  have hread := Style.read_of_shut source (by decide +kernel)
  refine ⟨by decide, by decide, by decide, _, hread, ?_⟩
  rw [hvalues]
  decide +kernel

end Graft
