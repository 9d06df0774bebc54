import Graft.Proofs.Item.Span
import Graft.Proofs.Item.Validity

set_option autoImplicit false

/-!
Merging a document into itself. A source whose functions stand as they would be written, without
directives, comes back as it was: each function takes over its own span and is written as it stood.
-/

namespace Graft

namespace Reconcile

variable {δ : Type} {r : Rules δ} {placement : Placement} {commands : Text → Commands}
  {t : Pieces δ}

structure Idle (r : Rules δ) (commands : Text → Commands) (e : Text × Piece δ) : Prop where
  enters : enters commands e
  outcome : outcome r commands e = e.2

theorem Idle.finalName_eq (hr : r.Lawful) {e : Text × Piece δ} (he : Idle r commands e) :
    finalName r commands e = e.2.name := by
  rw [← outcome_name hr, he.outcome]

theorem mem_run_self (hr : r.Lawful) (ht : t.Keyed) (hidle : ∀ e ∈ t.entries, Idle r commands e)
    {k : Text} {q : Piece δ} :
    (k, q) ∈ (run r placement commands t t.entries).entries ↔
      ∃ p, (k, p) ∈ t.entries ∧ q = adopt (some p) p := by
  have hnodup : (t.entries.map (·.1)).Nodup := ht.nodup
  have hfinal : ∀ e ∈ t.entries, finalName r commands e = e.1 := fun e he => by
    rw [(hidle e he).finalName_eq hr, ← ht.name he]
  have htouches : ∀ e ∈ t.entries, ∀ n, e.1 ≠ n → touches r commands e n = false := by
    intro e he n hne
    simp [touches, hfinal e he, hne]
  -- Before a piece is entered, its namesake in the table was left alone.
  have hbase : ∀ pre e post, t.entries = pre ++ e :: post →
      (run r placement commands t pre).get? e.1 = some e.2 := by
    intro pre e post hsplit
    rw [Table.get?_eq_some_iff (keyed_run ht pre).nodup, mem_run hr]
    have hmem : e ∈ t.entries := by simp [hsplit]
    refine Or.inl ⟨hmem, fun x hx => htouches x (by simp [hsplit, hx]) e.1 fun heq => ?_⟩
    rw [hsplit, List.map_append, List.map_cons, List.nodup_append] at hnodup
    exact hnodup.2.2 x.1 (List.mem_map_of_mem hx) e.1 (by simp) heq
  rw [mem_run hr]
  constructor
  · rintro (⟨hmem, hspared⟩ | ⟨pre, e, ⟨-, post, hsplit, -⟩, rfl, rfl⟩)
    · have htouched := touches_finalName (r := r) (hidle _ hmem).enters
      rw [hfinal _ hmem, hspared _ hmem] at htouched
      contradiction
    · have hmem : e ∈ t.entries := by simp [hsplit]
      rw [hfinal e hmem, hbase pre e post hsplit, (hidle e hmem).outcome]
      exact ⟨e.2, hmem, rfl⟩
  · rintro ⟨p, hmem, rfl⟩
    obtain ⟨pre, post, hsplit⟩ := List.append_of_mem hmem
    refine Or.inr ⟨pre, (k, p), ⟨(hidle _ hmem).enters, post, hsplit, fun x hx => ?_⟩,
      (hfinal _ hmem).symm, ?_⟩
    · rw [hfinal _ hmem]
      refine htouches x (by simp [hsplit, hx]) k fun heq => ?_
      rw [hsplit, List.map_append, List.map_cons, List.nodup_append, List.nodup_cons] at hnodup
      have hlater := List.mem_map_of_mem (f := Prod.fst) hx
      rw [heq] at hlater
      exact hnodup.2.1.1 hlater
    · rw [hbase pre _ post hsplit, (hidle _ hmem).outcome]

end Reconcile

namespace Edit

open Reconcile

variable {δ : Type} {r : Rules δ} {commands : Text → Commands} {t : Pieces δ}

theorem plan_run_self (hr : r.Lawful) (ht : t.Keyed) (horigin : ∀ p ∈ t.values, p.origin = .host)
    (hidle : ∀ e ∈ t.entries, Idle r commands e) (render : Piece δ → Option (Piece δ) → Text)
    (insertAt : Piece δ → Int) :
    plan t (run r .inPlace commands t t.entries) .inPlace render insertAt =
      t.values.map fun p => ⟨p.start, p.stop, some (render (adopt (some p) p) (some p))⟩ := by
  have hprovenance : Provenance t (run r .inPlace commands t t.entries) :=
    provenance_run hr ht horigin (Provenance.refl ht horigin) t.entries
  have hvalues : ∀ q, q ∈ (run r .inPlace commands t t.entries).values ↔
      ∃ p ∈ t.values, q = adopt (some p) p := by
    intro q
    constructor
    · intro hq
      obtain ⟨p, hp, rfl⟩ := (mem_run_self hr ht hidle).mp (hprovenance.keyed.mem_entries hq)
      exact ⟨p, Table.mem_values_of_mem hp, rfl⟩
    · rintro ⟨p, hp, rfl⟩
      exact Table.mem_values_of_mem ((mem_run_self hr ht hidle).mpr ⟨p, ht.mem_entries hp, rfl⟩)
  have hkept : (run r .inPlace commands t t.entries).values.filter (·.origin = .host) = [] := by
    rw [List.filter_eq_nil_iff]
    intro q hq
    obtain ⟨p, -, rfl⟩ := (hvalues q).mp hq
    simp [adopt]
  have happended : appended .inPlace (run r .inPlace commands t t.entries) = [] := by
    rw [appended_inPlace (nodup_replaces hprovenance), List.filter_eq_nil_iff]
    intro q hq
    obtain ⟨p, hp, rfl⟩ := (hvalues q).mp (mem_incoming.mp hq).1
    simp [adopt, horigin p hp]
  have htaken : ∀ p ∈ t.values,
      (takeovers .inPlace (run r .inPlace commands t t.entries)).lookup p.name =
        some (adopt (some p) p) := by
    intro p hp
    rw [lookup_takeovers hprovenance]
    exact ⟨(hvalues _).mpr ⟨p, hp, rfl⟩, rfl, by simp [adopt, horigin p hp]⟩
  rw [plan_eq, happended, goneOf, hkept]
  simp only [List.map_nil, List.append_nil, List.contains_nil, Bool.not_false, List.filter_true,
    List.map_map]
  refine List.map_congr_left fun p hp => ?_
  simp only [Function.comp_apply, ofGone, htaken p hp, Option.map_some]

end Edit

namespace Indentation

theorem dedentTail_nil (t : Text) : dedentTail t [] = t := by
  have hstrip : strip 0 = id := by
    funext line
    simp [strip]
  obtain ⟨l, ls, hsplit⟩ := Text.exists_splitOn_cons t
  have hlines := Text.unlines_splitOn t
  rw [hsplit] at hlines
  simp only [dedentTail, hsplit, List.length_nil, hstrip, List.map_id]
  exact hlines

end Indentation

namespace Item

open Reconcile Graft.Item.Function

namespace Function.Found

def Undirected (d : Document) (f : Found) : Prop :=
  ∀ l ∈ f.above d, attribute? l.text = none → isDirectiveComment l.text = false

/-- The function stands in the source as it would be written. -/
structure Laid (d : Document) (f : Found) : Prop where
  /-- It starts at the first column. -/
  column : d.source.lineStart f.start = f.start
  /-- The lines above it have no blanks around them. -/
  flush : ∀ l ∈ f.above d, fullLine d.source l.offset = l.text ++ ['\n']
  /-- Comments come before attributes. -/
  order : (f.above d).Pairwise fun l m => (attribute? l.text).isSome → (attribute? m.text).isSome
  attributes : ∀ l ∈ f.above d, ∀ x ∈ attribute? l.text,
    l.text = "#[".toList ++ x ++ "]".toList ∧ x.trim = x
  /-- One space stands between the words of the header. -/
  spaces : Text.squeeze (d.source.slice f.start (f.start + f.header.length)) =
    d.source.slice f.start (f.start + f.header.length)
  qualifiers : f.header.qualifiers.Pairwise fun a b => qualifierRank a ≤ qualifierRank b

instance (d : Document) (f : Found) : Decidable (f.Undirected d) :=
  inferInstanceAs
    (Decidable (∀ l ∈ f.above d, attribute? l.text = none → isDirectiveComment l.text = false))

instance (d : Document) (f : Found) : Decidable (f.Laid d) :=
  decidable_of_iff (_ ∧ _ ∧ _ ∧ _ ∧ _ ∧ _) ⟨fun ⟨h₁, h₂, h₃, h₄, h₅, h₆⟩ =>
    ⟨h₁, h₂, h₃, h₄, h₅, h₆⟩, fun h =>
      ⟨h.column, h.flush, h.order, h.attributes, h.spaces, h.qualifiers⟩⟩

variable {source : Text} {d : Document} {f : Found}

def remarks (d : Document) (f : Found) : List Text :=
  ((f.above d).filter fun l => (attribute? l.text).isNone).map (·.text)

theorem Undirected.directives_eq_nil (hf : f.Undirected d) :
    (f.remarks d).filter isDirectiveComment = [] := by
  rw [List.filter_eq_nil_iff]
  intro c hc
  obtain ⟨l, hl, rfl⟩ := List.mem_map.mp hc
  obtain ⟨hl, hnone⟩ := List.mem_filter.mp hl
  simp [hf l hl (Option.isNone_iff_eq_none.mp hnone)]

theorem exists_build_eq (d : Document) (f : Found) (keepDirectives : Bool) :
    ∃ t, build d keepDirectives f.start f.header f.extent =
      ({ f.piece d with
          text := if keepDirectives || ((f.remarks d).filter isDirectiveComment).isEmpty then
            (f.piece d).text
            else t },
        Commands.ofComments ((f.remarks d).filter isDirectiveComment)) :=
  ⟨_, rfl⟩

theorem Undirected.build_eq (hf : f.Undirected d) (keepDirectives : Bool) :
    build d keepDirectives f.start f.header f.extent = (f.piece d, {}) := by
  obtain ⟨t, ht⟩ := exists_build_eq d f keepDirectives
  rw [ht, hf.directives_eq_nil]
  simp only [List.isEmpty_nil, Bool.or_true, if_true]
  rfl

theorem Undirected.comments_eq (hf : f.Undirected d) : (f.piece d).comments = f.remarks d := by
  have hcomments : (f.piece d).comments = (f.remarks d).filter fun c =>
      !((f.remarks d).filter isDirectiveComment).contains c := rfl
  rw [hcomments, hf.directives_eq_nil]
  simp

theorem Laid.leads (hf : f.Laid d) : f.leads d := by
  rw [Found.leads, hf.column, Text.slice_self]
  rfl

theorem Laid.indent_eq (hf : f.Laid d) : (f.piece d).details.indent = [] := by
  have hindent : (f.piece d).details.indent =
      if f.leads d then d.source.slice (d.source.lineStart f.start) f.start else [] := rfl
  rw [hindent, if_pos hf.leads, hf.column, Text.slice_self]

theorem flatMap_decorators {ls : List PreludeLine} {g : PreludeLine → Text}
    (hls : ∀ l ∈ ls, ∀ x ∈ attribute? l.text, g l = Layout.line "#[" "]" x.trim) :
    (ls.filterMap fun l => (attribute? l.text).map Text.trim).flatMap (Layout.line "#[" "]") =
      (ls.filter fun l => (attribute? l.text).isSome).flatMap g := by
  induction ls with
  | nil => rfl
  | cons l ls ih =>
    rw [List.forall_mem_cons] at hls
    cases hl : attribute? l.text with
    | none => simp [hl, ih hls.2]
    | some x => simp [hl, ih hls.2, hls.1 x hl]

theorem Laid.lines_eq (hf : f.Laid d) :
    (f.remarks d).flatMap (Layout.line "" "") ++
      (f.piece d).decorators.flatMap (Layout.line "#[" "]") = (f.above d).flatMap fun l =>
        fullLine d.source l.offset := by
  have hcomments : (f.remarks d).flatMap (Layout.line "" "") =
      ((f.above d).filter fun l => !(attribute? l.text).isSome).flatMap fun l =>
        fullLine d.source l.offset := by
    simp only [remarks, List.flatMap_map, Option.not_isSome]
    refine List.flatMap_congr fun l hl => ?_
    rw [hf.flush l (List.mem_filter.mp hl).1]
    simp [Layout.line]
  have hattributes : (f.piece d).decorators.flatMap (Layout.line "#[" "]") =
      ((f.above d).filter fun l => (attribute? l.text).isSome).flatMap fun l =>
        fullLine d.source l.offset := by
    refine flatMap_decorators fun l hl x hx => ?_
    obtain ⟨htext, htrim⟩ := hf.attributes l hl x hx
    rw [hf.flush l hl, htrim, htext]
    simp [Layout.line]
  rw [hcomments, hattributes, ← List.flatMap_append, filter_not_append_filter hf.order]

theorem Laid.render_eq (hd : Document.scan source = .ok d)
    (hsite : Site d f.start f.header f.extent) (hf : f.Laid d) (hundirected : f.Undirected d) :
    (layout (f.piece d)).render = source.slice (f.top d) f.extent.bodyStop := by
  have hsource := (Document.of_scan hd).1
  have hlength := lt_length hsite
  have hcolumn := hf.column
  obtain ⟨h₁, h₂, h₃, h₄, -⟩ := extent_spec hd hsite.extent
  rw [hsource] at hlength hcolumn
  obtain ⟨-, htop, habove⟩ := above_spec hd (Nat.le_of_lt hlength) hf.leads
  rw [hcolumn] at htop habove
  have hlines := hf.lines_eq
  rw [hsource, habove] at hlines
  have hheader : f.header.printed = source.slice f.start (f.start + f.header.length) := by
    have hspaces := hf.spaces
    rw [hsource] at hspaces
    have hread := hsite.header
    rw [hsource] at hread
    rw [Header.printed_of_read hread, ← hspaces, Text.slice_eq, Nat.add_sub_cancel_left]
  have hlast : source.slice (f.top d) f.extent.bodyStop =
      source.slice (f.top d) (f.extent.bodyStop - 1) ++ ['\x7d'] := by
    rw [← Text.slice_eq_concat (by omega) (extent_brackets hd hsite.extent).2.2.2,
      Nat.sub_add_cancel (by omega)]
  have hparts : (layout (f.piece d)).render = Layout.dropFinalNewlines
      (source.slice (f.top d) f.extent.bodyStop) := by
    rw [← Text.slice_append_slice source htop (show f.start ≤ f.extent.bodyStop by omega),
      slice_extent hd (Nat.le_add_right _ _) hsite.extent, ← hheader, ← hlines,
      ← hundirected.comments_eq]
    have hdedent : ∀ t, Indentation.dedentTail t (f.piece d).details.indent = t := fun t => by
      rw [hf.indent_eq, Indentation.dedentTail_nil]
    have hparameters : (f.piece d).parameterText =
        some (source.slice (f.extent.opening + 1) f.extent.closing) := by
      rw [← hdedent (source.slice _ _), ← hsource]
      rfl
    have hsuffix : (f.piece d).details.suffix =
        source.slice (f.extent.closing + 1) f.extent.bodyStart := by
      rw [← hdedent (source.slice _ _), ← hsource]
      rfl
    have hbody : (f.piece d).body = some (source.slice f.extent.bodyStart f.extent.bodyStop) := by
      rw [← hdedent (source.slice _ _), ← hsource]
      rfl
    have hgenerics : (f.piece d).details.generics =
        source.slice (f.start + f.header.length) f.extent.opening := by
      rw [← hsource]
      rfl
    have hname : (f.piece d).name = f.header.name := rfl
    have hvisibility : (f.piece d).visibility = f.header.visibility := rfl
    have hqualifiers : (f.piece d).details.qualifiers = f.header.qualifiers := rfl
    have habi : (f.piece d).details.abi = f.header.abi := rfl
    simp only [Layout.Function.render, layout, Header.printed, hparameters, hsuffix, hbody,
      hgenerics, hname, hvisibility, hqualifiers, habi, Option.getD_some]
    simp
  rw [hparts, hlast, Layout.dropFinalNewlines, Text.dropLastWhile_concat _ (by decide)]

end Function.Found

theorem outcome_of_undirected (n : Text) {p : Function}
    (hp : p.details.qualifiers.Pairwise fun a b => qualifierRank a ≤ qualifierRank b) :
    outcome rules (fun _ => {}) (n, p) = p := by
  have hsort : sortQualifiers p.details.qualifiers = p.details.qualifiers :=
    List.mergeSort_of_pairwise (hp.imp fun h => by simpa using h)
  have hextend : outcome rules (fun _ => {}) (n, p) =
      { p with details := { p.details with qualifiers := sortQualifiers p.details.qualifiers } } :=
    rfl
  rw [hextend, hsort]

section

variable {source : Text} {d : Document}

theorem extract_of_undirected (hd : ∀ f ∈ found d, f.Undirected d) (keepDirectives : Bool) :
    extract d keepDirectives = Extraction.addAll {} ((found d).map fun f => (f.piece d, {})) := by
  rw [extract_eq]
  congr 1
  exact List.map_congr_left fun f hf => (hd f hf).build_eq keepDirectives

theorem restores_of_laid (hd : Document.scan source = .ok d) {f : Found} (hf : f ∈ found d)
    (hlaid : f.Laid d) (hundirected : f.Undirected d) (T : Pieces Details) :
    Edit.Restores source ⟨(f.piece d).start, (f.piece d).stop,
      some (render d T (adopt (some (f.piece d)) (f.piece d)) (some (f.piece d)))⟩ := by
  have hsite := site_of_mem hf
  have htop := f.top_lt hd hsite
  have hstop := stop_le_length hd hsite.extent
  refine ⟨⟨?_, ?_, ?_, rfl⟩, ?_⟩
  · simp [Found.start_piece]
  · simpa [Found.start_piece, Found.stop_piece] using htop
  · simpa [Found.stop_piece] using hstop
  · have hrender : render d T (adopt (some (f.piece d)) (f.piece d)) (some (f.piece d)) =
        Indentation.indent (layout (f.piece d)).render (f.piece d).details.indent [] := rfl
    rw [hrender, hlaid.indent_eq, hlaid.render_eq hd hsite hundirected]
    rfl

theorem commandsOf_of_undirected (hd : ∀ f ∈ found d, f.Undirected d) (keepDirectives : Bool) :
    (extract d keepDirectives).commandsOf = fun _ => {} := by
  funext name
  rw [extract_of_undirected hd]
  refine Extraction.commandsOf_addAll (fun p hp => ?_) name
  obtain ⟨f, -, rfl⟩ := List.mem_map.mp hp
  rfl

end

/-- Merged into itself, a source comes back as it was, if no directive stands above its functions
and those that count stand in their layout, on spans of their own. -/
theorem merge_self_eq {source : Text} {d : Document} (hd : Document.scan source = .ok d)
    (hundirected : ∀ f ∈ found d, f.Undirected d) (hlaid : ∀ f, IsLast d f → f.Laid d)
    (hspans : (extract d true).table.values.Pairwise fun p q =>
        p.stop ≤ q.start ∨ q.stop ≤ p.start) :
    ∃ report, (Graft.merge .item {} source source).result = .ok report ∧ report.text = source := by
  obtain ⟨report, hreport, htext⟩ := merge_lenient (o := {}) rfl hd hd
  have hsame : extract d false = extract d true := by
    rw [extract_of_undirected hundirected, extract_of_undirected hundirected]
  have hidle : ∀ e ∈ (extract d true).table.entries, Idle rules (fun _ => {}) e := by
    intro e he
    have hmem := Table.mem_values_of_mem he
    obtain ⟨f, hlast, hpiece⟩ := mem_values_extract.mp hmem
    refine ⟨enters_iff.mpr ⟨(sound_of_mem hd hmem).named, rfl⟩, outcome_of_undirected e.1 ?_⟩
    rw [hpiece]
    exact (hlaid f hlast).qualifiers
  have hedits := Edit.plan_run_self rules_lawful (extract_keyed d true) (origin_extract hd) hidle
    (render d (extract d true).table) fun f => (insertionPoint d (extract d true).table f).1
  have hunchanged : report.text = source := by
    rw [htext, hsame, edits, commandsOf_of_undirected hundirected]
    refine Eq.trans (congrArg (applyEdits source) hedits) (Edit.applyEdits_restores ?_ ?_)
    · intro e he
      obtain ⟨p, hp, rfl⟩ := List.mem_map.mp he
      obtain ⟨f, hlast, rfl⟩ := mem_values_extract.mp hp
      exact restores_of_laid hd hlast.mem (hlaid f hlast) (hundirected f hlast.mem) _
    · exact List.pairwise_map.mpr hspans
  have hmerged : (mergeBy .item {} source source).result = .ok report := hreport
  refine ⟨report, ?_, hunchanged⟩
  rw [result_merge rfl hmerged, hunchanged]
  simp [validate, check, read, hd, Except.map]

/-- Lines above, every kind of header word, a parenthesis in the generics, a clause over several
lines, a function in a function and two of one name. -/
theorem merge_self_eq_namesakes :
    ∃ d report,
      Document.scan
        ("// adds\n#[inline]\npub const unsafe extern \"C\" fn a<F: Fn(u8)>(x: u8)\n".toList ++
          "where\n    F: Copy,\n\x7b\n    fn b() \x7b\x7d\n\x7d\n\n".toList ++
          "fn c() \x7b\x7d\n\nfn c() \x7b 1 \x7d\n".toList) = .ok d ∧
      (found d).map (fun f => (f.header.name, (f.above d).length)) =
        [(['a'], 2), (['c'], 0), (['c'], 0)] ∧
      (Graft.merge .item {} d.source d.source).result = .ok report ∧ report.text = d.source := by
  let source : Text :=
    "// adds\n#[inline]\npub const unsafe extern \"C\" fn a<F: Fn(u8)>(x: u8)\n".toList ++
      "where\n    F: Copy,\n\x7b\n    fn b() \x7b\x7d\n\x7d\n\n".toList ++
      "fn c() \x7b\x7d\n\nfn c() \x7b 1 \x7d\n".toList
  have hscan : (Document.scan source).isOk := by decide +kernel
  have hfound : ∀ d ∈ (Document.scan source).toOption,
      (found d).map (fun f => (f.header.name, (f.above d).length)) =
        [(['a'], 2), (['c'], 0), (['c'], 0)] ∧
      (∀ f ∈ found d, f.Undirected d ∧ f.Laid d) ∧
      (extract d true).table.values.Pairwise fun p q => p.stop ≤ q.start ∨ q.stop ≤ p.start := by
    decide +kernel
  obtain ⟨d, hd⟩ := Document.exists_of_isOk hscan
  obtain ⟨hnames, hall, hspans⟩ := hfound d (by rw [hd]; rfl)
  obtain ⟨report, hreport, htext⟩ := merge_self_eq hd (fun f hf => (hall f hf).1)
    (fun f hf => (hall f hf.mem).2) hspans
  have hsource := (Document.of_scan hd).1
  exact ⟨d, report, hd, hnames, by rw [hsource]; exact hreport, by rw [hsource]; exact htext⟩

end Item

end Graft
