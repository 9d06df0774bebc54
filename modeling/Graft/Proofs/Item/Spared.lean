import Graft.Merge
import Graft.Proofs.Item.Merge
import Graft.Proofs.Item.Span

set_option autoImplicit false

/-!
The functions that a snippet written inside `impl` blocks leaves alone. Functions are told apart by
name over the whole file, not by block, so what is left alone is a function that the snippet has no
namesake of, or that a later namesake stands for.
-/

namespace Graft

namespace Reconcile

variable {δ α : Type} {r : Rules δ}

theorem outcome_view (view : Piece δ → α)
    (hrename : ∀ p v q, r.rename p v = some q → view q = view p)
    (haccess : ∀ p v q, r.access p v = some q → view q = view p)
    (hdecorate : ∀ p v q, r.decorate p v = some q → view q = view p)
    (hparameters : ∀ p v q, r.setParameters p v = some q → view q = view p)
    (hextend : ∀ p c, view (r.extend p c).1 = view p) (commands : Text → Commands)
    (e : Text × Piece δ) :
    view (outcome r commands e) = view e.2 :=
  applyCommands_keeps (P := fun p => view p = view e.2)
    ⟨fun p v q hp hq => (hrename p v q hq).trans hp, fun p v q hp hq => (haccess p v q hq).trans hp,
      fun p v q hp hq => (hdecorate p v q hq).trans hp, fun p v q hp hq =>
        (hparameters p v q hq).trans hp,
      fun p c hp => (hextend p c).trans hp⟩ rfl _

end Reconcile

namespace Item

open Reconcile Graft.Item.Function

theorem exists_of_setVisibility {f g : Function} {v : Text} (h : setVisibility f v = some g) :
    ∃ w, g = { f with visibility := w } := by
  simp only [setVisibility] at h
  split at h
  · exact ⟨none, (Option.some.inj h).symm⟩
  · rw [Option.ite_none_right_eq_some] at h
    exact ⟨_, (Option.some.inj h.2).symm⟩

theorem target_outcome (commands : Text → Commands) (e : Text × Function) :
    (outcome rules commands e).details.target = e.2.details.target := by
  refine outcome_view (fun f : Function => f.details.target) ?_ ?_ ?_ ?_ (fun _ _ => rfl) commands e
  · intro f n g h
    simp only [rules, Vocabulary.rename, Option.ite_none_right_eq_some] at h
    rw [← Option.some.inj h.2]
  · intro f v g h
    obtain ⟨w, rfl⟩ := exists_of_setVisibility h
    rfl
  · intro f ds g h
    simp only [rules, Vocabulary.decorate, Option.ite_none_right_eq_some] at h
    rw [← Option.some.inj h.2]
  · intro f ps g h
    simp only [rules, Vocabulary.setParameters, Option.ite_none_right_eq_some] at h
    rw [← Option.some.inj h.2]

theorem finalName_of_no_rename {commands : Text → Commands} {e : Text × Function}
    (h : (commands e.1).rename = none) : finalName rules commands e = e.2.name := by
  rw [finalName, named, h]
  refine attemptIf_view (fun f : Function => f.name) (fun f v g h => ?_) _ _ _
  obtain ⟨w, rfl⟩ := exists_of_setVisibility h
  rfl

section

variable {host : Text} {d : Document}

theorem mem_edits_sources (hd : Document.scan host = .ok d) {placement : Placement}
    {new : Extraction Details} {e : Edit} (he : e ∈ edits d placement new) :
    (∃ g ∈ touched (extract d true).table new, e.start = g.start ∧ e.stop = g.stop) ∨
      ∃ x ∈ new.table.entries, ∃ base, e.stop = e.start ∧ e.start =
        (insertionPoint d (extract d true).table
          (adopt base (outcome rules new.commandsOf x))).1 := by
  rw [edits, Edit.plan_eq, List.mem_append] at he
  rcases he with he | he
  · obtain ⟨g, hg, rfl⟩ := List.mem_map.mp he
    exact Or.inl ⟨g.1, mem_touched_of_mem_goneOf hd hg, rfl, rfl⟩
  · obtain ⟨q, hq, rfl⟩ := List.mem_map.mp he
    have hprovenance := provenance_edits hd placement new
    have hbooking :=
      Edit.booking_of_provenance (extract_keyed d true) (origin_extract hd) hprovenance placement
    obtain ⟨hvalue, hsnippet⟩ :=
      Edit.mem_incoming.mp (hbooking.once.mem_iff.mp (List.mem_append_right _ hq))
    rcases (mem_run rules_lawful new.table.entries).mp (hprovenance.keyed.mem_entries hvalue) with
      ⟨hmem, -⟩ | ⟨pre, x, ⟨-, post, hsplit, -⟩, -, hadopt⟩
    · rw [origin_extract hd q (Table.mem_values_of_mem hmem)] at hsnippet
      contradiction
    · exact Or.inr ⟨x, by simp [hsplit], _, rfl, by rw [← hadopt]; rfl⟩

theorem insertionPoint_cases (d : Document) (T : Pieces Details) (f : Function) :
    (∃ g ∈ T.values, (insertionPoint d T f).1 = g.stop) ∨
      (∃ b t p, (b, t) ∈ d.impls ∧ f.details.target = some t ∧ d.partner? b = some p ∧
        (insertionPoint d T f).1 = p) ∨
      (insertionPoint d T f).1 = d.source.length := by
  simp only [insertionPoint]
  split
  · rename_i g hg
    refine Or.inl ⟨g, ?_, rfl⟩
    have hmem := mem_of_lastToEnd hg
    split at hmem
    · exact (List.mem_filter.mp hmem).1
    · exact hmem
  · rename_i b _ hbrace
    obtain ⟨t, ht, hfind⟩ := Option.bind_eq_some_iff.mp hbrace
    obtain ⟨⟨b', t'⟩, hfirst, rfl⟩ := Option.map_eq_some_iff.mp hfind
    have htarget : t' = t := by simpa using List.find?_some hfirst
    have himpl := List.mem_of_find?_eq_some hfirst
    cases hpartner : d.partner? b' with
    | none => exact Or.inr (Or.inr rfl)
    | some p => exact Or.inr (Or.inl ⟨b', t, p, htarget ▸ himpl, ht, hpartner, rfl⟩)
  · exact Or.inr (Or.inr rfl)

end

/-- A function that a snippet written inside blocks for `target` does not reach. -/
structure OutOfReach (d : Document) (new : Extraction Details) (target : Text)
    (g : Found) : Prop where
  /-- The snippet has no namesake of it, or a later namesake stands for it. -/
  name : (∀ f ∈ new.table.values, f.name ≠ g.header.name) ∨ ¬IsLast d g
  /-- No function that counts has a part of its span. -/
  apart : ∀ f, IsLast d f → f ≠ g →
    (f.piece d).stop ≤ (g.piece d).start ∨ (g.piece d).stop ≤ (f.piece d).start
  /-- No block for `target` ends inside it. -/
  closed : ∀ b p, (b, target) ∈ d.impls → d.partner? b = some p →
    (p : Int) ≤ (g.piece d).start ∨ (g.piece d).stop ≤ p

section

variable {host : Text} {d : Document} {new : Extraction Details} {target : Text} {g : Found}

theorem OutOfReach.ne_of_touched (hg : OutOfReach d new target g) (hnew : new.table.Keyed)
    (hrename : ∀ f ∈ new.table.values, (new.commandsOf f.name).rename = none) {f : Found}
    (hf : IsLast d f)
    (htouched : isTouched rules new.commandsOf new.table.entries (f.piece d).name) : f ≠ g := by
  rintro rfl
  rcases hg.name with hname | hlast
  · obtain ⟨x, hx, htouches⟩ := List.any_eq_true.mp htouched
    have hvalue := Table.mem_values_of_mem hx
    have hkey : x.1 = x.2.name := hnew.name hx
    have hfinal := finalName_of_no_rename (e := x) (by rw [hkey]; exact hrename x.2 hvalue)
    have hsame : x.2.name = (f.piece d).name := by
      simp only [touches, hfinal, hkey, Bool.and_eq_true, Bool.or_eq_true, beq_iff_eq] at htouches
      tauto
    exact hname x.2 hvalue hsame
  · exact hlast hf

theorem OutOfReach.spared (hd : Document.scan host = .ok d) (hfound : g ∈ found d)
    (hg : OutOfReach d new target g) (hnew : new.table.Keyed)
    (htarget : ∀ f ∈ new.table.values, f.details.target = some target)
    (hrename : ∀ f ∈ new.table.values, (new.commandsOf f.name).rename = none)
    {placement : Placement} {e : Edit} (he : e ∈ edits d placement new) :
    e.Spares (g.top d) g.extent.bodyStop := by
  have hspan : ∀ f, IsLast d f → f ≠ g → f.extent.bodyStop ≤ g.top d ∨
      g.extent.bodyStop ≤ f.top d := by
    intro f hf hne
    simpa [Found.start_piece, Found.stop_piece] using hg.apart f hf hne
  rcases mem_edits_sources hd he with ⟨p, hp, hstart, hstop⟩ | ⟨x, hx, base, hpoint, hstart⟩
  · obtain ⟨hvalue, htouched⟩ := mem_touched.mp hp
    obtain ⟨f, hf, rfl⟩ := mem_values_extract.mp hvalue
    have hapart := hspan f hf (hg.ne_of_touched hnew hrename hf htouched)
    rw [Found.start_piece] at hstart
    rw [Found.stop_piece] at hstop
    unfold Edit.Spares
    omega
  · have hx := htarget x.2 (Table.mem_values_of_mem hx)
    rcases insertionPoint_cases d (extract d true).table
      (adopt base (outcome rules new.commandsOf x)) with
      ⟨p, hvalue, hpstop⟩ | ⟨b, t, p, himpl, ht, hpartner, hend⟩ | hend
    · obtain ⟨f, hf, rfl⟩ := mem_values_extract.mp hvalue
      rw [Found.stop_piece] at hpstop
      by_cases hsame : f = g
      · rw [hsame] at hpstop
        exact Or.inr (by omega)
      · have hapart := hspan f hf hsame
        have hlt := f.top_lt hd (site_of_mem hf.mem)
        unfold Edit.Spares
        omega
    · have hsame : t = target := by
        have houtcome := target_outcome new.commandsOf x
        rw [hx] at houtcome
        exact Option.some.inj (ht.symm.trans houtcome)
      have hclosed := hg.closed b p (hsame ▸ himpl) hpartner
      rw [Found.start_piece, Found.stop_piece] at hclosed
      unfold Edit.Spares
      omega
    · have hle := stop_le_length hd (site_of_mem hfound).extent
      rw [(Document.of_scan hd).1] at hend
      exact Or.inr (by omega)

/-- A snippet whose functions are written inside blocks for one target and are not renamed leaves
every function that it does not reach as it was. -/
theorem merge_keeps_out_of_reach {o : Options} (hstrict : o.isStrict = false) {snippet : Text}
    {s : Document} (hd : Document.scan host = .ok d) (hs : Document.scan snippet = .ok s)
    (htarget : ∀ f ∈ (extract s false).table.values, f.details.target = some target)
    (hrename : ∀ f ∈ (extract s false).table.values,
        ((extract s false).commandsOf f.name).rename = none)
    (hfound : g ∈ found d) (hg : OutOfReach d (extract s false) target g) :
    ∃ report, (merge o host snippet).result = .ok report ∧ (g.piece d).text <:+: report.text := by
  obtain ⟨report, hreport, htext⟩ := merge_lenient hstrict hd hs
  refine ⟨report, hreport, ?_⟩
  rw [htext, Found.text_piece, (Document.of_scan hd).1]
  exact (Found.visible hd (site_of_mem hfound)).infix_applyEdits fun e he =>
    hg.spared hd hfound (extract_keyed s false) htarget hrename he

/-- The later of two namesakes is replaced and a function is added to its block; the earlier one, in
the block of another target, stays with its comment. -/
theorem merge_keeps_out_of_reach_namesake :
    ∃ d s g report,
      Document.scan ("impl B \x7b\n    // kept\n    fn new() \x7b 2 \x7d\n\x7d\n\n".toList ++
        "impl A \x7b\n    fn new() \x7b 1 \x7d\n\x7d\n".toList) = .ok d ∧
      Document.scan "impl A \x7b\n    fn new() \x7b 3 \x7d\n    fn put() \x7b\x7d\n\x7d\n".toList =
        .ok s ∧
      g ∈ found d ∧ (g.piece d).details.target = some ['B'] ∧
        OutOfReach d (extract s false) ['A'] g ∧
      (g.piece d).text = "    // kept\n    fn new() \x7b 2 \x7d".toList ∧
      (merge {} d.source s.source).result = .ok report ∧ (g.piece d).text <:+: report.text := by
  let host : Text :=
    "impl B \x7b\n    // kept\n    fn new() \x7b 2 \x7d\n\x7d\n\n".toList ++
      "impl A \x7b\n    fn new() \x7b 1 \x7d\n\x7d\n".toList
  let snippet : Text :=
    "impl A \x7b\n    fn new() \x7b 3 \x7d\n    fn put() \x7b\x7d\n\x7d\n".toList
  have hscans : (Document.scan host).isOk ∧ (Document.scan snippet).isOk := by decide +kernel
  have hhost : ∀ d ∈ (Document.scan host).toOption, (found d).length = 2 ∧ ∀ g ∈ (found d).head?,
      (g.piece d).details.target = some ['B'] ∧ ¬IsLast d g ∧
      (g.piece d).text = "    // kept\n    fn new() \x7b 2 \x7d".toList ∧
      (∀ f ∈ found d, f ≠ g →
        (f.piece d).stop ≤ (g.piece d).start ∨ (g.piece d).stop ≤ (f.piece d).start) ∧
      ∀ x ∈ d.impls, x.2 = ['A'] → ∀ p ∈ d.partner? x.1,
        (p : Int) ≤ (g.piece d).start ∨ (g.piece d).stop ≤ p := by
    decide +kernel
  have hsnippet : ∀ s ∈ (Document.scan snippet).toOption, ∀ f ∈ (extract s false).table.values,
      f.details.target = some ['A'] ∧ ((extract s false).commandsOf f.name).rename = none := by
    decide +kernel
  obtain ⟨d, hd⟩ := Document.exists_of_isOk hscans.1
  obtain ⟨s, hs⟩ := Document.exists_of_isOk hscans.2
  obtain ⟨hlength, hfirst⟩ := hhost d (by rw [hd]; rfl)
  have hsnippet := hsnippet s (by rw [hs]; rfl)
  obtain ⟨g, gs, hfound⟩ := List.exists_cons_of_length_pos (show 0 < (found d).length by omega)
  obtain ⟨htarget, hlast, htext, hapart, hclosed⟩ := hfirst g (by rw [hfound]; rfl)
  have hmem : g ∈ found d := by simp [hfound]
  have hg : OutOfReach d (extract s false) ['A'] g :=
    ⟨Or.inr hlast, fun f hf hne => hapart f hf.mem hne,
      fun b p hb hp => hclosed (b, ['A']) hb rfl p hp⟩
  obtain ⟨report, hreport, hkept⟩ := merge_keeps_out_of_reach (o := {}) rfl hd hs
    (fun f hf => (hsnippet f hf).1) (fun f hf => (hsnippet f hf).2) hmem hg
  refine ⟨d, s, g, report, hd, hs, hmem, htarget, hg, htext, ?_, hkept⟩
  rwa [(Document.of_scan hd).1, (Document.of_scan hs).1]

/-- Three ways in which a snippet written inside `impl A` changes a function of `impl B`: as the
last namesake in the file; when a line of it is taken for a comment above the next function; and
when a block for `A` stands inside it. -/
theorem merge_reaches_other_block :
    (Graft.merge .item {}
        ("impl A \x7b\n    fn new() \x7b 1 \x7d\n\x7d\n\n".toList ++
          "impl B \x7b\n    fn new() \x7b 2 \x7d\n\x7d\n".toList)
        "impl A \x7b\n    fn new() \x7b 3 \x7d\n\x7d\n".toList).result.toOption.map (·.text) =
      some ("impl A \x7b\n    fn new() \x7b 1 \x7d\n\x7d\n\n".toList ++
        "impl B \x7b\n    fn new() \x7b 3 \x7d\n\x7d\n".toList) ∧
    (Graft.merge .item {}
        ("impl B \x7b fn a() \x7b x\n*y \x7d \x7d ".toList ++
          "mod m \x7b impl A \x7b\nfn b() \x7b\x7d\n\x7d \x7d\n".toList)
        "impl A \x7b\nfn b() \x7b 1 \x7d\n\x7d\n".toList).result.toOption.map (·.text) =
      some "impl B \x7b fn a() \x7b x\nfn b() \x7b 1 \x7d\n\x7d \x7d\n".toList ∧
    (Graft.merge .item {}
        "impl B \x7b\n    fn a() \x7b\n        impl A \x7b \x7d\n    \x7d\n\x7d\n".toList
        "impl A \x7b\n    fn b() \x7b\x7d\n\x7d\n".toList).result.toOption.map (·.text) =
      some ("impl B \x7b\n    fn a() \x7b\n        impl A \x7b\n".toList ++
        "            fn b() \x7b\x7d\n\x7d\n    \x7d\n\x7d\n".toList) := by
  decide +kernel

end

end Item

end Graft
