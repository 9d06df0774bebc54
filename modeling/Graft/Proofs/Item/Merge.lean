import Graft.Proofs.Item.Function
import Graft.Proofs.Padding
import Graft.Proofs.Plan

set_option autoImplicit false

/-!
What a merge of Rust functions does to the ink of a document: nothing is lost but the functions that
the snippet names, and nothing is put in but the functions of the snippet that last, each once.
-/

namespace Graft

theorem Edit.applyEdits_nil (source : Text) : applyEdits source [] = source := by
  simp [applyEdits]

namespace Item

open Reconcile Graft.Item.Function

variable {fs : List Function} {g : Function}

theorem mem_of_lastToEnd (h : lastToEnd fs = some g) : g ∈ fs := by
  induction fs generalizing g with
  | nil => simp [lastToEnd] at h
  | cons f fs ih =>
    unfold lastToEnd at h
    split at h
    · rename_i g' hg'
      split at h
      · rw [← Option.some.inj h]
        exact List.mem_cons_of_mem f (ih hg')
      · simp [Option.some.inj h]
    · simp [Option.some.inj h]

theorem lastToEnd_eq_none : lastToEnd fs = none ↔ fs = [] := by
  cases fs with
  | nil => simp [lastToEnd]
  | cons f fs =>
    unfold lastToEnd
    split
    · split <;> simp
    · simp

theorem stop_le_of_lastToEnd (h : lastToEnd fs = some g) : ∀ f ∈ fs, f.stop ≤ g.stop := by
  induction fs generalizing g with
  | nil => simp
  | cons f fs ih =>
    unfold lastToEnd at h
    intro f' hf'
    split at h
    · rename_i g' hg'
      have hrest := ih hg'
      split at h <;> obtain rfl := Option.some.inj h
      · rcases List.mem_cons.mp hf' with rfl | hf'
        · omega
        · exact hrest f' hf'
      · rcases List.mem_cons.mp hf' with rfl | hf'
        · exact Int.le_refl _
        · have := hrest f' hf'
          omega
    · rename_i hnone
      obtain rfl := Option.some.inj h
      rw [lastToEnd_eq_none.mp hnone, List.mem_singleton] at hf'
      rw [hf']

section

variable {host : Text} {d : Document}
variable {T : Pieces Details} {new : Extraction Details} {placement : Placement} {e : Edit}

theorem isBlankText_insertionPoint (hT : ∀ g ∈ T.values, Sound g) (f : Function) :
    (insertionPoint d T f).2.isBlankText := by
  have hmember : ∀ {members : List Function} {g : Function}, (∀ m ∈ members, m ∈ T.values) →
      lastToEnd members = some g → g.details.indent.isBlankText :=
    fun hsub hg => (hT _ (hsub _ (mem_of_lastToEnd hg))).indent
  simp only [insertionPoint]
  split
  · rename_i g hg
    refine hmember ?_ hg
    intro m hm
    split at hm
    · exact (List.mem_filter.mp hm).1
    · exact hm
  · rename_i b _ _
    rw [← Text.ink_eq_nil_iff, Text.ink_append, Indentation.ofLine, Edit.ink_indentation]
    decide
  · rfl

theorem ink_render (hT : ∀ g ∈ T.values, Sound g) (f : Function) (target : Option Function)
    (htarget : ∀ g ∈ target, g ∈ T.values) : (render d T f target).ink = (layout f).render.ink := by
  apply Indentation.ink_indent
  cases target with
  | none => exact isBlankText_insertionPoint hT f
  | some g => exact (hT g (htarget g rfl)).indent

def edits (d : Document) (placement : Placement) (new : Extraction Details) : List Edit :=
  Edit.plan (extract d true).table
    (run rules placement new.commandsOf (extract d true).table new.table.entries) placement
    (render d (extract d true).table) fun f => (insertionPoint d (extract d true).table f).1

theorem origin_extract (hd : Document.scan host = .ok d) {keepDirectives : Bool} :
    ∀ g ∈ (extract d keepDirectives).table.values, g.origin = .host :=
  fun _ hg => (sound_of_mem hd hg).origin

theorem provenance_edits (hd : Document.scan host = .ok d) (placement : Placement)
    (new : Extraction Details) :
    Provenance (extract d true).table
      (run rules placement new.commandsOf (extract d true).table new.table.entries) :=
  provenance_run rules_lawful (extract_keyed d true) (origin_extract hd)
    (Provenance.refl (extract_keyed d true) (origin_extract hd)) _

theorem edits_nil (hd : Document.scan host = .ok d) (placement : Placement)
    (hnew : new.table.entries = []) : edits d placement new = [] := by
  have hrun : run rules placement new.commandsOf (extract d true).table new.table.entries =
      (extract d true).table := by
    rw [hnew]
    rfl
  have hbooking := Edit.booking_of_provenance (extract_keyed d true) (origin_extract hd)
    (provenance_edits hd placement new) placement
  have hincoming : Edit.incoming (run rules placement new.commandsOf (extract d true).table
      new.table.entries) = [] := by
    rw [List.eq_nil_iff_forall_not_mem]
    intro q hq
    obtain ⟨hq, hs⟩ := Edit.mem_incoming.mp hq
    rw [hrun] at hq
    rw [origin_extract hd q hq] at hs
    contradiction
  have hgone : Edit.goneOf (extract d true).table (run rules placement new.commandsOf
      (extract d true).table new.table.entries) placement = [] := by
    rw [List.eq_nil_iff_forall_not_mem]
    intro g hg
    obtain ⟨hmem, hnot, -⟩ :=
      (Edit.mem_goneOf (extract_keyed d true) (origin_extract hd)
        (provenance_edits hd placement new)
        placement).mp hg
    rw [hrun] at hnot
    exact hnot hmem
  have honce := hbooking.once
  rw [hincoming, List.perm_nil, List.append_eq_nil_iff] at honce
  rw [edits, Edit.plan_eq, hgone, honce.2]
  rfl

/-- A lenient merge of two sources that can be read always ends, and is made of its edits. -/
theorem merge_lenient {o : Options} (hstrict : o.isStrict = false) {snippet : Text} {s : Document}
    (hd : Document.scan host = .ok d) (hs : Document.scan snippet = .ok s) :
    ∃ report, (merge o host snippet).result = .ok report ∧
      report.text = applyEdits host (edits d (o.placement.getD .inPlace) (extract s false)) := by
  have hread : read host = .ok d := by simp only [read, hd]
  have hreads : read snippet = .ok s := by simp only [read, hs]
  by_cases hblank : snippet.isBlankText
  · have hnew : (extract s false).table.entries = [] := by
      have hsource := (Document.of_scan hs).1
      have hvalues := extract_blank (hsource ▸ hblank) false
      simpa [Table.values] using hvalues
    refine ⟨⟨host, .item, []⟩, by simp [merge, hread, hblank], ?_⟩
    rw [edits_nil hd _ hnew, Edit.applyEdits_nil]
  · by_cases hempty : (extract s false).table.isEmpty
    · refine ⟨⟨host, .item, [.noFunction]⟩, by simp [merge, hread, hreads, hblank, hempty], ?_⟩
      rw [edits_nil hd _ (List.isEmpty_iff.mp hempty), Edit.applyEdits_nil]
    · have hlenient : (reconcile rules (o.placement.getD .inPlace) false (extract d true).table
          (extract s false).table (extract s false).commandsOf).result = .ok _ := reconcile_lenient
      refine ⟨_, by
        simp only [merge, hread, hreads, hblank, hempty, hstrict, Traced.result_bind,
          Traced.result_ofExcept, Traced.ok_bind, Bool.false_eq_true, if_false, hlenient,
          Traced.result_pure]
        rfl, ?_⟩
      simp only [foldl_advance_table]
      rfl

/-- An offset that lies in no function whose name the snippet touches. -/
def isOutside (T : Pieces Details) (new : Extraction Details) (i : Nat) : Bool :=
  !T.values.any fun g =>
    isTouched rules new.commandsOf new.table.entries g.name && g.start ≤ i && i < g.stop

def touched (T : Pieces Details) (new : Extraction Details) : List Function :=
  T.values.filter fun g => isTouched rules new.commandsOf new.table.entries g.name

theorem mem_touched {g : Function} :
    g ∈ touched T new ↔ g ∈ T.values ∧ isTouched rules new.commandsOf new.table.entries g.name :=
  List.mem_filter

section

variable (hd : Document.scan host = .ok d)
include hd

theorem mem_touched_of_mem_goneOf {g : Function × Option Function}
    (hg : g ∈ Edit.goneOf (extract d true).table
      (run rules placement new.commandsOf (extract d true).table new.table.entries) placement) :
    g.1 ∈ touched (extract d true).table new := by
  obtain ⟨hmem, hnot, -⟩ := (Edit.mem_goneOf (extract_keyed d true) (origin_extract hd)
    (provenance_edits hd placement new) placement).mp hg
  rw [mem_values_run rules_lawful (extract_keyed d true) (origin_extract hd) _ hmem,
    Bool.not_eq_false] at hnot
  exact mem_touched.mpr ⟨hmem, hnot⟩

theorem mem_edits_cases (he : e ∈ edits d placement new) :
    (∃ g ∈ touched (extract d true).table new, e.start = g.start ∧ e.stop = g.stop) ∨
      ∃ f, e.start = (insertionPoint d (extract d true).table f).1 ∧ e.stop = e.start ∧
        e.text.isSome := by
  rw [edits, Edit.plan_eq, List.mem_append] at he
  rcases he with he | he
  · obtain ⟨g, hg, rfl⟩ := List.mem_map.mp he
    exact Or.inl ⟨g.1, mem_touched_of_mem_goneOf hd hg, rfl, rfl⟩
  · obtain ⟨q, -, rfl⟩ := List.mem_map.mp he
    exact Or.inr ⟨q, rfl, rfl, rfl⟩

theorem start_le_stop_of_mem_edits (he : e ∈ edits d placement new) : e.start ≤ e.stop := by
  rcases mem_edits_cases hd he with ⟨g, hg, hstart, hstop⟩ | ⟨f, -, hstop, -⟩
  · rw [hstart, hstop]
    exact Int.le_of_lt (sound_of_mem hd (mem_touched.mp hg).1).start_lt
  · exact Int.le_of_eq hstop.symm

theorem layouts_perm (placement : Placement)
    (new : Extraction Details) :
    (((Edit.goneOf (extract d true).table
        (run rules placement new.commandsOf (extract d true).table new.table.entries)
        placement).filterMap (·.2) ++
      Edit.appended placement (run rules placement new.commandsOf (extract d true).table
        new.table.entries)).map layout).Perm
      ((survivors rules new.commandsOf new.table.entries).map layout) := by
  have hbooking := Edit.booking_of_provenance (extract_keyed d true) (origin_extract hd)
    (provenance_edits hd placement new) placement
  have hsurvivors := Edit.incoming_run_perm rules_lawful placement new.commandsOf
    (extract_keyed d true) (origin_extract hd) new.table.entries
  have hadopt : ∀ fs : List Function, fs.map layout = (fs.map (adopt none)).map layout := by
    intro fs
    rw [List.map_map]
    rfl
  refine (hbooking.once.map layout).trans ?_
  rw [hadopt, hadopt (survivors ..)]
  exact hsurvivors.map layout

theorem text_of_mem_edits (he : e ∈ edits d placement new)
    {t : Text} (ht : t ∈ e.text) :
    ∃ f ∈ survivors rules new.commandsOf new.table.entries, ∃ i : Text, i.isBlankText ∧
      t = Indentation.indent (layout f).render i [] := by
  have hsound : ∀ g ∈ (extract d true).table.values, Sound g := fun g hg => sound_of_mem hd hg
  rw [edits, Edit.plan_eq, List.mem_append] at he
  rcases he with he | he
  · obtain ⟨g, hg, rfl⟩ := List.mem_map.mp he
    obtain ⟨q, hq, rfl⟩ := Option.map_eq_some_iff.mp ht
    have hmem := (mem_touched.mp (mem_touched_of_mem_goneOf hd hg)).1
    obtain ⟨f, hf, hsame⟩ := List.mem_map.mp ((layouts_perm hd placement new).mem_iff.mp
      (List.mem_map_of_mem (List.mem_append_left _ (List.mem_filterMap.mpr ⟨g, hg, hq⟩))))
    exact ⟨f, hf, g.1.details.indent, (hsound g.1 hmem).indent, by rw [hsame]; rfl⟩
  · obtain ⟨q, hq, rfl⟩ := List.mem_map.mp he
    obtain rfl := Option.some.inj ht
    obtain ⟨f, hf, hsame⟩ := List.mem_map.mp ((layouts_perm hd placement new).mem_iff.mp
      (List.mem_map_of_mem (List.mem_append_right _ hq)))
    exact ⟨f, hf, _, isBlankText_insertionPoint hsound q, by rw [hsame]; rfl⟩

theorem isFree_edits (placement : Placement)
    (new : Extraction Details) :
    Edit.isFree (edits d placement new) = isOutside (extract d true).table new := by
  funext i
  rw [Edit.isFree, isOutside, Bool.not_inj_iff, Bool.eq_iff_iff, List.any_eq_true, List.any_eq_true]
  simp only [Bool.and_eq_true, decide_eq_true_eq]
  constructor
  · rintro ⟨e, he, hcovers⟩
    simp only [Edit.covers, Bool.and_eq_true, decide_eq_true_eq] at hcovers
    rcases mem_edits_cases hd he with ⟨g, hg, hstart, hstop⟩ | ⟨f, -, hstop, -⟩
    · obtain ⟨hmem, htouched⟩ := mem_touched.mp hg
      have := (sound_of_mem hd hmem).start_nonneg
      exact ⟨g, hmem, ⟨htouched, by omega⟩, by omega⟩
    · omega
  · rintro ⟨g, hmem, ⟨htouched, hstart⟩, hstop⟩
    have hnot : g ∉ (run rules placement new.commandsOf (extract d true).table
        new.table.entries).values := by
      rw [mem_values_run rules_lawful (extract_keyed d true) (origin_extract hd) _ hmem, htouched]
      simp
    have hbooking := Edit.booking_of_provenance (extract_keyed d true) (origin_extract hd)
      (provenance_edits hd placement new) placement
    obtain ⟨g, hgone, rfl⟩ := List.mem_map.mp ((hbooking.mem_gone g hmem).mpr hnot)
    refine ⟨Edit.ofGone (render d (extract d true).table) g, ?_, ?_⟩
    · rw [edits, Edit.plan_eq]
      exact List.mem_append_left _ (List.mem_map_of_mem hgone)
    · simp only [Edit.covers, Bool.and_eq_true, decide_eq_true_eq]
      simp only [Edit.ofGone]
      omega

theorem ink_texts_edits (placement : Placement)
    (new : Extraction Details) :
    (((edits d placement new).filterMap (·.text)).map Text.ink).Perm
      ((survivors rules new.commandsOf new.table.entries).map fun f => (layout f).render.ink) := by
  have hsound : ∀ g ∈ (extract d true).table.values, Sound g := fun g hg => sound_of_mem hd hg
  have hlayouts := (layouts_perm hd placement new).map fun l => l.render.ink
  rw [List.map_map, List.map_map] at hlayouts
  refine List.Perm.trans (List.Perm.of_eq ?_) hlayouts
  rw [edits, Edit.plan_eq, List.filterMap_append, List.map_append, List.map_append,
    List.filterMap_map, List.filterMap_map]
  congr 1
  · rw [List.map_filterMap, List.map_filterMap]
    apply List.filterMap_congr
    intro g hg
    have hmem := (mem_touched.mp (mem_touched_of_mem_goneOf hd hg)).1
    cases hq : g.2 with
    | none => simp [Edit.ofGone, hq]
    | some q => simp [Edit.ofGone, hq, ink_render hsound q (some g.1) (by simpa using hmem)]
  · have hsome : (fun e : Edit => e.text) ∘ Edit.ofFresh (render d (extract d true).table)
        (fun f => (insertionPoint d (extract d true).table f).1) =
        some ∘ fun f => render d (extract d true).table f none := rfl
    rw [hsome, List.filterMap_eq_map, List.map_map]
    apply List.map_congr_left
    intro f _
    exact ink_render hsound f none (by simp)

end

end

/-- A lenient merge of two sources that can be read always ends. The ink of its outcome is that of
the host outside the functions whose names the snippet touches, in order, with the ink of each
function of the snippet that lasts put in once and as a whole. -/
theorem merge_interleaves_ink {o : Options} (hstrict : o.isStrict = false) {host snippet : Text}
    {d s : Document} (hd : Document.scan host = .ok d) (hs : Document.scan snippet = .ok s) :
    ∃ report blocks, (merge o host snippet).result = .ok report ∧
      blocks.Perm
        ((survivors rules (extract s false).commandsOf (extract s false).table.entries).map
        fun f => (layout f).render.ink) ∧
      Text.Interleaved (host.pick (isOutside (extract d true).table (extract s false))).ink blocks
        report.text.ink := by
  obtain ⟨report, hreport, htext⟩ := merge_lenient hstrict hd hs
  obtain ⟨texts, hperm, hinterleaved⟩ := Edit.applyEdits_interleaved host
    (edits d (o.placement.getD .inPlace) (extract s false))
    fun e he => start_le_stop_of_mem_edits hd he
  refine ⟨report, texts.map Text.ink, hreport, ?_, ?_⟩
  · exact (hperm.map Text.ink).trans (ink_texts_edits hd _ _)
  · rw [htext, ← isFree_edits hd (o.placement.getD .inPlace)]
    exact hinterleaved

/-- A function is renamed onto another one of the host, a third is deleted, a comment stays. -/
theorem merge_interleaves_ink_renamed :
    ∃ d s report blocks,
      Document.scan "fn a() \x7b 1 \x7d\n\n// kept\n\nfn b() \x7b\x7d\nfn c() \x7b\x7d\n".toList =
        .ok d ∧
      Document.scan "// @delete\nfn c() \x7b\x7d\n// @rename b\nfn a() \x7b 2 \x7d\n".toList =
        .ok s ∧
      (merge {} d.source s.source).result = .ok report ∧
      blocks.Perm ["fnb()\x7b2\x7d".toList] ∧
      Text.Interleaved "//kept".toList blocks report.text.ink := by
  let host : Text := "fn a() \x7b 1 \x7d\n\n// kept\n\nfn b() \x7b\x7d\nfn c() \x7b\x7d\n".toList
  let snippet : Text := "// @delete\nfn c() \x7b\x7d\n// @rename b\nfn a() \x7b 2 \x7d\n".toList
  have hscans : (Document.scan host).isOk ∧ (Document.scan snippet).isOk := by decide +kernel
  have hlasting : (Document.scan snippet).toOption.map (fun s =>
      (survivors rules (extract s false).commandsOf (extract s false).table.entries).map
        fun f => (layout f).render.ink) = some ["fnb()\x7b2\x7d".toList] := by decide +kernel
  have hkept :
      (Document.scan host).toOption.bind (fun d => (Document.scan snippet).toOption.map fun s =>
      (host.pick (isOutside (extract d true).table (extract s false))).ink) =
        some "//kept".toList := by decide +kernel
  obtain ⟨d, hd⟩ := Document.exists_of_isOk hscans.1
  obtain ⟨s, hs⟩ := Document.exists_of_isOk hscans.2
  simp only [hs, Except.toOption, Option.map_some, Option.some.injEq] at hlasting
  simp only [hd, hs, Except.toOption, Option.bind_some, Option.map_some, Option.some.injEq] at hkept
  obtain ⟨report, blocks, hreport, hperm, hinterleaved⟩ := merge_interleaves_ink (o := {}) rfl hd hs
  rw [hlasting] at hperm
  rw [hkept] at hinterleaved
  refine ⟨d, s, report, blocks, hd, hs, ?_, hperm, hinterleaved⟩
  rwa [(Document.of_scan hd).1, (Document.of_scan hs).1]

end Item

end Graft
