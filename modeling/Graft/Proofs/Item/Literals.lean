import Graft.Proofs.Item.SelfMerge
import Graft.Proofs.Item.Spared
import Graft.Proofs.Members
import Graft.Proofs.Relaid
import Graft.Proofs.Strict

set_option autoImplicit false

/-!
Comments and literals in the functions of a snippet. A function is moved as a whole from its own
indentation to that of its new place, the lines inside a literal like all others. So a literal is
written as it was exactly if its lines fit, and otherwise its text changes.
-/

namespace Graft

namespace Edit

variable {source u : Text} {c : Char}

theorem infix_step_text (source : Text) (p : Progress) {e : Edit} {t : Text}
    (ht : e.text = some t) :
    t <:+: (step source p e).out := by
  simp only [step, ht]
  split
  · obtain ⟨tail, -, heq⟩ := insert_eq source t
      ⟨p.out ++ source.slice p.cursor (max e.start.toNat p.cursor), max e.start.toNat p.cursor⟩
    rw [heq]
    exact ⟨_, tail, rfl⟩
  · exact (List.suffix_append _ _).isInfix

theorem infix_applyEdits_text (hc : Text.isBlank c = false) {edits : List Edit} {e : Edit}
    (he : e ∈ edits) (ht : e.text = some (u ++ [c])) : u ++ [c] <:+: applyEdits source edits := by
  obtain ⟨pre, post, hsplit⟩ :=
    List.append_of_mem ((List.mergeSort_perm edits before).mem_iff.mpr he)
  have hout : u ++ [c] <:+: ((edits.mergeSort before).foldl (step source) {}).out := by
    rw [hsplit, List.foldl_append, List.foldl_cons]
    exact infix_foldl_step hc post (infix_step_text source _ ht)
  have hall := hout.trans (List.prefix_append _
    (source.drop ((edits.mergeSort before).foldl (step source) {}).cursor)).isInfix
  simp only [applyEdits]
  split
  · exact hall.trans (List.prefix_append _ _).isInfix
  · exact hall

end Edit

namespace Item

open Reconcile Graft.Item.Function

namespace Document

theorem text_of_mask {source : Text} {d : Document} (hd : scan source = .ok d) {m : Span}
    (hm : m ∈ d.masks.toList) :
    ∃ c t, source.slice m.start m.stop = c :: t ∧ Text.isBlank c = false ∧
      ('\n' ∉ c :: t ∨ ∃ u e, c :: t = u ++ [e] ∧ Text.isBlank e = false) := by
  obtain ⟨ls, hlexes, -, -, hmasks, -⟩ := lexes_of_scan hd
  rw [hmasks] at hm
  obtain ⟨ls₁, u, ls₂, rfl, rfl⟩ := exists_of_mem_masksFrom hm
  obtain ⟨x, y, rfl, hx, hy⟩ := hlexes.split
  have hlength : (ls₁.flatMap Lexeme.text).length = x.length := by rw [hx.text_eq]
  cases hy with
  | @masked _ u t _ _ hne hmask _ =>
    have hslice : Text.slice (x ++ (u ++ t)) (0 + (ls₁.flatMap Lexeme.text).length)
        (0 + (ls₁.flatMap Lexeme.text).length + u.length) = u := by
      rw [hlength, Text.slice_eq, Nat.zero_add, Nat.add_sub_cancel_left, List.drop_left,
        List.take_left]
    rw [hslice]
    obtain ⟨c, rest, rfl⟩ := List.exists_cons_of_ne_nil hne
    refine ⟨c, rest, rfl, ?_, ?_⟩
    · rw [Bool.eq_false_iff]
      intro hc
      rw [List.cons_append, Lexeme.afterMask_blank hc] at hmask
      simp at hmask
    · obtain ⟨v, hv, hcases⟩ := Lexeme.afterMask_eq_some_iff.mp hmask
      obtain rfl := List.append_cancel_right hv
      rcases hcases with ⟨⟨w, hw, hnewline⟩, -⟩ | hmasks
      · left
        rw [hw]
        simp [hnewline]
      · obtain ⟨w, e, he, hclosing⟩ := hmasks.closing
        refine .inr ⟨w, e, he, Bool.eq_false_iff.mpr fun hblank => ?_⟩
        rw [Lexeme.isClosing_of_isBlank hblank] at hclosing
        contradiction

end Document

section

variable {o : Options} {host snippet : Text} {d s : Document}

theorem notices_of_undirected (t : Pieces Details) {e : Text × Function}
    (he : e.2.anonymous = false) :
    notices rules (fun _ => {}) t e = [] := by
  simp only [notices, he, Bool.false_eq_true, if_false]
  rfl

theorem allNotices_of_undirected (placement : Placement) (t : Pieces Details)
    {es : List (Text × Function)} (hes : ∀ e ∈ es, e.2.anonymous = false) :
    allNotices rules placement (fun _ => {}) t es = [] := by
  induction es generalizing t with
  | nil => rfl
  | cons e es ih =>
    rw [List.forall_mem_cons] at hes
    rw [allNotices, notices_of_undirected t hes.1, ih _ hes.2, List.nil_append]

theorem reconcile_of_undirected (hs : Document.scan snippet = .ok s)
    (hundirected : ∀ f ∈ found s, f.Undirected s) (placement : Placement) (isStrict : Bool)
    (T : Pieces Details) :
    (reconcile rules placement isStrict T (extract s false).table
      (extract s false).commandsOf).result =
        (reconcile rules placement false T (extract s false).table
          (extract s false).commandsOf).result := by
  have hnamed : ∀ e ∈ (extract s false).table.entries, e.2.anonymous = false := fun e he =>
    (sound_of_mem hs (Table.mem_values_of_mem he)).named
  cases isStrict with
  | false => rfl
  | true =>
    rw [commandsOf_of_undirected hundirected, reconcile_eq_verdict, reconcile_lenient,
      foldl_advance_warnings, allNotices_of_undirected placement T hnamed]
    rfl

theorem merge_of_undirected (hd : Document.scan host = .ok d) (hs : Document.scan snippet = .ok s)
    (hundirected : ∀ f ∈ found s, f.Undirected s) :
    ∃ report, (merge o host snippet).result = .ok report ∧
      report.text = applyEdits host (edits d (o.placement.getD .inPlace) (extract s false)) := by
  have hsame : (merge o host snippet).result =
      (merge { o with strict := .bool false } host snippet).result := by
    have hread : read host = .ok d := by simp only [read, hd]
    have hreads : read snippet = .ok s := by simp only [read, hs]
    simp only [merge, hread, hreads, Traced.result_bind, Traced.result_ofExcept, Traced.ok_bind]
    split
    · rfl
    · simp only [Traced.result_bind, Traced.result_ofExcept, Traced.ok_bind]
      split
      · rfl
      · rw [Traced.result_bind, Traced.result_bind,
          reconcile_of_undirected hs hundirected (o.placement.getD .inPlace) o.isStrict]
        rfl
  obtain ⟨report, hreport, htext⟩ := merge_lenient (o := { o with strict := .bool false }) rfl hd hs
  exact ⟨report, hsame.trans hreport, htext⟩

/-- The function of the document whose place a function of the snippet takes. -/
def replaced? (d : Document) (placement : Placement) (f : Function) : Option Function :=
  if placement = .inPlace then (extract d true).table.get? f.name else none

/-- The indentation that a function of the snippet is written at: that of the function whose place
it takes, or else that of the place it is put in. -/
def newIndent (d : Document) (placement : Placement) (f : Function) : Text :=
  match replaced? d placement f with
  | some g => g.details.indent
  | none => (insertionPoint d (extract d true).table f).2

theorem newline_not_mem_indent {keepDirectives : Bool} {g : Function}
    (hg : g ∈ (extract d keepDirectives).table.values) : '\n' ∉ g.details.indent := by
  obtain ⟨start, h, e, -, rfl⟩ := exists_site hg
  simp only [build]
  split
  · exact Text.newline_not_mem_line d.source start
  · exact List.not_mem_nil

theorem newline_not_mem_newIndent (d : Document) (placement : Placement) (f : Function) :
    '\n' ∉ newIndent d placement f := by
  have hpoint : '\n' ∉ (insertionPoint d (extract d true).table f).2 := by
    simp only [insertionPoint]
    split
    · next g hg =>
      have hmem := mem_of_lastToEnd hg
      split at hmem
      · exact newline_not_mem_indent (List.mem_filter.mp hmem).1
      · exact newline_not_mem_indent hmem
    · next b _ _ =>
      rw [List.mem_append, not_or]
      refine ⟨fun h => ?_, by decide⟩
      have hindent : Text.isIndent '\n' := List.mem_takeWhile_imp h
      contradiction
    · exact List.not_mem_nil
  unfold newIndent
  split
  · next g hg =>
    unfold replaced? at hg
    split at hg
    · exact newline_not_mem_indent (Table.mem_values_of_mem (Table.mem_of_get?_eq_some hg))
    · contradiction
  · exact hpoint

theorem exists_merged_of_isLast (hs : Document.scan snippet = .ok s)
    (hundirected : ∀ f ∈ found s, f.Undirected s) {f : Found} (hf : IsLast s f)
    (placement : Placement) :
    ∃ q : Function, q ∈ (run rules placement (extract s false).commandsOf (extract d true).table
        (extract s false).table.entries).values ∧ q.origin = .snippet ∧ q.body = (f.piece s).body ∧
      q.details.target = (f.piece s).details.target ∧
      q.replaces = ((extract d true).table.get? (f.piece s).name).bind fun g =>
        if g.origin = .host then some g.name else g.replaces := by
  have hsame : extract s false = extract s true := by
    rw [extract_of_undirected hundirected, extract_of_undirected hundirected]
  have hkeyed := extract_keyed s false
  have hentry : ((f.piece s).name, f.piece s) ∈ (extract s false).table.entries :=
    hkeyed.mem_entries (hsame ▸ mem_values_extract.mpr ⟨f, hf, rfl⟩)
  have hnamed : ∀ e ∈ (extract s false).table.entries, e.2.anonymous = false := fun e he =>
    (sound_of_mem hs (Table.mem_values_of_mem he)).named
  have hspares : ∀ e ∈ (extract s false).table.entries, ∀ k,
      e.1 ≠ k → touches rules (fun _ => {}) e k = false := by
    intro e he k hne
    refine (touches_eq_false_iff (hnamed e he)).mpr ⟨hne.symm, fun _ => ?_⟩
    rw [finalName_of_no_rename rfl, ← hkeyed.name he]
    exact hne.symm
  obtain ⟨pre, post, hsplit⟩ := List.append_of_mem hentry
  have hnodup : ((extract s false).table.entries.map (·.1)).Nodup := hkeyed.nodup
  rw [hsplit, List.map_append, List.map_cons, List.nodup_append, List.nodup_cons] at hnodup
  have hbefore : ∀ e ∈ pre, touches rules (fun _ => {}) e (f.piece s).name = false := fun e he =>
    hspares e (by simp [hsplit, he]) _ (hnodup.2.2 e.1 (List.mem_map_of_mem he) _ (by simp))
  have hafter : ∀ e ∈ post, touches rules (fun _ => {}) e (f.piece s).name = false := fun e he =>
    hspares e (by simp [hsplit, he]) _ fun heq => hnodup.2.1.1 (List.mem_map.mpr ⟨e, he, heq⟩)
  have hfinal : finalName rules (fun _ => {}) ((f.piece s).name, f.piece s) = (f.piece s).name :=
    finalName_of_no_rename rfl
  have hlasts :
      Lasts rules (fun _ => {}) (extract s false).table.entries pre ((f.piece s).name, f.piece s) :=
    ⟨enters_iff.mpr ⟨hnamed _ hentry, rfl⟩, post, hsplit, hfinal.symm ▸ hafter⟩
  have hmem : ((f.piece s).name, adopt ((extract d true).table.get? (f.piece s).name)
      (outcome rules (fun _ => {}) ((f.piece s).name, f.piece s))) ∈
      (run rules placement (fun _ => {}) (extract d true).table
        (extract s false).table.entries).entries :=
    (mem_run rules_lawful _).mpr (.inr ⟨pre, _, hlasts, hfinal.symm,
      by rw [get?_run_of_untouched rules_lawful (extract_keyed d true).nodup hbefore]⟩)
  rw [commandsOf_of_undirected hundirected]
  exact ⟨_, Table.mem_values_of_mem hmem, rfl, rfl, rfl, rfl⟩

theorem exists_edit_of_isLast (hd : Document.scan host = .ok d) (hs : Document.scan snippet = .ok s)
    (hundirected : ∀ f ∈ found s, f.Undirected s) {f : Found} (hf : IsLast s f)
    (placement : Placement) :
    ∃ e ∈ edits d placement (extract s false), ∃ q : Function, q.body = (f.piece s).body ∧
      e.text = some
        (Indentation.indent (layout q).render (newIndent d placement (f.piece s)) []) := by
  obtain ⟨q, hq, horigin, hbody, htarget, hreplaces⟩ :=
    exists_merged_of_isLast (d := d) hs hundirected hf placement
  have hprovenance := provenance_edits hd placement (extract s false)
  have hmem := Edit.mem_incoming.mpr ⟨hq, horigin⟩
  have hpoint : insertionPoint d (extract d true).table q =
      insertionPoint d (extract d true).table (f.piece s) := by simp only [insertionPoint, htarget]
  cases placement with
  | moveToEnd =>
    refine ⟨Edit.ofFresh (render d (extract d true).table)
      (fun f => (insertionPoint d (extract d true).table f).1) q, ?_, q, hbody, ?_⟩
    · rw [edits, Edit.plan_eq, Edit.appended_moveToEnd]
      exact List.mem_append_right _ (List.mem_map_of_mem hmem)
    · have hindent : newIndent d .moveToEnd (f.piece s) =
          (insertionPoint d (extract d true).table q).2 := by
        rw [hpoint]
        rfl
      rw [hindent]
      rfl
  | inPlace =>
    have hreplaced : replaced? d .inPlace (f.piece s) =
        (extract d true).table.get? (f.piece s).name := rfl
    cases hget : (extract d true).table.get? (f.piece s).name with
    | none =>
      rw [hget, Option.bind_none] at hreplaces
      refine ⟨Edit.ofFresh (render d (extract d true).table)
        (fun f => (insertionPoint d (extract d true).table f).1) q, ?_, q, hbody, ?_⟩
      · rw [edits, Edit.plan_eq, Edit.appended_inPlace (Edit.nodup_replaces hprovenance)]
        exact List.mem_append_right
          _ (List.mem_map_of_mem (List.mem_filter.mpr ⟨hmem, by simp [hreplaces]⟩))
      · simp only [newIndent, hreplaced, hget]
        rw [← hpoint]
        rfl
    | some g =>
      have hg : g ∈ (extract d true).table.values :=
        Table.mem_values_of_mem (Table.mem_of_get?_eq_some hget)
      rw [hget, Option.bind_some, if_pos (origin_extract hd g hg)] at hreplaces
      -- The function it stands for is gone from the table, so that its span is free.
      obtain ⟨g', hg', hname, hgone⟩ := hprovenance.gone q hq horigin g.name hreplaces
      obtain rfl := (extract_keyed d true).eq_of_name_eq hg' hg hname
      have htaken := (Edit.lookup_takeovers hprovenance).mpr ⟨hq, horigin, hreplaces⟩
      refine ⟨Edit.ofGone (render d (extract d true).table) (g', some q), ?_, q, hbody, ?_⟩
      · rw [edits, Edit.plan_eq]
        exact List.mem_append_left _ (List.mem_map_of_mem ((Edit.mem_goneOf (extract_keyed d true)
          (origin_extract hd) hprovenance .inPlace).mpr ⟨hg', hgone, htaken.symm⟩))
      · simp only [newIndent, hreplaced, hget]
        rfl

theorem exists_render_eq {q : Function} {body : Text} (hq : q.body = some (body ++ ['\x7d'])) :
    ∃ head, (layout q).render = head ++ (body ++ ['\x7d']) := by
  have hbody : (layout q).body = body ++ ['\x7d'] := by simp only [layout, hq, Option.getD_some]
  rw [Layout.Function.render, hbody, Layout.dropFinalNewlines, ← List.append_assoc,
    Text.dropLastWhile_concat _ (by decide), List.append_assoc]
  exact ⟨_, rfl⟩

theorem exists_relaid_eq (width : Nat) (by_ u : Text) :
    ∃ v, Indentation.relaid width by_ (u ++ ['\x7d']) = v ++ ['\x7d'] := by
  obtain ⟨v, hv⟩ : Indentation.relaid width by_ ['\x7d'] <:+
      Indentation.relaid width by_ (u ++ ['\x7d']) :=
    Indentation.suffix_relaid u (by decide) []
  rw [Indentation.relaid_of_not_mem (by decide)] at hv
  exact ⟨v, hv.symm⟩

theorem suffix_relaid_body (by_ own : Text) {q : Function} {body : Text}
    (hq : q.body = some (Indentation.dedentTail ('\x7b' :: body ++ ['\x7d']) own)) :
    Indentation.relaid own.length by_ ('\x7b' :: body ++ ['\x7d']) <:+
      Indentation.indent (layout q).render by_ [] := by
  obtain ⟨v, hv⟩ := exists_relaid_eq own.length [] ('\x7b' :: body)
  have hfirst : Indentation.relaid own.length [] ['\x7b'] <+:
      Indentation.relaid own.length [] ('\x7b' :: body ++ ['\x7d']) :=
    Indentation.prefix_relaid (.inl (by decide)) (body ++ ['\x7d'])
  rw [Indentation.relaid_of_not_mem (by decide)] at hfirst
  obtain ⟨w, hw⟩ := hfirst
  have hdedented : Indentation.dedentTail ('\x7b' :: body ++ ['\x7d']) own = '\x7b' :: w := by
    rw [Indentation.dedentTail_eq_relaid]
    exact hw.symm
  obtain ⟨head, hrender⟩ := exists_render_eq (hq.trans (congrArg some
    ((Indentation.dedentTail_eq_relaid _ _).trans hv)))
  rw [← hv, ← Indentation.dedentTail_eq_relaid, hdedented] at hrender
  obtain ⟨b, -, hindent⟩ := Indentation.exists_indent_eq by_ (layout q).render
  rw [hindent, hrender, ← Indentation.relaid_dedentTail, hdedented]
  exact (Indentation.suffix_relaid head (by decide) w).trans (List.suffix_append _ _)

theorem exists_body_eq (hs : Document.scan snippet = .ok s) {headerStop : Nat} {e : Extent}
    (he : extent? s headerStop = some e) :
    ∃ body, snippet.slice e.bodyStart e.bodyStop = '\x7b' :: body ++ ['\x7d'] := by
  obtain ⟨-, -, hopen, hclose⟩ := extent_brackets hs he
  have hlt : e.bodyStart < e.bodyStop - 1 := by
    obtain ⟨-, -, -, hlt, -⟩ := extent_spec hs he
    have hne : e.bodyStart ≠ e.bodyStop - 1 := fun heq => by
      rw [heq, hclose] at hopen
      exact absurd (Option.some.inj hopen) (by decide)
    omega
  refine ⟨snippet.slice (e.bodyStart + 1) (e.bodyStop - 1), ?_⟩
  rw [← Text.slice_eq_cons hopen hlt, ← Text.slice_eq_concat (Nat.le_of_lt hlt) hclose]
  congr 1
  omega

theorem infix_relaid (width : Nat) (by_ x y : Text) {c : Char} {t : Text}
    (hc : Text.isBlank c = false)
    (ht : '\n' ∉ c :: t ∨ ∃ u e, c :: t = u ++ [e] ∧ Text.isBlank e = false) :
    Indentation.relaid width by_ (c :: t) <:+: Indentation.relaid width by_ (x ++ (c :: t ++ y)) :=
  (Indentation.prefix_relaid ht y).isInfix.trans (Indentation.suffix_relaid x hc (t ++ y)).isInfix

theorem infix_relaid_body (hd : Document.scan host = .ok d) (hs : Document.scan snippet = .ok s)
    (hundirected : ∀ f ∈ found s, f.Undirected s) {f : Found} (hf : IsLast s f)
    (placement : Placement) :
    Indentation.relaid (f.piece s).details.indent.length (newIndent d placement (f.piece s))
        (snippet.slice f.extent.bodyStart f.extent.bodyStop) <:+:
      applyEdits host (edits d placement (extract s false)) := by
  obtain ⟨e, he, q, hbody, htext⟩ := exists_edit_of_isLast hd hs hundirected hf placement
  obtain ⟨body, hslice⟩ := exists_body_eq hs (site_of_mem hf.mem).extent
  have hq : q.body =
      some (Indentation.dedentTail ('\x7b' :: body ++ ['\x7d']) (f.piece s).details.indent) := by
    rw [hbody, ← hslice, ← (Document.of_scan hs).1]
    rfl
  rw [hslice]
  have hsuffix := suffix_relaid_body (newIndent d placement (f.piece s)) _ hq
  obtain ⟨v, hv⟩ :=
    exists_relaid_eq (f.piece s).details.indent.length (newIndent d placement (f.piece s))
    ('\x7b' :: body)
  obtain ⟨u, hu⟩ := hsuffix
  rw [hv, ← List.append_assoc] at hu
  refine List.IsInfix.trans ⟨u, [], ?_⟩
    (Edit.infix_applyEdits_text (by decide) he (htext.trans (congrArg some hu.symm)))
  rw [hv, List.append_nil, List.append_assoc]

/-- A snippet without directives is merged into every document, and all comments and literals in the
bodies of its functions are in the outcome, each relaid with its function; one keeps its text if and
only if its lines fit the new place. -/
theorem merge_relays_literals (hd : Document.scan host = .ok d) (hs : Document.scan snippet = .ok s)
    (hundirected : ∀ f ∈ found s, f.Undirected s) :
    ∃ report, (mergeBy .item o host snippet).result = .ok report ∧
      (∀ r, (Graft.merge .item o host snippet).result = .ok r → r = report) ∧
      ∀ f, IsLast s f → ∀ m ∈ s.masks.toList, f.extent.bodyStart ≤ m.start →
        m.stop ≤ f.extent.bodyStop →
        let width := (f.piece s).details.indent.length
        let indent := newIndent d (o.placement.getD .inPlace) (f.piece s)
        let literal := snippet.slice m.start m.stop
        Indentation.relaid width indent literal <:+: report.text ∧
        (Indentation.relaid width indent literal = literal ↔
          ∀ line ∈ (literal.splitOn '\n').tail, Indentation.Fits width indent line) := by
  obtain ⟨report, hreport, htext⟩ := merge_of_undirected (o := o) hd hs hundirected
  refine ⟨report, hreport, fun r hr => ?_, fun f hf m hm hstart hstop => ⟨?_, ?_⟩⟩
  · exact Except.ok.inj ((mergeBy_of_merge hr).symm.trans hreport)
  · obtain ⟨c, t, hslice, hc, hends⟩ := Document.text_of_mask hs hm
    have hle : m.start ≤ m.stop := by
      by_contra hlt
      rw [Text.slice_eq, Nat.sub_eq_zero_of_le (by omega), List.take_zero] at hslice
      contradiction
    have hbody : snippet.slice f.extent.bodyStart f.extent.bodyStop =
        snippet.slice f.extent.bodyStart m.start ++
        (snippet.slice m.start m.stop ++ snippet.slice m.stop f.extent.bodyStop) := by
      rw [Text.slice_append_slice _ hle hstop, Text.slice_append_slice _ hstart (hle.trans hstop)]
    have hin := infix_relaid_body hd hs hundirected hf (o.placement.getD .inPlace)
    rw [hbody, hslice] at hin
    rw [htext, hslice]
    exact (infix_relaid _ _ _ _ hc hends).trans hin
  · exact Indentation.relaid_eq_self_iff (newline_not_mem_newIndent d _ _) _

theorem merge_relays_literals_raw :
    let host : Text := "impl A \x7b\n    fn a() \x7b\x7d\n\x7d\n\nfn b() \x7b\x7d\n".toList
    let snippet : Text :=
      "fn a() \x7b\n    x(\"p\n\n\")\n\x7d\n\nfn b() \x7b\n    x(r#\"p\n  q\"#)\n\x7d\n".toList
    ∃ d s report, Document.scan host = .ok d ∧ Document.scan snippet = .ok s ∧
      (∀ f ∈ found s, f.Undirected s) ∧ (mergeBy .item {} host snippet).result = .ok report ∧
      "r#\"p\n  q\"#".toList <:+: report.text := by
  intro host snippet
  have hruns : (Document.scan host).isOk ∧ (Document.scan snippet).isOk := by decide +kernel
  have hscans : ∀ d ∈ (Document.scan host).toOption, ∀ s ∈ (Document.scan snippet).toOption,
      (∀ f ∈ found s, f.Undirected s) ∧ ∃ f ∈ found s, IsLast s f ∧ ∃ m ∈ s.masks.toList,
        f.extent.bodyStart ≤ m.start ∧ m.stop ≤ f.extent.bodyStop ∧
        snippet.slice m.start m.stop = "r#\"p\n  q\"#".toList ∧
        ∀ line ∈ ((snippet.slice m.start m.stop).splitOn '\n').tail,
          Indentation.Fits (f.piece s).details.indent.length
            (newIndent d .inPlace (f.piece s)) line := by
    decide +kernel
  obtain ⟨d, hd⟩ := Document.exists_of_isOk hruns.1
  obtain ⟨s, hs⟩ := Document.exists_of_isOk hruns.2
  obtain ⟨hundirected, f, -, hf, m, hm, hstart, hstop, hliteral, hfits⟩ :=
    hscans d (by rw [hd]; rfl) s (by rw [hs]; rfl)
  obtain ⟨report, hreport, -, hall⟩ := merge_relays_literals (o := {}) hd hs hundirected
  obtain ⟨hin, hsame⟩ := hall f hf m hm hstart hstop
  exact ⟨d, s, report, hd, hs, hundirected, hreport, hliteral ▸ hsame.mpr hfits ▸ hin⟩

/-- A string that goes on at the margin is indented along with its function. -/
theorem merge_indents_literal :
    let host : Text := "impl A \x7b\n    fn a() \x7b\x7d\n\x7d\n".toList
    let snippet : Text := "fn a() \x7b\n    x(\"p\nq\")\n\x7d\n".toList
    let merged : Text :=
      "impl A \x7b\n    fn a() \x7b\n        x(\"p\n    q\")\n    \x7d\n\x7d\n".toList
    ∃ d s f m, Document.scan host = .ok d ∧ Document.scan snippet = .ok s ∧
      (∀ f ∈ found s, f.Undirected s) ∧
      IsLast s f ∧ m ∈ s.masks.toList ∧ f.extent.bodyStart ≤ m.start ∧ m.stop ≤ f.extent.bodyStop ∧
      snippet.slice m.start m.stop = "\"p\nq\"".toList ∧
      (Graft.merge .item {} host snippet).result.toOption.map (·.text) = some merged ∧
      ¬"\"p\nq\"".toList <:+: merged := by
  intro host snippet merged
  have hruns : (Document.scan host).isOk ∧ (Document.scan snippet).isOk ∧
      (Graft.merge .item {} host snippet).result.toOption.map (·.text) = some merged ∧
      ¬"\"p\nq\"".toList <:+: merged := by decide +kernel
  have hscans : ∀ s ∈ (Document.scan snippet).toOption, (∀ f ∈ found s, f.Undirected s) ∧
      ∃ f ∈ found s, IsLast s f ∧ ∃ m ∈ s.masks.toList, f.extent.bodyStart ≤ m.start ∧
        m.stop ≤ f.extent.bodyStop ∧ snippet.slice m.start m.stop = "\"p\nq\"".toList := by
    decide +kernel
  obtain ⟨d, hd⟩ := Document.exists_of_isOk hruns.1
  obtain ⟨s, hs⟩ := Document.exists_of_isOk hruns.2.1
  obtain ⟨hundirected, f, -, hf, m, hm, hstart, hstop, hliteral⟩ := hscans s (by rw [hs]; rfl)
  exact ⟨d, s, f, m, hd, hs, hundirected, hf, hm, hstart, hstop, hliteral, hruns.2.2⟩

end

end Item

end Graft
