import Graft.Proofs.Item.Span
import Graft.Proofs.Relaid
import Graft.Proofs.Script.Frame

set_option autoImplicit false

/-!
Members of a TypeScript class that the snippet leaves alone. They are written again with the rest of
the body, relaid from their own indentation to that of the class. So a member keeps its text exactly
if every line behind its first one fits, which lines of a template literal or of a comment need not
do.
-/

namespace Graft

theorem Extraction.lasting_of_nodup {δ : Type} {ps : List (Piece δ × Commands)}
    {e : Piece δ × Commands} (hnames : (ps.map (·.1.name)).Nodup) (he : e ∈ ps) :
    Lasting ps e.1 := by
  obtain ⟨pre, post, rfl⟩ := List.append_of_mem he
  refine ⟨pre, e.2, post, rfl, fun q hq heq => ?_⟩
  rw [List.map_append, List.map_cons] at hnames
  exact (List.nodup_cons.mp hnames.of_append_right).1 (heq ▸ List.mem_map_of_mem hq)

namespace Script

variable {o : Options} {host snippet : Text} {c : ClassNode}
  {units : List (Extraction (Option Details))}

namespace Member

theorem text_ofGroup (source : Text) (index : Nat) (g : Group) :
    (ofGroup source index g).1.text =
      Indentation.dedentTail (source.slice g.start g.stop) (Indentation.ofLine source g.start) := by
  unfold ofGroup
  split
  · rfl
  · split
    · split <;> rfl
    · rfl

theorem mem_all {source : Text} {c : ClassNode} {g : Group} {i : Nat}
    (h : (groups source c)[i]? = some g) :
    ofGroup source i g ∈ all source c := by
  have hg : (g, i) ∈ (groups source c).zipIdx := List.mem_zipIdx_iff_getElem?.mpr h
  exact List.mem_map_of_mem hg

end Member

theorem newline_not_mem_memberIndent (source : Text) (c : ClassNode) :
    '\n' ∉ memberIndent source c := by
  have hinner : '\n' ∉ Indentation.ofLine source c.span.start ++ indentUnit := by
    rw [List.mem_append, not_or]
    refine ⟨fun h => ?_, by decide⟩
    have hindent : Text.isIndent '\n' := List.mem_takeWhile_imp h
    contradiction
  simp only [memberIndent]
  split
  · split
    · exact Text.newline_not_mem_line source _
    · exact hinner
  · exact hinner

def relaidMember (host : Text) (c : ClassNode) (g : Group) : Text :=
  Indentation.relaid (Indentation.ofLine host g.start).length (memberIndent host c)
    (host.slice g.start g.stop)

/-- True if the member stands in its lines as a member of this class is laid out. -/
def FitsInto (host : Text) (c : ClassNode) (g : Group) : Prop :=
  ∀ line ∈ ((host.slice g.start g.stop).splitOn '\n').tail,
    Indentation.Fits (Indentation.ofLine host g.start).length (memberIndent host c) line

instance (host : Text) (c : ClassNode) (g : Group) : Decidable (FitsInto host c g) := by
  unfold FitsInto
  infer_instance

theorem relaidMember_eq_iff (host : Text) (c : ClassNode) (g : Group) :
    relaidMember host c g = host.slice g.start g.stop ↔ FitsInto host c g :=
  Indentation.relaid_eq_self_iff (newline_not_mem_memberIndent host c) _

theorem infix_relaidMember {t : Pieces (Option Details)} {g : Group} {i : Nat}
    (hm : (Member.ofGroup host i g).1 ∈ t.values) :
    relaidMember host c g <:+: renderBody host c t := by
  have hbody := infix_renderBody host c hm
  rw [Member.render_of_host (Member.origin_ofGroup host i g), Member.text_ofGroup] at hbody
  obtain ⟨b, -, heq⟩ := Indentation.exists_indent_eq (memberIndent host c)
    (Indentation.dedentTail (host.slice g.start g.stop) (Indentation.ofLine host g.start))
  rw [heq, Indentation.relaid_dedentTail] at hbody
  exact (List.suffix_append b _).isInfix.trans hbody

/-- In a class whose members have different names, every member that nothing in the snippet touches
is in the merged document, relaid; it keeps its text if and only if its lines fit the class. Only a
directive that a strict merge refuses prevents the document. -/
theorem merge_relays_untouched (hinto : EntersInto o host snippet c units)
    (hnames : ((Member.all host c).map (·.1.name)).Nodup) :
    (∀ e, (mergeBy .script o host snippet).result = .error e → o.isStrict ∧ ∃ w, e = .directive w) ∧
    ∀ report, (mergeBy .script o host snippet).result = .ok report ∨
        (Graft.merge .script o host snippet).result = .ok report →
      ∀ i g, (groups host c)[i]? = some g →
        (∀ u ∈ units, u.touches Member.rules (Member.ofGroup host i g).1.name = false) →
        relaidMember host c g <:+: report.text ∧
        (relaidMember host c g = host.slice g.start g.stop ↔ FitsInto host c g) := by
  have hclasses := hinto.of_classes
  obtain ⟨hosts, new, -, hhosts, hnew, -⟩ := hclasses
  constructor
  · intro e he
    have hof : classesOf o snippet = .ok new := by
      rw [classesOf, hinto.notBlank]
      exact hnew
    exact error_of_merge hhosts hof he
  · intro report hreport i g hg huntouched
    have hmerged : (mergeBy .script o host snippet).result = .ok report :=
      hreport.elim id mergeBy_of_merge
    obtain ⟨t, hrewritten, hbody⟩ := exists_rewritten_of_merge hinto hmerged
    have hmem := Member.mem_all hg
    have hm : (Member.ofGroup host i g).1 ∈ t.values :=
      (hrewritten.mem_iff _ (hrewritten.host _ hmem)).mpr
      ⟨Extraction.lasting_of_nodup hnames hmem, huntouched⟩
    exact ⟨(infix_relaidMember hm).trans hbody, relaidMember_eq_iff host c g⟩

theorem merge_relays_untouched_method :
    let host : Text :=
      "class A \x7b\n  // 1\n  x() \x7b\n    // 2\n\n  \x7d\n  y() \x7b\x7d\n\x7d\n".toList
    let snippet : Text := "class A \x7b\n  y(v) \x7b\x7d\n\x7d\n".toList
    ∃ c units g report, EntersInto {} host snippet c units ∧
      ((Member.all host c).map (·.1.name)).Nodup ∧
      (groups host c)[0]? = some g ∧
      (∀ u ∈ units, u.touches Member.rules (Member.ofGroup host 0 g).1.name = false) ∧
      (mergeBy .script {} host snippet).result = .ok report ∧ FitsInto host c g ∧
      "// 1\n  x() \x7b\n    // 2\n\n  \x7d".toList <:+: report.text := by
  intro host snippet
  obtain ⟨report, hreport⟩ :=
    Traced.exists_of_isOk (x := (mergeBy .script {} host snippet).result) (by decide +kernel)
  obtain ⟨c, units, hinto, hnames, hsome, hread⟩ := exists_entersInto host snippet
    (P := fun c units =>
    ((Member.all host c).map (·.1.name)).Nodup ∧ (groups host c)[0]?.isSome ∧
      ∀ g ∈ (groups host c)[0]?, FitsInto host c g ∧
        host.slice g.start g.stop = "// 1\n  x() \x7b\n    // 2\n\n  \x7d".toList ∧
      ∀ u ∈ units, u.touches Member.rules (Member.ofGroup host 0 g).1.name = false) (by decide)
        (by decide +kernel)
  obtain ⟨g, hg⟩ := Option.isSome_iff_exists.mp hsome
  obtain ⟨hfits, htext, huntouched⟩ := hread g hg
  obtain ⟨hin, hsame⟩ :=
    (merge_relays_untouched hinto hnames).2 report (.inl hreport) 0 _ hg huntouched
  exact ⟨_, _, _, report, hinto, hnames, hg, huntouched, hreport, hfits,
    htext ▸ hsame.mpr hfits ▸ hin⟩

/-- A comment that goes on at the margin is moved with its method, though the snippet does not name
it. -/
theorem merge_moves_comment :
    let host : Text := "class A \x7b\n  /*\n*/\n  x() \x7b\x7d\n\x7d\n".toList
    let snippet : Text := "class A \x7b\n  y() \x7b\x7d\n\x7d\n".toList
    let merged : Text := "class A \x7b\n  /*\n  */\n  x() \x7b\x7d\n  y() \x7b\x7d\n\x7d\n".toList
    ∃ c units g, EntersInto {} host snippet c units ∧ ((Member.all host c).map (·.1.name)).Nodup ∧
      (groups host c)[0]? = some g ∧
      (∀ u ∈ units, u.touches Member.rules (Member.ofGroup host 0 g).1.name = false) ∧
      (Graft.merge .script {} host snippet).result.toOption.map (·.text) = some merged ∧
      ¬host.slice g.start g.stop <:+: merged := by
  intro host snippet merged
  obtain ⟨c, units, hinto, hnames, hsome, hread⟩ := exists_entersInto host snippet
    (P := fun c units =>
    ((Member.all host c).map (·.1.name)).Nodup ∧ (groups host c)[0]?.isSome ∧
      ∀ g ∈ (groups host c)[0]?, (¬host.slice g.start g.stop <:+: merged) ∧
      ∀ u ∈ units, u.touches Member.rules (Member.ofGroup host 0 g).1.name = false) (by decide)
        (by decide +kernel)
  obtain ⟨g, hg⟩ := Option.isSome_iff_exists.mp hsome
  obtain ⟨hlost, huntouched⟩ := hread g hg
  exact ⟨c, units, g, hinto, hnames, hg, huntouched, by decide +kernel, hlost⟩

end Script

end Graft
