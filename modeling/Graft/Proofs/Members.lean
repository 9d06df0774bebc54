import Graft.Merge
import Graft.Proofs.ClassMerge

set_option autoImplicit false

/-!
What becomes of the members of a class that a snippet is merged into. The body is written anew from
a table with one member to a name, so a member stays exactly if no later member of its class has its
name and the snippet does not touch it.
-/

namespace Graft

open ClassMerge Reconcile

theorem mergeBy_of_merge {n : Notation} {o : Options} {host snippet : Text} {r : Report}
    (h : (merge n o host snippet).result = .ok r) : (mergeBy n o host snippet).result = .ok r := by
  simp only [merge, Traced.result_bind, Traced.result_log, Traced.ok_bind] at h
  obtain ⟨r', hr', h⟩ := Traced.exists_of_bind h
  suffices r' = r by rw [hr', this]
  split at h
  · rw [Traced.result_bind] at h
    obtain ⟨-, -, h⟩ := Traced.exists_of_bind h
    simpa using h
  · simpa using h

namespace Indentation

theorem isBlankText_ofLine (source : Text) (offset : Nat) : (ofLine source offset).isBlankText :=
  Text.ink_eq_nil_iff.mp (Edit.ink_indentation _)

end Indentation

namespace Script

namespace Member

def all (source : Text) (c : ClassNode) : List (Member × Commands) :=
  (groups source c).zipIdx.map fun g => ofGroup source g.2 g.1

theorem extract_eq (source : Text) (c : ClassNode) :
    extract source c = Extraction.addAll {} (all source c) := by
  rw [Extraction.addAll, all, List.foldl_map]
  rfl

theorem origin_ofGroup (source : Text) (index : Nat) (g : Group) :
    (ofGroup source index g).1.origin = .host := by
  unfold ofGroup
  split
  · rfl
  · split
    · split <;> rfl
    · rfl

theorem render_of_host {m : Member} (hm : m.origin = .host) : render m = m.text := by
  unfold render
  rw [hm]

end Member

section

variable {o : Options} {host snippet : Text} {hosts : List ClassNode} {i : Nat} {c : ClassNode}

def unit? (o : Options) (host snippet : Text) (hosts : List ClassNode) (i : Nat) (n : ClassNode) :
    Option (Extraction (Option Details)) :=
  if hostIndex? o (hosts.map (className host)) (className snippet n) = some i then
    some (Member.extract snippet n)
  else none

theorem enters_of_step (hc : hosts[i]? = some c) {p p' : ClassMerge (Option Details)}
    {n : ClassNode} (h : (step o host snippet hosts p n).result = .ok p') :
    Enters Member.rules (o.placement.getD .moveToEnd) i (Member.extract host c).table p p'
      (unit? o host snippet hosts i n) := by
  unfold unit?
  simp only [step] at h
  cases hindex : hostIndex? o (hosts.map (className host)) (className snippet n) with
  | none =>
    rw [if_neg (by simp)]
    simp only [hindex] at h
    split at h
    · obtain rfl := Except.ok.inj h
      exact .elsewhere rfl
    · obtain rfl := Except.ok.inj h
      exact .elsewhere rfl
  | some j =>
    simp only [hindex, Traced.result_bind] at h
    obtain ⟨r, hr, h⟩ := Traced.exists_of_bind h
    obtain rfl := Except.ok.inj h
    refine enters_setTable (table_of_reconcile hr) ?_ r.warnings
    rintro rfl
    rw [hc]
    cases hlookup : p.tables.lookup j <;> simp [current, hlookup]

theorem isBlankText_memberIndent (source : Text) (c : ClassNode) :
    (memberIndent source c).isBlankText := by
  have hinner : (Indentation.ofLine source c.span.start ++ indentUnit).isBlankText := by
    rw [Text.isBlankText, List.all_append, Bool.and_eq_true]
    exact ⟨Indentation.isBlankText_ofLine source c.span.start, by decide⟩
  have hspace : ∀ ch, isPlainSpace ch → Text.isBlank ch := by
    intro ch h
    simp only [isPlainSpace, Bool.or_eq_true, Bool.and_eq_true, decide_eq_true_eq, beq_iff_eq] at h
    rcases h with h | rfl
    · simp [Text.isBlank]
      omega
    · decide
  simp only [memberIndent]
  split
  · split
    · rename_i hown
      rw [Text.isBlankText, List.all_eq_true]
      exact fun ch hch => hspace ch (List.all_eq_true.mp hown ch hch)
    · exact hinner
  · exact hinner

theorem trimEnd_renderBody (source : Text) (c : ClassNode) (t : Pieces (Option Details)) :
    (renderBody source c t).trimEnd = renderBody source c t := by
  simp only [renderBody]
  split
  · exact Text.dropLastWhile_concat ['\x7b'] (by decide)
  · exact Text.dropLastWhile_concat _ (by decide)

theorem infix_renderBody (source : Text) (c : ClassNode) {t : Pieces (Option Details)} {m : Member}
    (hm : m ∈ t.values) :
    Indentation.indent (Member.render m) (memberIndent source c) [] <:+: renderBody source c t := by
  have hne : t.isEmpty = false := by
    rw [Table.isEmpty, List.isEmpty_eq_false_iff]
    intro hnil
    simp [Table.values, hnil] at hm
  simp only [renderBody, hne, Bool.false_eq_true, if_false]
  have hmem : Indentation.indent (Member.render m) (memberIndent source c) [] ∈
      t.values.map fun m => Indentation.indent (Member.render m) (memberIndent source c) [] :=
    List.mem_map_of_mem hm
  refine (Text.infix_join
    (if isSpaced source (groups source c) then ['\n', '\n'] else ['\n']) hmem).trans
    ⟨"\x7b\n".toList, '\n' :: Indentation.ofLine source c.span.start ++ ['\x7d'], ?_⟩
  simp only [List.append_assoc]

/-- The snippet enters `units` into the class `c` of the host. -/
structure EntersInto (o : Options) (host snippet : Text) (c : ClassNode)
    (units : List (Extraction (Option Details))) : Prop where
  notBlank : snippet.isBlankText = false
  notEmpty : units ≠ []
  of_classes : ∃ hosts new i, read host = .ok hosts ∧ read (wrap o snippet) = .ok new ∧
    hosts[i]? = some c ∧
    units = new.filterMap (unit? o host (wrap o snippet) hosts i)

def firstClass? (host snippet : Text) :
    Option (ClassNode × List (Extraction (Option Details))) := do
  let hosts ← (read host).toOption
  let new ← (read (wrap {} snippet)).toOption
  let c ← hosts[0]?
  return (c, new.filterMap (unit? {} host (wrap {} snippet) hosts 0))

theorem exists_entersInto (host snippet : Text)
    {P : ClassNode → List (Extraction (Option Details)) → Prop}
    (hblank : snippet.isBlankText = false)
    (h : (firstClass? host snippet).isSome ∧ ∀ e ∈ firstClass? host snippet, e.2 ≠ [] ∧ P e.1 e.2) :
    ∃ c units, EntersInto {} host snippet c units ∧ P c units := by
  obtain ⟨e, he⟩ := Option.isSome_iff_exists.mp h.1
  obtain ⟨hne, hcheck⟩ := h.2 e he
  simp only [firstClass?, Option.bind_eq_bind, Option.bind_eq_some_iff] at he
  obtain ⟨hosts, hhosts, new, hnew, c, hc, heq⟩ := he
  obtain rfl := Option.some.inj heq
  exact ⟨c, _,
    ⟨hblank, hne, hosts, new, 0, Traced.ok_of_toOption hhosts, Traced.ok_of_toOption hnew, hc,
    rfl⟩, hcheck⟩

theorem exists_rewritten_of_merge {units : List (Extraction (Option Details))} {report : Report}
    (hinto : EntersInto o host snippet c units) (h : (merge o host snippet).result = .ok report) :
    ∃ t, Rewritten Member.rules (Member.all host c) units t ∧ renderBody host c t <:+:
      report.text := by
  obtain ⟨hblank, hne, hosts, new, i, hhosts, hnew, hc, hunits⟩ := hinto
  simp only [merge, hhosts, hnew, hblank, Traced.result_bind, Traced.result_ofExcept,
    Traced.ok_bind, Bool.false_eq_true, if_false] at h
  obtain ⟨p, hp, h⟩ := Traced.exists_of_bind h
  have hhost : ∀ e ∈ Member.all host c, e.1.origin = .host := by
    intro e he
    obtain ⟨g, -, rfl⟩ := List.mem_map.mp he
    exact Member.origin_ofGroup host g.2 g.1
  obtain ⟨t, ht, hrewritten⟩ := exists_rewritten Member.rules_lawful
    (fun m a m' hstep => by rw [← Member.extract_eq]; exact enters_of_step hc hstep) hhost hp rfl
      (hunits ▸ hne)
  refine ⟨t, hunits ▸ hrewritten, ?_⟩
  simp only [isIdle_eq_false ht, Bool.false_eq_true, if_false] at h
  obtain rfl := Except.ok.inj h
  have hi : i < hosts.length := (List.getElem?_eq_some_iff.mp hc).1
  rw [← trimEnd_renderBody host c t]
  refine infix_foldl_addClass _ ?_ p.added
  rw [trimEnd_renderBody]
  refine infix_replaceFrom (r := ⟨c.body.start, c.body.stop, renderBody host c t⟩) ?_ 0
  exact List.mem_filterMap.mpr ⟨i, List.mem_range.mpr hi, by simp [hc, ht]⟩

end

end Script

namespace Suite

/-- The row in which what stands before a statement ends: the statement before it, or for the first
one the row of the class. -/
def ClassBody.above (c : ClassBody) (pre : Block) : Nat :=
  (pre.getLast?.map (·.place.stop)).getD c.place.line

namespace Member

def allFrom (s : Source) (c : ClassBody) (keepDirectives : Bool) :
    Nat → Nat → Block → Except Error (List (Member × Commands))
  | _, _, [] => .ok []
  | index, above, st :: rest => do
    let first ← ofPlaced s c keepDirectives index above st
    let later ← allFrom s c keepDirectives (index + 1) st.place.stop rest
    return first.toList ++ later

/-- The members of a class in order, namesakes included. -/
def all (s : Source) (c : ClassBody) (keepDirectives : Bool) :
    Except Error (List (Member × Commands)) :=
  if s.rows.misindented then .error .badIndentation
  else allFrom s c keepDirectives 0 c.place.line c.body

section

variable {s : Source} {c : ClassBody} {keepDirectives : Bool}

theorem extractFrom_eq (index above : Nat) (b : Block) (found : Extraction Details) :
    extractFrom s c keepDirectives index above b found =
      (allFrom s c keepDirectives index above b).map found.addAll := by
  induction b generalizing index above found with
  | nil => rfl
  | cons st rest ih =>
    rw [extractFrom, allFrom]
    cases ofPlaced s c keepDirectives index above st with
    | error e => rfl
    | ok first =>
      cases first with
      | none =>
        simp only [Traced.ok_bind, ih]
        cases allFrom s c keepDirectives (index + 1) st.place.stop rest <;> rfl
      | some e =>
        simp only [Traced.ok_bind, ih]
        cases allFrom s c keepDirectives (index + 1) st.place.stop rest <;> rfl

theorem extract_eq :
    extract s c keepDirectives = (all s c keepDirectives).map (Extraction.addAll {}) := by
  unfold extract all
  split
  · rfl
  · exact extractFrom_eq 0 c.place.line c.body {}

theorem of_ofStatement {index : Nat} {text : Text} {details : Details} {m : Member}
    (h : ofStatement index text details = .ok (some m)) :
    m.origin = .host ∧ m.text = text ∧ m.details = details ∧
      (isMethod m → ∃ isAsync ps returns ds body,
        m.details.node = .function isAsync m.name ps returns ds body) := by
  unfold ofStatement at h
  split at h
  · simp at h
  · next hnode =>
    obtain ⟨ds, -, h⟩ := Traced.exists_of_bind h
    obtain ⟨ps, -, h⟩ := Traced.exists_of_bind h
    obtain ⟨t, -, h⟩ := Traced.exists_of_bind h
    obtain rfl := Option.some.inj (Except.ok.inj h)
    exact ⟨rfl, rfl, rfl, fun _ => ⟨_, _, _, _, _, hnode⟩⟩
  · split at h
    · obtain rfl := Option.some.inj (Except.ok.inj h)
      exact ⟨rfl, rfl, rfl, fun hmethod => by contradiction⟩
    · obtain rfl := Option.some.inj (Except.ok.inj h)
      exact ⟨rfl, rfl, rfl, fun hmethod => by contradiction⟩

theorem mem_allFrom {index above : Nat} {b : Block} {members : List (Member × Commands)}
    (h : allFrom s c keepDirectives index above b = .ok members) {e : Member × Commands} :
    e ∈ members ↔ ∃ pre st post,
      b = pre ++ st :: post ∧ ofPlaced s c keepDirectives (index + pre.length)
      ((pre.getLast?.map (·.place.stop)).getD above) st = .ok (some e) := by
  induction b generalizing index above members with
  | nil =>
    obtain rfl := Except.ok.inj h
    simp
  | cons st rest ih =>
    obtain ⟨first, hfirst, h⟩ := Traced.exists_of_bind h
    obtain ⟨later, hlater, h⟩ := Traced.exists_of_bind h
    obtain rfl := Except.ok.inj h
    rw [List.mem_append, ih hlater, Option.mem_toList]
    constructor
    · rintro (hmem | ⟨pre, st', post, rfl, he⟩)
      · exact ⟨[], st, rest, rfl, hfirst.trans (congrArg Except.ok hmem)⟩
      · refine ⟨st :: pre, st', post, rfl, ?_⟩
        rw [List.length_cons, List.getLast?_cons]
        rw [Nat.add_assoc, Nat.add_comm 1] at he
        cases hlast : pre.getLast? <;> simpa [hlast] using he
    · rintro ⟨pre, st', post, heq, he⟩
      cases pre with
      | nil =>
        obtain ⟨rfl, rfl⟩ := List.cons.inj heq
        exact .inl (Except.ok.inj (hfirst.symm.trans he))
      | cons x pre =>
        obtain ⟨rfl, rfl⟩ := List.cons.inj heq
        refine .inr ⟨pre, st', post, rfl, ?_⟩
        rw [List.length_cons, List.getLast?_cons] at he
        rw [Nat.add_assoc, Nat.add_comm 1]
        cases hlast : pre.getLast? <;> simpa [hlast] using he

theorem mem_all {members : List (Member × Commands)} (h : all s c keepDirectives = .ok members)
    {e : Member × Commands} :
    e ∈ members ↔ ∃ pre st post, c.body = pre ++ st :: post ∧
      ofPlaced s c keepDirectives pre.length (c.above pre) st = .ok (some e) := by
  unfold all at h
  split at h
  · contradiction
  · rw [mem_allFrom h]
    simp only [Nat.zero_add]
    rfl

theorem extract_of_all {members : List (Member × Commands)}
    (h : all s c keepDirectives = .ok members) :
    extract s c keepDirectives = .ok (Extraction.addAll {} members) := by
  rw [extract_eq, h]
  rfl

theorem origin_all {ps : List (Member × Commands)} (h : all s c keepDirectives = .ok ps) :
    ∀ e ∈ ps, e.1.origin = .host := by
  intro e he
  obtain ⟨pre, st, post, -, hplaced⟩ := (mem_all h).mp he
  obtain ⟨m?, hm, hplaced⟩ := Traced.exists_of_bind hplaced
  obtain ⟨m, rfl, rfl⟩ := Option.map_eq_some_iff.mp (Except.ok.inj hplaced)
  have horigin := (of_ofStatement hm).1
  exact horigin

end

end Member

section

variable {o : Options} {host snippet : Source} {hosts : List ClassBody} {i : Nat} {c : ClassBody}

/-- What a statement of the snippet can do. -/
inductive Stepped (o : Options) (host snippet : Source) (hosts : List ClassBody)
    (p : ClassMerge Details) (st : Placed Stmt) : ClassMerge Details → Prop
  | skipped (hof : ClassBody.of? st = none) (ws : List Warning) :
      Stepped o host snippet hosts p st (p.warn ws)
  | homeless (n : ClassBody) (hof : ClassBody.of? st = some n)
      (hindex : hostIndex? o (hosts.map (·.name)) n.name = none)
      (hcontainer : o.isContainer n.name) :
      Stepped o host snippet hosts p st (p.warn [.noClass])
  | added (n : ClassBody) (hof : ClassBody.of? st = some n)
      (hindex : hostIndex? o (hosts.map (·.name)) n.name = none)
      (hcontainer : o.isContainer n.name = false) :
      Stepped o host snippet hosts p st (p.add (classText snippet n))
  | entered (n : ClassBody) (i : Nat) (old t : Pieces Details) (x : Extraction Details)
      (ws : List Warning) (hof : ClassBody.of? st = some n)
      (hindex : hostIndex? o (hosts.map (·.name)) n.name = some i)
      (hold : membersOf host hosts p i = .ok old) (hx : Member.extract snippet n false = .ok x)
      (ht : t = run Member.rules (o.placement.getD .moveToEnd) x.commandsOf old x.table.entries) :
      Stepped o host snippet hosts p st ((p.setTable i t).warn ws)

theorem stepped_of_step {p p' : ClassMerge Details} {st : Placed Stmt}
    (h : (step o host snippet hosts p st).result = .ok p') :
    Stepped o host snippet hosts p st p' := by
  simp only [step] at h
  cases hof : ClassBody.of? st with
  | none =>
    simp only [hof] at h
    split at h
    · obtain rfl := Except.ok.inj h
      exact .skipped hof _
    · obtain rfl := Except.ok.inj h
      simpa [warn] using Stepped.skipped (o := o) (p := p) hof []
  | some n =>
    simp only [hof] at h
    cases hindex : hostIndex? o (hosts.map (·.name)) n.name with
    | none =>
      simp only [hindex] at h
      split at h
      · next hcontainer =>
        obtain rfl := Except.ok.inj h
        exact .homeless n hof hindex hcontainer
      · next hcontainer =>
        obtain rfl := Except.ok.inj h
        exact .added n hof hindex (by simpa using hcontainer)
    | some i =>
      simp only [hindex, Traced.result_bind, Traced.result_ofExcept] at h
      obtain ⟨old, hold, h⟩ := Traced.exists_of_bind h
      obtain ⟨x, hx, h⟩ := Traced.exists_of_bind h
      obtain ⟨r, hr, h⟩ := Traced.exists_of_bind h
      obtain rfl := Except.ok.inj h
      exact .entered n i old r.table x r.warnings hof hindex hold hx (table_of_reconcile hr)

/-- What a statement of the snippet enters into the class of the host with that number. -/
def unit? (o : Options) (snippet : Source) (hosts : List ClassBody) (i : Nat) (st : Placed Stmt) :
    Option (Extraction Details) := do
  let n ← ClassBody.of? st
  if hostIndex? o (hosts.map (·.name)) n.name = some i then
    (Member.extract snippet n false).toOption else none

theorem membersOf_eq (hc : hosts[i]? = some c) {base : Extraction Details}
    (hbase : Member.extract host c true = .ok base) (p : ClassMerge Details) :
    membersOf host hosts p i = .ok (p.current i base.table) := by
  unfold membersOf current
  cases p.tables.lookup i with
  | none =>
    simp only [hc, hbase]
    rfl
  | some t => rfl

theorem enters_of_step (hc : hosts[i]? = some c) {base : Extraction Details}
    (hbase : Member.extract host c true = .ok base) {p p' : ClassMerge Details} {st : Placed Stmt}
    (h : (step o host snippet hosts p st).result = .ok p') :
    Enters Member.rules (o.placement.getD .moveToEnd) i base.table p p'
      (unit? o snippet hosts i st) := by
  unfold unit?
  cases stepped_of_step h with
  | skipped hof ws =>
    rw [hof]
    exact .elsewhere rfl
  | homeless n hof hindex hcontainer =>
    simp only [hof, hindex, Option.bind_eq_bind, Option.bind_some]
    exact .elsewhere rfl
  | added n hof hindex hcontainer =>
    simp only [hof, hindex, Option.bind_eq_bind, Option.bind_some]
    exact .elsewhere rfl
  | entered n j old t x ws hof hindex hold hx ht =>
    simp only [hof, hindex, hx, Option.bind_eq_bind, Option.bind_some]
    refine enters_setTable ht ?_ ws
    rintro rfl
    rw [membersOf_eq hc hbase] at hold
    exact (Except.ok.inj hold).symm

theorem isBlankText_opening (s : Source) (offsets : Array Nat) (c : ClassBody) :
    (opening s offsets c).2.2.isBlankText := by
  have hmargin : ∀ line, (margin line).isBlankText := fun line =>
    List.all_eq_true.mpr fun ch hch => (List.mem_takeWhile_imp hch)
  simp only [opening]
  split
  · rw [Text.isBlankText, List.all_append, Bool.and_eq_true]
    exact ⟨hmargin _, by decide⟩
  · exact hmargin _

/-- The lines of a member at an indentation, those it was read from where the indentation is its
own. -/
def Member.linesAt (indent : Text) (m : Member) : Text :=
  if m.details.indent == indent then m.details.source
  else Indentation.indent m.text indent m.details.verbatim

theorem memberText_of_host {m : Member} (hm : m.origin = .host) (indent : Text) :
    memberText indent m = .ok (m.linesAt indent) := by
  rw [memberText, Member.linesAt, if_neg (by simp [hm])]
  split <;> rfl

theorem infix_renderBody {s : Source} {offsets : Array Nat} {t : Pieces Details}
    {body : Replacement} (h : renderBody s offsets c t = .ok body) {m : Member} (hm : m ∈ t.values)
    (hhost : m.origin = .host) :
    m.linesAt (opening s offsets c).2.2 <:+: body.text := by
  obtain ⟨texts, htexts, h⟩ := Traced.exists_of_bind h
  obtain rfl := Except.ok.inj h
  obtain ⟨u, hu, heq⟩ := Traced.exists_mem_of_mapM htexts hm
  obtain rfl := Except.ok.inj ((memberText_of_host hhost _).symm.trans heq)
  have hne : texts.isEmpty = false := List.isEmpty_eq_false_iff.mpr (List.ne_nil_of_mem hu)
  simp only [hne, Bool.false_eq_true, if_false]
  exact (Text.infix_join _ hu).trans (List.suffix_append _ _).isInfix

/-- The snippet enters `units` into the class `c` of the host, which has `members`. -/
structure EntersInto (o : Options) (host snippet : Text) (c : ClassBody)
    (members : List (Member × Commands)) (units : List (Extraction Details)) : Prop where
  notBlank : snippet.isBlankText = false
  notEmpty : units ≠ []
  members_eq : Member.all (Source.ofText host) c true = .ok members
  of_classes : ∃ tree new i, read host = .ok tree ∧ read (wrap o snippet) = .ok new ∧
    (classes tree)[i]? = some c ∧
      units = new.filterMap (unit? o (Source.ofText (wrap o snippet)) (classes tree) i)

def firstClass? (host snippet : Text) :
    Option (ClassBody × List (Member × Commands) × List (Extraction Details)) := do
  let tree ← (read host).toOption
  let new ← (read (wrap {} snippet)).toOption
  let c ← (classes tree)[0]?
  let members ← (Member.all (.ofText host) c true).toOption
  return (c, members, new.filterMap (unit? {} (.ofText (wrap {} snippet)) (classes tree) 0))

theorem exists_entersInto (host snippet : Text)
    {P : ClassBody → List (Member × Commands) → List (Extraction Details) → Prop}
    (hblank : snippet.isBlankText = false)
    (h : (firstClass? host snippet).isSome ∧ ∀ e ∈ firstClass? host snippet,
        e.2.2 ≠ [] ∧ P e.1 e.2.1 e.2.2) :
    ∃ c members units, EntersInto {} host snippet c members units ∧ P c members units := by
  obtain ⟨e, he⟩ := Option.isSome_iff_exists.mp h.1
  obtain ⟨hne, hcheck⟩ := h.2 e he
  simp only [firstClass?, Option.bind_eq_bind, Option.bind_eq_some_iff] at he
  obtain ⟨tree, htree, new, hnew, c, hc, members, hmembers, heq⟩ := he
  obtain rfl := Option.some.inj heq
  exact ⟨c, members, _,
    ⟨hblank, hne, Traced.ok_of_toOption hmembers, tree, new, 0, Traced.ok_of_toOption htree,
      Traced.ok_of_toOption hnew, hc, rfl⟩, hcheck⟩

theorem exists_rewritten_of_merge {host snippet : Text} {members : List (Member × Commands)}
    {units : List (Extraction Details)} {report : Report}
    (hinto : EntersInto o host snippet c members units)
    (h : (merge o host snippet).result = .ok report) :
    ∃ t body, Rewritten Member.rules members units t ∧
      renderBody (Source.ofText host) (Text.lineOffsets Text.isBreak host).toArray c t = .ok body ∧
      body.text.trimEnd <:+: report.text := by
  obtain ⟨hblank, hne, hmembers, tree, new, i, htree, hnew, hc, hunits⟩ := hinto
  simp only [merge, htree, hnew, hblank, Traced.result_bind, Traced.result_ofExcept, Traced.ok_bind,
    Bool.false_eq_true, if_false] at h
  obtain ⟨p, hp, h⟩ := Traced.exists_of_bind h
  have hbase := Member.extract_of_all hmembers
  obtain ⟨t, ht, hrewritten⟩ := exists_rewritten Member.rules_lawful
    (fun m a m' hstep => enters_of_step hc hbase hstep) (Member.origin_all hmembers) hp rfl
      (hunits ▸ hne)
  simp only [isIdle_eq_false ht, Bool.false_eq_true, if_false, Traced.result_bind,
    Traced.result_ofExcept] at h
  obtain ⟨rs, hrs, h⟩ := Traced.exists_of_bind h
  obtain rfl := Except.ok.inj h
  have hi : i < (classes tree).length := (List.getElem?_eq_some_iff.mp hc).1
  obtain ⟨body, hbody, heq⟩ := Traced.exists_mem_of_mapM hrs (a := (c, t))
    (List.mem_filterMap.mpr ⟨i, List.mem_range.mpr hi, by simp [hc, ht]⟩)
  refine ⟨t, body, hunits ▸ hrewritten, heq, ?_⟩
  obtain ⟨_, htrim, -⟩ := Text.exists_dropLastWhile_append Text.isBlank body.text
  have hinfix : body.text.trimEnd <:+: replaceFrom host 0 rs :=
    (List.IsPrefix.isInfix ⟨_, htrim.symm⟩).trans (infix_replaceFrom hbody 0)
  exact infix_foldl_addClass _ hinfix p.added

end

end Suite

/-- A merge into a class writes its body from a table. Of the members the class had, the table holds
exactly those that have no namesake behind them in the class and that nothing in the snippet
touches, by its name or by the name it ends up with; and each of these stands in the new body with
its own lines. -/
theorem merge_keeps_lasting_members (o : Options) (host snippet : Text) (report : Report) :
    (∀ c units, Script.EntersInto o host snippet c units → (merge .script o host snippet).result =
      .ok report →
      ∃ t, Rewritten Script.Member.rules (Script.Member.all host c) units t ∧
        Script.renderBody host c t <:+: report.text ∧
        ∀ m ∈ t.values, m.origin = .host → ∃ indent : Text, indent.isBlankText ∧
          Indentation.indent m.text indent [] <:+: Script.renderBody host c t) ∧
    ∀ c members units, Suite.EntersInto o host snippet c members units →
      (merge .suite o host snippet).result = .ok report →
      ∃ t body, Rewritten Suite.Member.rules members units t ∧
        Suite.renderBody (.ofText host) (Text.lineOffsets Text.isBreak host).toArray c t =
          .ok body ∧
        body.text.trimEnd <:+: report.text ∧
        ∀ m ∈ t.values, m.origin = .host → ∃ indent : Text, indent.isBlankText ∧
          Suite.Member.linesAt indent m <:+: body.text := by
  constructor
  · intro c units hinto h
    obtain ⟨t, hrewritten, hbody⟩ := Script.exists_rewritten_of_merge hinto (mergeBy_of_merge h)
    refine ⟨t, hrewritten, hbody, fun m hm hhost => ?_⟩
    refine ⟨Script.memberIndent host c, Script.isBlankText_memberIndent host c, ?_⟩
    rw [← Script.Member.render_of_host hhost]
    exact Script.infix_renderBody host c hm
  · intro c members units hinto h
    obtain ⟨t, body, hrewritten, hrender, hbody⟩ :=
      Suite.exists_rewritten_of_merge hinto (mergeBy_of_merge h)
    refine ⟨t, body, hrewritten, hrender, hbody, fun m hm hhost => ?_⟩
    exact ⟨_, Suite.isBlankText_opening _ _ c, Suite.infix_renderBody hrender hm hhost⟩

theorem merge_keeps_lasting_members_accessors :
    (∃ c units report, ∃ m : Script.Member, ∃ indent : Text,
      Script.EntersInto {} "class A \x7b\n  get x() \x7b\x7d\n  set x(v) \x7b\x7d\n\x7d\n".toList
        "class A \x7b\n  y() \x7b\x7d\n\x7d\n".toList c units ∧
      (merge .script {} "class A \x7b\n  get x() \x7b\x7d\n  set x(v) \x7b\x7d\n\x7d\n".toList
        "class A \x7b\n  y() \x7b\x7d\n\x7d\n".toList).result = .ok report ∧
      m.text = "set x(v) \x7b\x7d".toList ∧ indent.isBlankText ∧
      Indentation.indent m.text indent [] <:+: report.text) ∧
    ∃ c members units report, ∃ body : Replacement, ∃ m : Suite.Member, ∃ indent : Text,
      Suite.EntersInto {}
        "class A:\n  @property\n  def x(self): pass\n  @x.setter\n  def x(self, v): pass\n".toList
        "class A:\n  def y(self): pass\n".toList c members units ∧
      (merge .suite {}
        "class A:\n  @property\n  def x(self): pass\n  @x.setter\n  def x(self, v): pass\n".toList
        "class A:\n  def y(self): pass\n".toList).result = .ok report ∧
      m.text = "@x.setter\ndef x(self, v): pass".toList ∧ indent.isBlankText ∧
      Suite.Member.linesAt indent m <:+: body.text ∧ body.text.trimEnd <:+: report.text := by
  constructor
  · let host : Text := "class A \x7b\n  get x() \x7b\x7d\n  set x(v) \x7b\x7d\n\x7d\n".toList
    let snippet : Text := "class A \x7b\n  y() \x7b\x7d\n\x7d\n".toList
    obtain ⟨report, hreport⟩ :=
      Traced.exists_of_isOk (x := (merge .script {} host snippet).result) (by decide +kernel)
    obtain ⟨c, units, hinto, huntouched, hlast⟩ := Script.exists_entersInto host snippet
      (P := fun c units =>
      (∀ u ∈ units, u.touches Script.Member.rules ['x'] = false) ∧
        (Script.Member.all host c).getLast?.map (fun e => (e.1.name, e.1.text)) =
          some (['x'], "set x(v) \x7b\x7d".toList)) (by decide) (by decide +kernel)
    obtain ⟨e, he, htext⟩ := Option.map_eq_some_iff.mp hlast
    obtain ⟨hname, htext⟩ := Prod.mk.inj htext
    obtain ⟨t, hrewritten, hbody, hkept⟩ :=
      (merge_keeps_lasting_members {} host snippet report).1 _ _ hinto hreport
    have hhost := hrewritten.host e (List.mem_of_getLast? he)
    have hm : e.1 ∈ t.values := (hrewritten.mem_iff e.1 hhost).mpr
      ⟨Extraction.lasting_of_getLast? he, by rw [hname]; exact huntouched⟩
    obtain ⟨indent, hblank, hlines⟩ := hkept e.1 hm hhost
    exact ⟨_, _, report, e.1, indent, hinto, hreport, htext, hblank, hlines.trans hbody⟩
  · let host : Text :=
      "class A:\n  @property\n  def x(self): pass\n  @x.setter\n  def x(self, v): pass\n".toList
    let snippet : Text := "class A:\n  def y(self): pass\n".toList
    obtain ⟨report, hreport⟩ :=
      Traced.exists_of_isOk (x := (merge .suite {} host snippet).result) (by decide +kernel)
    obtain ⟨c, members, units, hinto, huntouched, hlast⟩ := Suite.exists_entersInto host snippet
      (P := fun _ members units => (∀ u ∈ units, u.touches Suite.Member.rules ['x'] = false) ∧
        members.getLast?.map (fun e => (e.1.name, e.1.text)) =
          some (['x'], "@x.setter\ndef x(self, v): pass".toList)) (by decide) (by decide +kernel)
    obtain ⟨e, he, htext⟩ := Option.map_eq_some_iff.mp hlast
    obtain ⟨hname, htext⟩ := Prod.mk.inj htext
    obtain ⟨t, body, hrewritten, -, hbody, hkept⟩ :=
      (merge_keeps_lasting_members {} host snippet report).2 _ _ _ hinto hreport
    have hhost := hrewritten.host e (List.mem_of_getLast? he)
    have hm : e.1 ∈ t.values := (hrewritten.mem_iff e.1 hhost).mpr
      ⟨Extraction.lasting_of_getLast? he, by rw [hname]; exact huntouched⟩
    obtain ⟨indent, hblank, hlines⟩ := hkept e.1 hm hhost
    exact ⟨_, members, _, report, body, e.1, indent, hinto, hreport, htext, hblank, hlines, hbody⟩

/-- The first of two accessors is lost, though the snippet does not name it. -/
theorem merge_drops_first_accessor :
    (merge .script {} "class A \x7b\n  get x() \x7b\x7d\n  set x(v) \x7b\x7d\n\x7d\n".toList
        "class A \x7b\n  y() \x7b\x7d\n\x7d\n".toList).result.toOption.map (·.text) =
      some "class A \x7b\n  set x(v) \x7b\x7d\n  y() \x7b\x7d\n\x7d\n".toList ∧
    (merge .suite {}
        "class A:\n  @property\n  def x(self): pass\n  @x.setter\n  def x(self, v): pass\n".toList
        "class A:\n  def y(self): pass\n".toList).result.toOption.map (·.text) =
      some "class A:\n  @x.setter\n  def x(self, v): pass\n  def y(self): pass\n".toList := by
  decide +kernel

end Graft
