import Graft.Proofs.Suite.Comments

set_option autoImplicit false

/-!
Methods of Python classes made private. A name is hidden by two low lines in front, in place of
those it starts with, and the method is then printed with the new name. This gives a private name
unless the old name ends in two low lines: then the new one is special.
-/

namespace Graft

namespace Suite

section

variable {α : Type} {s a r : List α} {c : α}

theorem prefix_append_cons_iff (hc : c ∉ s) : s <+: a ++ c :: r ↔ s <+: a := by
  refine ⟨fun h => ?_, fun h => h.trans (List.prefix_append a _)⟩
  rcases Nat.lt_or_ge a.length s.length with hlt | hle
  · have hfirst : a ++ [c] <+: s := by
      refine List.prefix_of_prefix_length_le ⟨r, by simp⟩ h ?_
      rw [List.length_append]
      exact hlt
    exact absurd (hfirst.subset (by simp)) hc
  · exact List.prefix_of_prefix_length_le h (List.prefix_append a _) hle

theorem suffix_append_cons_iff (hc : c ∉ s) : s <:+ a ++ c :: r ↔ s <:+ r := by
  rw [← List.reverse_prefix, ← List.reverse_prefix, List.reverse_append, List.reverse_cons,
    List.append_assoc, List.singleton_append]
  exact prefix_append_cons_iff (by simpa using hc)

end

namespace Member

def lows : Text := ['_', '_']

def bare (n : Text) : Text := n.dropWhile (· == '_')

/-- The name that hides a method. -/
def hidden (n : Text) : Text := if n.startsWith lows then n else lows ++ bare n

section

variable {n : Text}

theorem exists_bare_eq (h : n.all (· == '_') = false) : ∃ c r, c ≠ '_' ∧ bare n = c :: r := by
  obtain ⟨c, hc, hlow⟩ := List.all_eq_false.mp h
  cases hbare : bare n with
  | nil => exact absurd (List.dropWhile_eq_nil_iff.mp hbare c hc) hlow
  | cons c r =>
    refine ⟨c, r, ?_, rfl⟩
    have hhead := List.head?_dropWhile_not (p := (· == '_')) n
    unfold bare at hbare
    rw [hbare] at hhead
    simpa using hhead

theorem exists_eq_append_bare (n : Text) : ∃ a : Text, n = a ++ bare n :=
  ⟨n.takeWhile (· == '_'), List.takeWhile_append_dropWhile.symm⟩

theorem exists_hidden_eq (n : Text) : ∃ a : Text, hidden n = a ++ bare n := by
  unfold hidden
  split
  · exact exists_eq_append_bare n
  · exact ⟨lows, rfl⟩

theorem prefix_hidden (n : Text) : lows <+: hidden n := by
  unfold hidden
  split
  · next h => exact List.isPrefixOf_iff_prefix.mp h
  · exact List.prefix_append _ _

theorem bare_hidden (n : Text) : bare (hidden n) = bare n := by
  unfold hidden
  split
  · rfl
  · exact List.dropWhile_idempotent (· == '_') n

section

variable (h : n.all (· == '_') = false)

include h

theorem all_hidden : (hidden n).all (· == '_') = false := by
  obtain ⟨c, r, hc, hbare⟩ := exists_bare_eq h
  obtain ⟨a, ha⟩ := exists_hidden_eq n
  rw [ha, hbare]
  exact List.all_eq_false.mpr ⟨c, by simp, by simpa using hc⟩

theorem suffix_hidden_iff : lows <:+ hidden n ↔ lows <:+ n := by
  obtain ⟨c, r, hc, hbare⟩ := exists_bare_eq h
  obtain ⟨a, ha⟩ := exists_hidden_eq n
  obtain ⟨b, hb⟩ := exists_eq_append_bare n
  have hlows : c ∉ lows := by simpa [lows] using hc
  rw [ha, hbare, suffix_append_cons_iff hlows]
  conv_rhs => rw [hb, hbare, suffix_append_cons_iff hlows]

theorem isSpecial_iff : isSpecial n ↔ lows <+: n ∧ lows <:+ n := by
  have hparts : isSpecial n ↔ (4 < n.length ∧ lows <+: n) ∧ lows <:+ n := by
    simp [isSpecial, lows, Text.startsWith, Text.endsWith]
  rw [hparts]
  refine ⟨fun hspecial => ⟨hspecial.1.2, hspecial.2⟩, fun hlows => ⟨⟨?_, hlows.1⟩, hlows.2⟩⟩
  -- A sign that is no low line stands between those in front and those at the end.
  obtain ⟨c, r, hc, hbare⟩ := exists_bare_eq h
  obtain ⟨a, ha⟩ := exists_eq_append_bare n
  have hnot : c ∉ lows := by simpa [lows] using hc
  rw [ha, hbare, prefix_append_cons_iff hnot, suffix_append_cons_iff hnot] at hlows
  have hfront : 2 ≤ a.length := hlows.1.length_le
  have hback : 2 ≤ r.length := hlows.2.length_le
  rw [ha, hbare, List.length_append, List.length_cons]
  omega

theorem isSpecial_hidden_iff : isSpecial (hidden n) ↔ lows <:+ n := by
  rw [isSpecial_iff (all_hidden h), suffix_hidden_iff h]
  exact and_iff_right (prefix_hidden n)

end

end

/-- A method whose tree is a definition of its own name. -/
structure IsDefinition (m : Member) : Prop where
  isMethod : isMethod m
  node_eq : ∃ isAsync ps returns ds body,
    m.details.node = .function isAsync m.name ps returns ds body

namespace IsDefinition

variable {m : Member}

theorem renamed (h : m.IsDefinition) (n : Text) : (renamed m n).IsDefinition := by
  obtain ⟨isAsync, ps, returns, ds, body, hnode⟩ := h.node_eq
  refine ⟨h.isMethod, isAsync, ps, returns, ds, body, ?_⟩
  simp [Member.renamed, change, hnode, withName]

theorem change (h : m.IsDefinition) {f : Stmt → Stmt} {m' : Member} (hkind : m'.kind = m.kind)
    (hname : m'.name = m.name) (hdetails : m'.details = m.details)
    (hf : ∀ isAsync n ps returns ds body, ∃ isAsync' ps' returns' ds' body',
      f (.function isAsync n ps returns ds body) = .function isAsync' n ps' returns' ds' body') :
    (change m' f).IsDefinition := by
  obtain ⟨isAsync, ps, returns, ds, body, hnode⟩ := h.node_eq
  obtain ⟨isAsync', ps', returns', ds', body', heq⟩ := hf isAsync m.name ps returns ds body
  refine ⟨?_, isAsync', ps', returns', ds', body', ?_⟩
  · have hmethod := h.isMethod
    unfold Member.isMethod at hmethod ⊢
    exact hkind ▸ hmethod
  · rw [Member.change, hdetails, hnode, heq]
    exact hname ▸ rfl

end IsDefinition

theorem makePrivate_cases {m m' : Member} (h : makePrivate m = some m') :
    isSpecial m.name = false ∧ m.name.all (· == '_') = false ∧
      (m.name.startsWith lows ∧ m' = m ∨ ¬m.name.startsWith lows ∧
        m' = renamed m (hidden m.name)) := by
  unfold makePrivate at h
  split at h
  · contradiction
  · next hno =>
    simp only [Bool.or_eq_true, not_or, Bool.not_eq_true] at hno
    refine ⟨hno.1.2, hno.2, ?_⟩
    split at h
    · next hlows => exact .inl ⟨hlows, (Option.some.inj h).symm⟩
    · next hno =>
      have hlows : ¬m.name.startsWith lows := hno
      refine .inr ⟨hlows, ?_⟩
      rw [hidden, if_neg hlows]
      exact (Option.some.inj h).symm

theorem isDefinition_of_extract {s : Source} {c : ClassBody} {keepDirectives : Bool}
    {e : Extraction Details} (h : extract s c keepDirectives = .ok e) {m : Member}
    (hm : m ∈ e.table.values) (hmethod : isMethod m) :
    m.IsDefinition := by
  rw [extract_eq] at h
  obtain ⟨members, hmembers, rfl⟩ := Traced.exists_of_map h
  obtain ⟨pre, commands, post, hsplit, -⟩ := Extraction.mem_values_addAll.mp hm
  obtain ⟨before, st, after, -, hplaced⟩ :=
    (mem_all hmembers).mp (show (m, commands) ∈ members by simp [hsplit])
  obtain ⟨m?, hm?, hplaced⟩ := Traced.exists_of_bind hplaced
  obtain ⟨q, rfl, heq⟩ := Option.map_eq_some_iff.mp (Except.ok.inj hplaced)
  obtain ⟨rfl, -⟩ := Prod.mk.inj heq
  have hdefinition := (of_ofStatement hm?).2.2.2
  exact ⟨hmethod, hdefinition hmethod⟩

theorem keeps_isDefinition : Reconcile.Keeps rules IsDefinition where
  rename m n m' hm h := by
    simp only [rules, rename] at h
    split at h
    · exact Option.some.inj h ▸ hm.renamed n
    · contradiction
  access m v m' hm h := by
    simp only [rules, access] at h
    split at h
    · obtain ⟨-, -, ⟨-, rfl⟩ | ⟨-, rfl⟩⟩ := makePrivate_cases h
      · exact hm
      · exact hm.renamed _
    · contradiction
  decorate m ds m' hm h := by
    simp only [rules, decorate_eq] at h
    split at h
    · obtain ⟨es, -, rfl⟩ := Option.map_eq_some_iff.mp h
      exact hm.change rfl rfl rfl fun _ _ _ _ _ _ => ⟨_, _, _, _, _, rfl⟩
    · contradiction
  setParameters m ps m' hm h := by
    simp only [rules, setParameters_eq] at h
    split at h
    · obtain ⟨params, -, rfl⟩ := Option.map_eq_some_iff.mp h
      exact hm.change rfl rfl rfl fun _ _ _ _ _ _ => ⟨_, _, _, _, _, rfl⟩
    · contradiction
  extend m c hm := by
    have hrecord : (record m c).IsDefinition := ⟨hm.isMethod, hm.node_eq⟩
    simp only [rules, extend]
    split
    · exact hrecord
    · split
      · exact hrecord.change rfl rfl rfl fun _ _ _ _ _ _ => ⟨_, _, _, _, _, rfl⟩
      · exact hrecord

end Member

namespace Print

def word (isAsync : Bool) : Text := (if isAsync then "async def " else "def ").toList

/-- The lines of a printed definition before its head, and what its head and the lines behind have
after the name. -/
def around? (ps : Params) (returns : Option Expr) (ds : List Expr) (body : Block) :
    Option (Text × Text) := do
  let ps ← params false ps
  let returns ← plainMaybe " -> ".toList returns
  let ds ← decoratorLines ds
  let body ← documented body
  return (ds.flatMap (· ++ ['\n']), Text.unlines ((ps ++ [')'] ++ returns ++ [':']) :: body))

def define (isAsync : Bool) (n : Text) (around : Text × Text) : Text :=
  around.1 ++ (word isAsync ++ n ++ ['('] ++ around.2)

end Print

theorem print_function (isAsync : Bool) (n : Text) (ps : Params) (returns : Option Expr)
    (ds : List Expr) (body : Block) :
    (Stmt.function isAsync n ps returns ds body).print? =
      (Print.around? ps returns ds body).map (Print.define isAsync n) := by
  simp only [Stmt.print?, Print.stmt, Print.around?]
  cases Print.params false ps with
  | none => rfl
  | some ps =>
    cases Print.plainMaybe " -> ".toList returns with
    | none => rfl
    | some returns =>
      cases Print.decoratorLines ds with
      | none => rfl
      | some ds =>
        cases Print.documented body with
        | none => rfl
        | some body =>
          have hhead : (if isAsync then "async def " else "def ").toList ++ n ++
              '(' :: (ps ++ [')']) ++ returns ++ [':'] =
              (Print.word isAsync ++ n ++ ['(']) ++ (ps ++ [')'] ++ returns ++ [':']) := by
            simp [Print.word]
          refine congrArg some ?_
          rw [hhead, Text.unlines_append_cons, Text.unlines_append]
          rfl

theorem opensLine_flatMap (ls : List Text) : Text.OpensLine (ls.flatMap (· ++ ['\n'])) := by
  rcases List.eq_nil_or_concat ls with rfl | ⟨ls, l, rfl⟩
  · exact .inl rfl
  · exact .inr ⟨ls.flatMap (· ++ ['\n']) ++ l, by simp⟩

theorem opensLine_of_around {ps : Params} {returns : Option Expr} {ds : List Expr} {body : Block}
    {around : Text × Text} (h : Print.around? ps returns ds body = some around) :
    around.1.OpensLine := by
  simp only [Print.around?, Option.bind_eq_bind, Option.bind_eq_some_iff] at h
  obtain ⟨p, -, q, -, lines, -, ls, -, h⟩ := h
  obtain rfl := Option.some.inj h
  exact opensLine_flatMap lines

/-- A line of the text starts a definition of the name. -/
def Heads (t n : Text) : Prop :=
  ∃ (isAsync : Bool) (rest : Text), t.Shows (Print.word isAsync ++ n ++ ['('] ++ rest)

theorem heads_define {around : Text × Text} (haround : around.1.OpensLine) (isAsync : Bool)
    {n : Text} (hn : '\n' ∉ n) :
    Heads (Print.define isAsync n around) n := by
  obtain ⟨first, rest, hsplit⟩ := Text.exists_splitOn_cons around.2
  have hfeed : '\n' ∉ Print.word isAsync ++ n ++ ['('] := by
    cases isAsync <;> simp [Print.word, hn]
  refine ⟨isAsync, first, Text.Shows.opened haround ⟨[], [], rfl, rfl, ?_⟩⟩
  rw [Text.splitOn_append hfeed hsplit]
  simp

theorem heads_indent {t n by_ : Text} (h : Heads t n) (hblank : by_.isBlankText)
    (hfeed : '\n' ∉ by_) (verbatim : List Nat) : Heads (Indentation.indent t by_ verbatim) n := by
  obtain ⟨isAsync, rest, hshows⟩ := h
  refine ⟨isAsync, rest, ?_⟩
  cases isAsync with
  | false => exact Indentation.shows_indent (c := 'd') (by decide) hblank hfeed verbatim hshows
  | true => exact Indentation.shows_indent (c := 'a') (by decide) hblank hfeed verbatim hshows

theorem heads_memberText {m : Member} (hm : m.IsDefinition) (hname : '\n' ∉ m.name)
    (horigin : m.origin = .snippet) (hmodified : m.details.modified) {indent t : Text}
    (hblank : indent.isBlankText) (hfeed : '\n' ∉ indent) (h : memberText indent m = .ok t) :
    Heads t m.name := by
  obtain ⟨isAsync, ps, returns, ds, body, hnode⟩ := hm.node_eq
  unfold memberText at h
  rw [if_pos (by simp [horigin, hmodified]), hnode, print_function] at h
  obtain ⟨printed, hprinted, h⟩ := Traced.exists_of_bind h
  obtain rfl := Except.ok.inj h
  refine heads_indent ?_ hblank hfeed _
  cases haround : Print.around? ps returns ds body with
  | none => simp [haround, Member.require] at hprinted
  | some around =>
    obtain rfl : Print.define isAsync m.name around = printed := by
      simpa [haround, Member.require] using hprinted
    obtain ⟨isAsync', rest, hshows⟩ := heads_define (opensLine_of_around haround) isAsync hname
    rw [Text.unlines_concat]
    exact ⟨isAsync', rest, hshows.opened (opensLine_flatMap m.comments)⟩

theorem newline_not_mem_of_isIdentifier {n : Text} (h : Text.isIdentifier n) : '\n' ∉ n := by
  cases n with
  | nil => exact List.not_mem_nil
  | cons c n =>
    obtain ⟨hstart, hrest⟩ := Bool.and_eq_true_iff.mp h
    rw [List.mem_cons, not_or]
    refine ⟨?_, fun hin => ?_⟩
    · rintro rfl
      exact absurd hstart (by decide)
    · exact absurd (List.all_eq_true.mp hrest _ hin) (by decide)

namespace Member

open Reconcile

/-- What a method and the one it becomes when it is made private have to do with each other. -/
structure Privatised (m m' : Member) : Prop where
  marked : lows <+: m'.name
  bare_eq : bare m'.name = bare m.name
  definition : m'.IsDefinition
  /-- Nothing changes, or the tree is printed. -/
  printed : m' = m ∨ m'.details.modified
  /-- The trees are printed alike but for the name. -/
  print_eq : ∃ isAsync around?,
    m.details.node.print? = Option.map (Print.define isAsync m.name) around? ∧
    m'.details.node.print? = Option.map (Print.define isAsync m'.name) around?
  heads : m'.origin = .snippet → m'.details.modified → ∀ indent t : Text,
    indent.isBlankText → '\n' ∉ indent →
    memberText indent m' = .ok t → Heads t m'.name

theorem name_of_makePrivate {m m' : Member} (h : makePrivate m = some m') :
    m'.name = hidden m.name := by
  obtain ⟨-, -, ⟨hlows, rfl⟩ | ⟨-, rfl⟩⟩ := makePrivate_cases h
  · rw [hidden, if_pos hlows]
  · rfl

theorem makePrivate_eq_none_iff {m : Member} (hm : isMethod m) :
    makePrivate m = none ↔ isSpecial m.name ∨ m.name.all (· == '_') := by
  unfold makePrivate
  split
  · next h => simpa [hm] using h
  · next h =>
    split <;> simpa [hm] using h

theorem newline_not_mem_hidden {n : Text} (h : '\n' ∉ n) : '\n' ∉ hidden n := by
  unfold hidden
  split
  · exact h
  · have hbare : '\n' ∉ bare n := fun hin => h (List.dropWhile_subset _ hin)
    simp [lows, hbare]

theorem privatised_of_makePrivate {m m' : Member} (hm : m.IsDefinition) (hname : '\n' ∉ m.name)
    (h : makePrivate m = some m') : Privatised m m' := by
  have hhidden := name_of_makePrivate h
  have hcases := (makePrivate_cases h).2.2
  have hdefinition : m'.IsDefinition := by
    rcases hcases with ⟨-, rfl⟩ | ⟨-, rfl⟩
    · exact hm
    · exact hm.renamed _
  obtain ⟨isAsync, ps, returns, ds, body, hnode⟩ := hm.node_eq
  have hnode' : m'.details.node = .function isAsync m'.name ps returns ds body := by
    rcases hcases with ⟨-, rfl⟩ | ⟨-, rfl⟩
    · exact hnode
    · rw [renamed, change, hnode]
      rfl
  refine ⟨hhidden ▸ prefix_hidden m.name, hhidden ▸ bare_hidden m.name, hdefinition, ?_, ?_, ?_⟩
  · rcases hcases with ⟨-, rfl⟩ | ⟨-, rfl⟩
    · exact .inl rfl
    · exact .inr rfl
  · exact ⟨isAsync, Print.around? ps returns ds body, by rw [hnode, print_function],
      by rw [hnode', print_function]⟩
  · intro horigin hmodified indent t hblank hfeed ht
    exact heads_memberText hdefinition (hhidden ▸ newline_not_mem_hidden hname) horigin hmodified
      hblank hfeed ht

/-- A method made private has a name with two low lines in front in place of those it had, and is
printed with it. The name is a private one, and is left alone from then on, just if the old one does
not end in two low lines; else it is special, and cannot be made private. A method that cannot be
made private stays as it is. -/
theorem makePrivate_hides {m : Member} (hm : m.IsDefinition) (hname : Text.isIdentifier m.name) :
    (∀ m', makePrivate m = some m' → Privatised m m' ∧
      (¬lows <:+ m.name → ¬lows <:+ m'.name ∧ makePrivate m' = some m') ∧
      (lows <:+ m.name → isSpecial m'.name ∧ makePrivate m' = none)) ∧
    (makePrivate m = none ↔ isSpecial m.name ∨ m.name.all (· == '_')) ∧
    (makePrivate m = none → ∀ value warnings, Text.lower value.trim = "private".toList →
      attemptIf "access".toList (some value) rules.access (m, warnings) =
        (m, warnings ++ [.ignored "access".toList (.text value) m.kind m.name])) := by
  refine ⟨fun m' h => ?_, makePrivate_eq_none_iff hm.isMethod, fun h value warnings hvalue => ?_⟩
  · have hprivatised := privatised_of_makePrivate hm (newline_not_mem_of_isIdentifier hname) h
    have hhidden := name_of_makePrivate h
    obtain ⟨-, hall, -⟩ := makePrivate_cases h
    have hnone : makePrivate m' = none ↔ lows <:+ m.name := by
      rw [makePrivate_eq_none_iff hprivatised.definition.isMethod, hhidden, all_hidden hall,
        isSpecial_hidden_iff hall]
      simp
    refine ⟨hprivatised, fun hno => ⟨?_, ?_⟩, fun hlows => ⟨?_, hnone.mpr hlows⟩⟩
    · rwa [hhidden, suffix_hidden_iff hall]
    · obtain ⟨q, hq⟩ := Option.ne_none_iff_exists'.mp (mt hnone.mp hno)
      obtain ⟨-, -, ⟨-, rfl⟩ | ⟨hstart, -⟩⟩ := makePrivate_cases hq
      · exact hq
      · exact absurd (List.isPrefixOf_iff_prefix.mpr hprivatised.marked) hstart
    · rwa [hhidden, isSpecial_hidden_iff hall]
  · have haccess : rules.access m value = none := by
      simp only [rules, access, hvalue, beq_self_eq_true, if_true]
      exact h
    simp only [attemptIf, attempt, haccess]

/-- The member is one that a class of the source has. -/
def IsRead (source : Text) (m : Member) : Prop :=
  ∃ tree c e, read source = .ok tree ∧ c ∈ classes tree ∧ extract (.ofText source) c false = .ok e ∧
    m ∈ e.table.values

def first? (source : Text) : Option Member := do
  let tree ← (read source).toOption
  let c ← (classes tree)[0]?
  let e ← (extract (.ofText source) c false).toOption
  e.table.values.head?

theorem isRead_of_first {source : Text} {m : Member} (h : first? source = some m) :
    IsRead source m := by
  simp only [first?, Option.bind_eq_bind, Option.bind_eq_some_iff] at h
  obtain ⟨tree, htree, c, hc, e, he, hm⟩ := h
  exact ⟨tree, c, e, Traced.ok_of_toOption htree, List.mem_of_getElem? hc, Traced.ok_of_toOption he,
    List.mem_of_mem_head? hm⟩

theorem IsRead.isDefinition {source : Text} {m : Member} (h : IsRead source m)
    (hmethod : isMethod m) :
    m.IsDefinition := by
  obtain ⟨tree, c, e, -, -, he, hm⟩ := h
  exact isDefinition_of_extract he hm hmethod

theorem makePrivate_hides_renamed :
    ∃ m m' t, IsRead "class A:\n    def f(self):\n        pass\n".toList m ∧
      let q := (applyCommands rules (adopt none m) { rename := some "_g".toList }).1
      IsDefinition q ∧ Text.isIdentifier q.name ∧ makePrivate q = some m' ∧ m'.name = "__g".toList ∧
        makePrivate m' = some m' ∧ memberText "    ".toList m' = .ok t ∧ Heads t m'.name := by
  have hruns : (first? "class A:\n    def f(self):\n        pass\n".toList).any fun m =>
      let q := (applyCommands rules (adopt none m) { rename := some "_g".toList }).1
      isMethod m && Text.isIdentifier q.name && decide (¬lows <:+ q.name) &&
        (makePrivate q).any fun m' =>
        m'.name == "__g".toList && m'.origin == .snippet && m'.details.modified &&
          (memberText "    ".toList m').isOk := by
    decide +kernel
  obtain ⟨m, hfirst, hruns⟩ := (Option.any_eq_true _ _).mp hruns
  have hread := isRead_of_first hfirst
  obtain ⟨⟨⟨hmethod, hname⟩, hlows⟩, hruns⟩ := by
    simpa only [Bool.and_eq_true, decide_eq_true_eq] using hruns
  obtain ⟨m', hm', hruns⟩ := (Option.any_eq_true _ _).mp hruns
  obtain ⟨⟨⟨hname', horigin⟩, hmodified⟩, hwritten⟩ := by
    simpa only [Bool.and_eq_true, beq_iff_eq] using hruns
  obtain ⟨t, ht⟩ := Traced.exists_of_isOk hwritten
  have hm := hread.isDefinition hmethod
  have hq := applyCommands_keeps keeps_isDefinition (p := adopt none m) ⟨hm.isMethod, hm.node_eq⟩
    { rename := some "_g".toList }
  obtain ⟨hprivatised, hkept, -⟩ := (makePrivate_hides hq hname).1 m' hm'
  exact ⟨m, m', t, hread, hq, hname, hm', hname', (hkept hlows).2, ht,
    hprivatised.heads horigin hmodified _ t (by decide) (by decide) ht⟩

/-- The directive makes this method special instead, so that nothing can make it private any
more. -/
theorem makePrivate_makes_special :
    let host : Text := "class A:\n    def x__(self):\n        return 1\n".toList
    let snippet : Text := "# @access private\ndef x__(self):\n    return 1\n".toList
    (Graft.merge .suite {} host snippet).result.toOption.map
      (fun r => (r.text, r.warnings.isEmpty)) =
      some ("class A:\n    def __x__(self):\n        return 1\n".toList, true) ∧
    ∃ m m', IsRead (wrap {} snippet) m ∧ IsDefinition m ∧ Text.isIdentifier m.name ∧
      makePrivate m = some m' ∧
      lows <:+ m'.name ∧ makePrivate m' = none := by
  intro host snippet
  have hruns : (Graft.merge .suite {} host snippet).result.toOption.map
      (fun r => (r.text, r.warnings.isEmpty)) =
        some ("class A:\n    def __x__(self):\n        return 1\n".toList, true) ∧
      (first? (wrap {} snippet)).any fun m => isMethod m && Text.isIdentifier m.name &&
        (makePrivate m).any fun m' =>
          decide (lows <:+ m'.name) && (makePrivate m').isNone := by
    decide +kernel
  obtain ⟨hmerged, hruns⟩ := hruns
  obtain ⟨m, hfirst, hruns⟩ := (Option.any_eq_true _ _).mp hruns
  have hread := isRead_of_first hfirst
  obtain ⟨⟨hmethod, hname⟩, hruns⟩ := by simpa only [Bool.and_eq_true] using hruns
  obtain ⟨m', hm', hruns⟩ := (Option.any_eq_true _ _).mp hruns
  obtain ⟨hlows, hnone⟩ := by
    simpa only [Bool.and_eq_true, decide_eq_true_eq, Option.isNone_iff_eq_none] using hruns
  exact ⟨hmerged, m, m', hread, hread.isDefinition hmethod, hname, hm', hlows, hnone⟩

end Member

end Suite

end Graft
