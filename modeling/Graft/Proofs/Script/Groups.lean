import Graft.Proofs.Members
import Mathlib.Data.List.Pairwise

set_option autoImplicit false

/-!
The groups of a class body. They partition its children: every comment, decorator and member belongs
to one group, in the order of the body, and the groups stand one behind the other.
-/

namespace Graft.Script

def Child.span : Child → Span
  | comment s | decorator s | separator s => s
  | member m => m.span

def Child.isSeparator : Child → Bool
  | separator _ => true
  | _ => false

def Above.child : Above → Child
  | comment s => .comment s
  | decorator s => .decorator s

theorem Above.span_child (a : Above) : a.child.span = a.span := by
  cases a <;> rfl

/-- Children one behind the other, as a body has them. -/
structure Ordered (cs : List Child) : Prop where
  start_le : ∀ c ∈ cs, c.span.start ≤ c.span.stop
  apart : cs.Pairwise fun c d => c.span.stop ≤ d.span.start

instance (cs : List Child) : Decidable (Ordered cs) :=
  decidable_of_iff (_ ∧ _) ⟨fun h => ⟨h.1, h.2⟩, fun h => ⟨h.start_le, h.apart⟩⟩

variable {c d : Child} {cs ds : List Child}

theorem Ordered.sublist (h : Ordered cs) (hds : ds.Sublist cs) : Ordered ds :=
  ⟨fun c hc => h.start_le c (hds.subset hc), h.apart.sublist hds⟩

theorem Ordered.start_head_le (h : Ordered (d :: ds)) (hc : c ∈ d :: ds) :
    d.span.start ≤ c.span.start := by
  rcases List.mem_cons.mp hc with rfl | hc
  · exact Nat.le_refl _
  · have hd := h.start_le d List.mem_cons_self
    exact hd.trans ((List.pairwise_cons.mp h.apart).1 c hc)

theorem Ordered.stop_le_last (h : Ordered (ds ++ [d])) (hc : c ∈ ds ++ [d]) :
    c.span.stop ≤ d.span.stop := by
  have hd := h.start_le d (by simp)
  rcases List.mem_append.mp hc with hc | hc
  · exact ((List.pairwise_append.mp h.apart).2.2 c hc d (by simp)).trans hd
  · rw [List.mem_singleton.mp hc]

/-- A group with the comments that trail its member. -/
structure Holding where
  group : Group
  trailing : List Span := []

namespace Holding

variable {h : Holding}

def children (h : Holding) : List Child :=
  h.group.leading.map Above.child ++ h.group.member.toList.map .member ++ h.trailing.map .comment

/-- The group reaches from its first child over all of them; only a member is trailed by
comments. -/
structure Encloses (h : Holding) : Prop where
  full : h.group.leading ≠ [] ∨ h.group.member.isSome
  start_le : h.group.start ≤ h.group.stop
  within : ∀ c ∈ h.children, h.group.start ≤ c.span.start ∧ c.span.stop ≤ h.group.stop
  trails : h.trailing ≠ [] → h.group.member.isSome

theorem head_children (hfull : h.group.leading ≠ [] ∨ h.group.member.isSome) :
    ∃ d ds, h.children = d :: ds ∧ d.span.start = h.group.start := by
  obtain ⟨⟨leading, member, stop⟩, trailing⟩ := h
  cases leading with
  | cons a as => exact ⟨_, _, rfl, congrArg Span.start a.span_child⟩
  | nil =>
    cases member with
    | none => simp at hfull
    | some m => exact ⟨_, _, rfl, rfl⟩

theorem encloses_of_ordered {g : Group} (hfull : g.leading ≠ [] ∨ g.member.isSome)
    (hchildren : (Holding.mk g []).children = ds ++ [d]) (hordered : Ordered (ds ++ [d]))
    (hstop : g.stop = d.span.stop) : (Holding.mk g []).Encloses := by
  obtain ⟨e, es, hes, hstart⟩ := head_children (h := ⟨g, []⟩) hfull
  have hwithin : ∀ c ∈ ds ++ [d], g.start ≤ c.span.start ∧ c.span.stop ≤ g.stop := by
    intro c hc
    refine ⟨?_, hstop ▸ hordered.stop_le_last hc⟩
    rw [← hchildren, hes] at hordered hc
    exact hstart ▸ hordered.start_head_le hc
  obtain ⟨hfrom, hto⟩ := hwithin d (by simp)
  refine ⟨hfull, ?_, hchildren ▸ hwithin, fun hne => absurd rfl hne⟩
  exact hfrom.trans ((hordered.start_le d (by simp)).trans hto)

def extend (h : Holding) (ss : List Span) (stop : Nat) : Holding :=
  ⟨{ h.group with stop }, h.trailing ++ ss⟩

theorem children_extend (ss : List Span) (stop : Nat) :
    (h.extend ss stop).children = h.children ++ ss.map .comment := by
  simp [extend, children]

theorem Encloses.extend {ss : List Span} {stop : Nat} (he : h.Encloses) (hm : h.group.member.isSome)
    (hstop : h.group.stop ≤ stop) (hss : ∀ s ∈ ss, h.group.stop ≤ s.start ∧ s.stop ≤ stop) :
    (h.extend ss stop).Encloses := by
  refine ⟨he.full, he.start_le.trans hstop, ?_, fun _ => hm⟩
  rw [children_extend, List.forall_mem_append]
  constructor
  · exact fun c hc => ⟨(he.within c hc).1, (he.within c hc).2.trans hstop⟩
  · rw [List.forall_mem_map]
    exact fun s hs => ⟨he.start_le.trans (hss s hs).1, (hss s hs).2⟩

end Holding

/-- The children divided among groups, which stand one behind the other; the last one may lack a
member. -/
structure Partitions (cs : List Child) (hs : List Holding) : Prop where
  children : hs.flatMap (·.children) = cs
  encloses : ∀ h ∈ hs, h.Encloses
  apart : hs.Pairwise fun h k => h.group.stop ≤ k.group.start
  member : ∀ h ∈ hs.dropLast, h.group.member.isSome

def Precedes (last : Option Holding) (cs : List Child) : Prop :=
  ∀ h ∈ last, h.Encloses ∧ h.group.member.isSome ∧ ∀ c ∈ cs, h.group.stop ≤ c.span.start

variable {hs : List Holding} {last : Option Holding}

theorem Partitions.prepend (hp : Partitions cs hs) (hlast : Precedes last cs) :
    Partitions (last.toList.flatMap (·.children) ++ cs) (last.toList ++ hs) := by
  cases last with
  | none => exact hp
  | some h =>
    obtain ⟨hencloses, hmember, hbehind⟩ := hlast h rfl
    refine ⟨by simp [hp.children], ?_, ?_, ?_⟩
    · exact List.forall_mem_cons.mpr ⟨hencloses, hp.encloses⟩
    · refine List.pairwise_cons.mpr ⟨fun k hk => ?_, hp.apart⟩
      -- a group starts with one of its children
      obtain ⟨d, ds, hds, hstart⟩ := Holding.head_children (hp.encloses k hk).full
      have hd : d ∈ cs := hp.children ▸ List.mem_flatMap.mpr ⟨k, hk, by simp [hds]⟩
      exact hstart ▸ hbehind d hd
    · cases hs with
      | nil => simp
      | cons k hs => exact List.forall_mem_cons.mpr ⟨hmember, hp.member⟩

theorem partitions_singleton {h : Holding} (he : h.Encloses) : Partitions h.children [h] :=
  ⟨by simp, by simpa using he, by simp, by simp⟩

variable {source : Text} {pending : List Above}

/-- What is still to be read divides into groups, with the group read last and what waits for its
member. -/
def Divides (source : Text) (last : Option Holding) (pending : List Above)
    (cs : List Child) : Prop :=
  Ordered (pending.map Above.child ++ cs) → Precedes last (pending.map Above.child ++ cs) →
    ∃ hs, hs.map (·.group) = groupsFrom source (last.map (·.group)) pending cs ∧
      Partitions (last.toList.flatMap (·.children) ++
        (pending.map Above.child ++ cs.filter (!·.isSeparator))) hs

theorem divides_nil (source : Text) (last : Option Holding) (pending : List Above) :
    Divides source last pending [] := by
  intro hordered hlast
  rw [List.append_nil] at hordered hlast
  rw [List.filter_nil, List.append_nil]
  rcases List.eq_nil_or_concat pending with rfl | ⟨ps, p, rfl⟩
  · refine ⟨last.toList ++ [], ?_, Partitions.prepend ⟨rfl, by simp, by simp, by simp⟩ hlast⟩
    cases last <;> simp [groupsFrom]
  · rw [List.concat_eq_append, List.map_append, List.map_singleton] at *
    let dangling : Holding := ⟨⟨ps ++ [p], none, p.span.stop⟩, []⟩
    have hchildren : dangling.children = ps.map Above.child ++ [p.child] := by
      simp [dangling, Holding.children]
    have hencloses : dangling.Encloses :=
      Holding.encloses_of_ordered (.inl (by simp)) hchildren hordered (by rw [p.span_child])
    refine ⟨last.toList ++ [dangling], ?_,
      (hchildren ▸ partitions_singleton hencloses).prepend hlast⟩
    cases ps <;> cases last <;> simp [groupsFrom, dangling, List.getLast?_cons]

theorem Divides.member {m : MemberNode}
    (ih : Divides source (some ⟨⟨pending, some m, m.span.stop⟩, []⟩) [] cs) :
    Divides source last pending (.member m :: cs) := by
  intro hordered hlast
  let next : Holding := ⟨⟨pending, some m, m.span.stop⟩, []⟩
  have hchildren : next.children = pending.map Above.child ++ [.member m] := by
    simp [next, Holding.children]
  have hencloses : next.Encloses :=
    Holding.encloses_of_ordered (.inr rfl) hchildren (hordered.sublist (by simp)) rfl
  have hcs : Ordered (.member m :: cs) := hordered.sublist (List.sublist_append_right _ _)
  obtain ⟨hs, hgroups, hp⟩ := ih (hcs.sublist (List.sublist_cons_self _ _)) fun h hh => by
    obtain rfl := Option.some.inj hh
    exact ⟨hencloses, rfl, (List.pairwise_cons.mp hcs.apart).1⟩
  have hread : pending.map Above.child ++ (Child.member m :: cs).filter (!·.isSeparator) =
      next.children ++ cs.filter (!·.isSeparator) := by
    rw [List.filter_cons_of_pos rfl, hchildren, List.append_assoc, List.singleton_append]
  refine ⟨last.toList ++ hs, ?_, ?_⟩
  · rw [groupsFrom, List.map_append, hgroups]
    cases last <;> rfl
  · rw [hread]
    refine Partitions.prepend (by simpa using hp) fun h hh => ?_
    obtain ⟨hh, hmember, hbehind⟩ := hlast h hh
    refine ⟨hh, hmember, fun c hc => hbehind c ?_⟩
    rw [← hread] at hc
    exact (List.Sublist.append (List.Sublist.refl _) List.filter_sublist).subset hc

theorem Divides.defer (a : Above) (ih : Divides source last (pending ++ [a]) cs)
    (hgroups : groupsFrom source (last.map (·.group)) pending (a.child :: cs) =
      groupsFrom source (last.map (·.group)) (pending ++ [a]) cs) :
    Divides source last pending (a.child :: cs) := by
  have hread : a.child.isSeparator = false := by cases a <;> rfl
  simpa [Divides, hgroups, hread] using ih

theorem Divides.skip (ih : Divides source last pending cs) (hc : c.isSeparator)
    (hgroups : groupsFrom source (last.map (·.group)) pending (c :: cs) =
      groupsFrom source (last.map (·.group)) pending cs) :
    Divides source last pending (c :: cs) := by
  intro hordered hlast
  have hsublist : (pending.map Above.child ++ cs).Sublist (pending.map Above.child ++ c :: cs) := by
    simp
  rw [List.filter_cons_of_neg (by simp [hc]), hgroups]
  refine ih (hordered.sublist hsublist) fun h hh => ?_
  obtain ⟨hh, hmember, hbehind⟩ := hlast h hh
  exact ⟨hh, hmember, fun d hd => hbehind d (hsublist.subset hd)⟩

theorem Divides.extend {h : Holding} {l : List Span}
    (ih : Divides source (some (h.extend l c.span.stop)) [] cs)
    (hread : [c].filter (!·.isSeparator) = l.map .comment)
    (hgroups : groupsFrom source (some h.group) [] (c :: cs) =
      groupsFrom source (some { h.group with stop := c.span.stop }) [] cs) :
    Divides source (some h) [] (c :: cs) := by
  intro hordered hlast
  obtain ⟨hh, hmember, hbehind⟩ := hlast h rfl
  have hc : h.group.stop ≤ c.span.start := hbehind c List.mem_cons_self
  have hle : c.span.start ≤ c.span.stop := hordered.start_le c List.mem_cons_self
  have hl : ∀ s ∈ l, h.group.stop ≤ s.start ∧ s.stop ≤ c.span.stop := by
    intro s hs
    have hmem : Child.comment s ∈ [c] := List.mem_of_mem_filter (hread ▸ List.mem_map_of_mem hs)
    obtain rfl := List.mem_singleton.mp hmem
    exact ⟨hc, Nat.le_refl _⟩
  obtain ⟨hs, hmap, hp⟩ := ih (hordered.sublist (List.sublist_cons_self _ _)) fun k hk => by
    obtain rfl := Option.some.inj hk
    exact ⟨hh.extend hmember (hc.trans hle) hl, hmember, (List.pairwise_cons.mp hordered.apart).1⟩
  refine ⟨hs, hmap.trans hgroups.symm, ?_⟩
  have hfilter : (c :: cs).filter (!·.isSeparator) =
      l.map .comment ++ cs.filter (!·.isSeparator) := by
    rw [← List.singleton_append, List.filter_append, hread]
  rw [hfilter]
  simpa [Holding.children_extend] using hp

theorem divides (source : Text) (last : Option Holding) (pending : List Above) (cs : List Child) :
    Divides source last pending cs := by
  induction cs generalizing last pending with
  | nil => exact divides_nil source last pending
  | cons c cs ih =>
    cases c with
    | separator s =>
      rcases pending with _ | ⟨p, ps⟩
      · cases last with
        | none => exact (ih none []).skip rfl rfl
        | some h => exact (ih _ _).extend (l := []) rfl rfl
      · exact (ih last (p :: ps)).skip rfl rfl
    | comment s =>
      rcases pending with _ | ⟨p, ps⟩
      · cases last with
        | none => exact (ih none _).defer (.comment s) rfl
        | some h =>
          by_cases hline : (source.slice h.group.stop s.start).contains '\n'
          · exact (ih _ _).defer (.comment s) (if_pos hline)
          · exact (ih _ _).extend (l := [s]) rfl (if_neg hline)
      · exact (ih _ _).defer (.comment s) rfl
    | decorator s => exact (ih _ _).defer (.decorator s) (by rw [Above.child, groupsFrom])
    | member m => exact (ih _ _).member

theorem Partitions.eq_of_covers (hp : Partitions cs hs) {g k : Group} (hg : g ∈ hs.map (·.group))
    (hk : k ∈ hs.map (·.group)) (hd : d.span.start < d.span.stop)
    (hgd : g.start ≤ d.span.start ∧ d.span.stop ≤ g.stop)
    (hkd : k.start ≤ d.span.start ∧ d.span.stop ≤ k.stop) : g = k := by
  have hsymm : Std.Symm fun g k : Group => g.stop ≤ k.start ∨ k.stop ≤ g.start :=
    ⟨fun _ _ => Or.symm⟩
  have hapart : (hs.map (·.group)).Pairwise fun g k => g.stop ≤ k.start ∨ k.stop ≤ g.start :=
    List.pairwise_map.mpr (hp.apart.imp .inl)
  by_contra hne
  rcases hapart.forall hg hk hne with h | h <;> omega

/-- The groups of a body whose children stand one behind the other partition them: read group by
group, what stands above the member, the member and the comments that trail it are the children but
for separators. The groups are one behind the other, each from its first child on; only the last one
may lack a member. So every child that is not empty is in one group. -/
theorem groups_partition (source : Text) (c : ClassNode) (hordered : Ordered c.children) :
    ∃ hs : List Holding, hs.map (·.group) = groups source c ∧
      Partitions (c.children.filter (!·.isSeparator)) hs ∧
      ∀ d ∈ c.children, d.isSeparator = false → d.span.start < d.span.stop →
        ∃! g, g ∈ groups source c ∧ g.start ≤ d.span.start ∧ d.span.stop ≤ g.stop := by
  obtain ⟨hs, hgroups, hp⟩ := divides source none [] c.children hordered (by simp [Precedes])
  change hs.map (·.group) = groups source c at hgroups
  refine ⟨hs, hgroups, hp, fun d hd hread hne => ?_⟩
  have hmem : d ∈ hs.flatMap (·.children) := hp.children ▸ List.mem_filter.mpr ⟨hd, by simp [hread]⟩
  obtain ⟨h, hh, hdh⟩ := List.mem_flatMap.mp hmem
  have hg : h.group ∈ hs.map (·.group) := List.mem_map_of_mem hh
  have hcovers := (hp.encloses h hh).within d hdh
  rw [← hgroups]
  exact ⟨h.group, ⟨hg, hcovers⟩, fun k hk => hp.eq_of_covers hk.1 hg hne hk.2 hcovers⟩

/-- A method is trailed by a comment over two lines, a separator and one more comment on the line
where that ends. -/
theorem groups_partition_comments :
    let source : Text :=
      "class A \x7b\n // 1\n x() \x7b\x7d /* 2\n */ ; // 3\n y() \x7b\x7d\n // 4\n\x7d\n".toList
    let texts :=
      ["// 1\n x() \x7b\x7d /* 2\n */ ; // 3".toList, "y() \x7b\x7d".toList, "// 4".toList]
    ∃ c hs, (read source).toOption.bind (·[0]?) = some c ∧ Ordered c.children ∧
      c.children.length = 7 ∧
      (groups source c).map (fun g => source.slice g.start g.stop) = texts ∧
      hs.map Holding.group = groups source c ∧
        Partitions (c.children.filter (!·.isSeparator)) hs := by
  intro source texts
  have hread : ((read source).toOption.bind (·[0]?)).isSome ∧
      ∀ c ∈ (read source).toOption.bind (·[0]?),
      Ordered c.children ∧ c.children.length = 7 ∧
      (groups source c).map (fun g => source.slice g.start g.stop) = texts := by decide +kernel
  obtain ⟨c, hc⟩ := Option.isSome_iff_exists.mp hread.1
  obtain ⟨hordered, hlength, htexts⟩ := hread.2 c hc
  obtain ⟨hs, hgroups, hp, -⟩ := groups_partition source c hordered
  exact ⟨c, hs, hc, hordered, hlength, htexts, hgroups, hp⟩

end Graft.Script
