import Graft.Proofs.Provenance
import Mathlib.Data.List.Perm.Basic

set_option autoImplicit false

/-!
How a reconciled table is planned as edits. A piece of the snippet stands for at most one piece of
the host, which is gone then and which no other piece stands for; so each one gets its own edit.
-/

namespace Graft

variable {δ : Type}

namespace Edit

theorem mem_incoming {merged : Pieces δ} {q : Piece δ} :
    q ∈ incoming merged ↔ q ∈ merged.values ∧ q.origin = .snippet := by
  simp [incoming]

open Reconcile in
/-- The pieces of the snippet in a merged table are those that last, each once; only what they stand
for is known by then. -/
theorem incoming_run_perm {r : Rules δ} (hr : r.Lawful) (placement : Placement)
    (commands : Text → Commands) {host : Pieces δ} (hh : host.Keyed)
    (horigin : ∀ p ∈ host.values, p.origin = .host) (es : List (Text × Piece δ)) :
    ((incoming (run r placement commands host es)).map (adopt none)).Perm
      ((survivors r commands es).map (adopt none)) := by
  have hkeyed : Pieces.Keyed (run r placement commands host es) := keyed_run hh es
  have hincoming : ((incoming (run r placement commands host es)).map (adopt none)).Nodup := by
    have hnames : ((incoming (run r placement commands host es)).map (·.name)).Nodup :=
      (hkeyed.names ▸ hkeyed.nodup).sublist (List.filter_sublist.map _)
    refine List.Nodup.of_map (·.name) ?_
    rwa [List.map_map]
  have hsurvivors : ((survivors r commands es).map (adopt none)).Nodup := by
    refine List.Nodup.of_map (·.name) ?_
    rw [List.map_map]
    exact nodup_survivors_names hr es
  refine (List.perm_ext_iff_of_nodup hincoming hsurvivors).mpr ?_
  intro q
  simp only [List.mem_map, mem_survivors, mem_incoming]
  constructor
  · rintro ⟨p, ⟨hp, hs⟩, rfl⟩
    rcases (mem_run hr es).mp (hkeyed.mem_entries hp) with ⟨hhost, -⟩ | ⟨pre, e, hlast, -, hadopt⟩
    · rw [horigin p (Table.mem_values_of_mem hhost)] at hs
      contradiction
    · exact ⟨_, ⟨pre, e, hlast, rfl⟩, by rw [hadopt]; rfl⟩
  · rintro ⟨p, ⟨pre, e, hlast, rfl⟩, rfl⟩
    have hmem : (_, adopt ((run r placement commands host pre).get? e.1) (outcome r commands e)) ∈
        (run r placement commands host es).entries :=
      (mem_run hr es).mpr (Or.inr ⟨pre, e, hlast, rfl, rfl⟩)
    exact ⟨_, ⟨Table.mem_values_of_mem hmem, rfl⟩, rfl⟩

def claim (q : Piece δ) : Option (Text × Piece δ) := q.replaces.map (·, q)

theorem claim_eq_some_iff {q q' : Piece δ} {n : Text} :
    claim q = some (n, q') ↔ q.replaces = some n ∧ q = q' := by
  cases hq : q.replaces <;> simp [claim, hq]

theorem takeovers_moveToEnd (merged : Pieces δ) : takeovers .moveToEnd merged = [] := rfl

theorem takeOver_free {found : List (Text × Piece δ)} {p : Piece δ}
    (hp : ∀ n, p.replaces = some n → n ∉ found.map (·.1)) :
    takeOver found p = found ++ (claim p).toList := by
  cases hn : p.replaces with
  | none => simp [takeOver, claim, hn]
  | some n =>
    have hfree : ¬found.any (·.1 == n) := by
      intro hany
      obtain ⟨e, he, hen⟩ := List.any_eq_true.mp hany
      exact hp n hn (List.mem_map.mpr ⟨e, he, by simpa using hen⟩)
    simp [takeOver, claim, hn, hfree]

theorem foldl_takeOver (qs : List (Piece δ)) (found : List (Text × Piece δ))
    (h : (found.map (·.1) ++ qs.filterMap (·.replaces)).Nodup) :
    qs.foldl takeOver found = found ++ qs.filterMap claim := by
  induction qs generalizing found with
  | nil => simp
  | cons q qs ih =>
    have hfree : takeOver found q = found ++ (claim q).toList := by
      refine takeOver_free fun n hq hmem => ?_
      exact (List.nodup_append.mp h).2.2 n hmem n (by simp [hq]) rfl
    have hnext : ((found ++ (claim q).toList).map (·.1) ++ qs.filterMap (·.replaces)).Nodup := by
      cases hq : q.replaces <;> simpa [claim, hq] using h
    rw [List.foldl_cons, hfree, ih _ hnext]
    cases hq : q.replaces <;> simp [claim, hq]

theorem takeovers_inPlace {merged : Pieces δ}
    (h : ((incoming merged).filterMap (·.replaces)).Nodup) :
    takeovers .inPlace merged = (incoming merged).filterMap claim := by
  unfold takeovers
  rw [if_pos rfl]
  exact foldl_takeOver (incoming merged) [] (by simpa using h)

theorem book_moveToEnd (s : List Text × List (Piece δ)) (p : Piece δ) :
    book .moveToEnd s p = (s.1, s.2 ++ [p]) := by
  cases hp : p.replaces <;> simp [book, hp]

theorem book_none (placement : Placement) (s : List Text × List (Piece δ)) {p : Piece δ}
    (hp : p.replaces = none) : book placement s p = (s.1, s.2 ++ [p]) := by
  simp [book, hp]

theorem book_free (s : List Text × List (Piece δ)) {p : Piece δ} {n : Text}
    (hp : p.replaces = some n) (hn : n ∉ s.1) : book .inPlace s p = (n :: s.1, s.2) := by
  simp [book, hp, hn]

theorem appended_moveToEnd (merged : Pieces δ) : appended .moveToEnd merged = incoming merged := by
  have hfold : ∀ (qs : List (Piece δ)) (s : List Text × List (Piece δ)),
      (qs.foldl (book .moveToEnd) s).2 = s.2 ++ qs := by
    intro qs
    induction qs with
    | nil => simp
    | cons q qs ih =>
      intro s
      rw [List.foldl_cons, book_moveToEnd, ih]
      simp
  exact hfold (incoming merged) ([], [])

theorem appended_inPlace {merged : Pieces δ}
    (h : ((incoming merged).filterMap (·.replaces)).Nodup) :
    appended .inPlace merged = (incoming merged).filter (·.replaces.isNone) := by
  have hfold : ∀ (qs : List (Piece δ)) (s : List Text × List (Piece δ)),
      (s.1 ++ qs.filterMap (·.replaces)).Nodup →
      (qs.foldl (book .inPlace) s).2 = s.2 ++ qs.filter (·.replaces.isNone) := by
    intro qs
    induction qs with
    | nil => simp
    | cons q qs ih =>
      intro s hnodup
      cases hq : q.replaces with
      | none =>
        simp only [List.filterMap_cons, hq] at hnodup
        rw [List.foldl_cons, book_none _ _ hq, ih (s.1, s.2 ++ [q]) hnodup]
        simp [hq]
      | some n =>
        simp only [List.filterMap_cons, hq] at hnodup
        have hn : n ∉ s.1 := fun hm => (List.nodup_append.mp hnodup).2.2 n hm n (by simp) rfl
        have hnext : ((n :: s.1) ++ qs.filterMap (·.replaces)).Nodup :=
          List.perm_middle.nodup_iff.mp hnodup
        rw [List.foldl_cons, book_free s hq hn, ih (n :: s.1, s.2) hnext]
        simp [hq]
  exact hfold (incoming merged) ([], []) (by simpa using h)

/-- Which piece of the host gets an edit of its own, with what goes into its place, and which pieces
are inserted. -/
structure Booking (host merged : Pieces δ) (placement : Placement)
    (gone : List (Piece δ × Option (Piece δ))) (fresh : List (Piece δ)) : Prop where
  /-- Edits of host pieces come in the order of the host, at most one for each. -/
  gone_sublist : (gone.map (·.1)).Sublist host.values
  /-- A host piece has one exactly when it is not left. -/
  mem_gone : ∀ p ∈ host.values, p ∈ gone.map (·.1) ↔ p ∉ merged.values
  /-- In place, the piece that stands for it goes there; else it is deleted. -/
  taken : ∀ g ∈ gone, ∀ q, g.2 = some q ↔
    placement = .inPlace ∧ q ∈ merged.values ∧ q.origin = .snippet ∧ q.replaces = some g.1.name
  /-- Insertions come in the order of the merged table. -/
  fresh_sublist : fresh.Sublist merged.values
  /-- Every piece of the snippet is put in exactly once, and nothing else. -/
  once : (gone.filterMap (·.2) ++ fresh).Perm (incoming merged)

def ofGone (render : Piece δ → Option (Piece δ) → Text) (g : Piece δ × Option (Piece δ)) : Edit :=
  ⟨g.1.start, g.1.stop, g.2.map fun q => render q (some g.1)⟩

def ofFresh (render : Piece δ → Option (Piece δ) → Text) (insertAt : Piece δ → Int) (q : Piece δ) :
    Edit :=
  ⟨insertAt q, insertAt q, some (render q none)⟩

/-- The host pieces that are not left, each with the piece that takes its span over. -/
def goneOf (host merged : Pieces δ) (placement : Placement) : List (Piece δ × Option (Piece δ)) :=
  (host.values.filter fun p =>
    !((merged.values.filter (·.origin = .host)).map (·.name)).contains p.name).map fun p =>
      (p, (takeovers placement merged).lookup p.name)

theorem plan_eq (host merged : Pieces δ) (placement : Placement)
    (render : Piece δ → Option (Piece δ) → Text) (insertAt : Piece δ → Int) :
    plan host merged placement render insertAt =
      (goneOf host merged placement).map (ofGone render) ++
        (appended placement merged).map (ofFresh render insertAt) := by
  simp only [plan, goneOf, List.map_map]
  rfl

section

variable {host merged : Pieces δ}

theorem nodup_incoming (h : Provenance host merged) : (incoming merged).Nodup :=
  h.keyed.values_nodup.filter _

theorem nodup_replaces (h : Provenance host merged) :
    ((incoming merged).filterMap (·.replaces)).Nodup :=
  h.nodup_replaces List.filter_sublist fun _ hq _ _ => (mem_incoming.mp hq).2

theorem lookup_takeovers (h : Provenance host merged) {n : Text} {q : Piece δ} :
    (takeovers .inPlace merged).lookup n = some q ↔
      q ∈ merged.values ∧ q.origin = .snippet ∧ q.replaces = some n := by
  have hkeys : (takeovers .inPlace merged).map (·.1) =
      (incoming merged).filterMap (·.replaces) := by
    rw [takeovers_inPlace (nodup_replaces h), List.map_filterMap]
    congr 1
    funext p
    cases hp : p.replaces <;> simp [claim, hp]
  have hnodup : (Table.mk (takeovers .inPlace merged)).keys.Nodup := by
    change ((takeovers .inPlace merged).map (·.1)).Nodup
    rw [hkeys]
    exact nodup_replaces h
  have hget := Table.get?_eq_some_iff (k := n) (v := q) hnodup
  refine hget.trans ?_
  change (n, q) ∈ takeovers .inPlace merged ↔ _
  rw [takeovers_inPlace (nodup_replaces h), List.mem_filterMap]
  constructor
  · rintro ⟨p, hp, hc⟩
    obtain ⟨hn, rfl⟩ := claim_eq_some_iff.mp hc
    obtain ⟨hp, hs⟩ := mem_incoming.mp hp
    exact ⟨hp, hs, hn⟩
  · rintro ⟨hq, hs, hn⟩
    exact ⟨q, mem_incoming.mpr ⟨hq, hs⟩, claim_eq_some_iff.mpr ⟨hn, rfl⟩⟩

theorem mem_goneOf (hh : host.Keyed) (horigin : ∀ p ∈ host.values, p.origin = .host)
    (h : Provenance host merged) (placement : Placement) {g : Piece δ × Option (Piece δ)} :
    g ∈ goneOf host merged placement ↔
      g.1 ∈ host.values ∧ g.1 ∉ merged.values ∧
        g.2 = (takeovers placement merged).lookup g.1.name := by
  have hkept : ∀ p ∈ host.values,
      (!((merged.values.filter (·.origin = .host)).map (·.name)).contains p.name) = true ↔
        p ∉ merged.values := by
    intro p hp
    simp only [Bool.not_eq_true', List.contains_eq_mem, decide_eq_false_iff_not, not_iff_not,
      List.mem_map, List.mem_filter, decide_eq_true_eq]
    constructor
    · rintro ⟨k, ⟨hk, ho⟩, hname⟩
      exact hh.eq_of_name_eq (h.unchanged k hk ho) hp hname ▸ hk
    · intro hm
      exact ⟨p, ⟨hm, horigin p hp⟩, rfl⟩
  obtain ⟨p, o⟩ := g
  simp only [goneOf, List.mem_map, List.mem_filter, Prod.mk.injEq]
  constructor
  · rintro ⟨p, ⟨hp, hk⟩, rfl, rfl⟩
    exact ⟨hp, (hkept p hp).mp hk, rfl⟩
  · rintro ⟨hp, hk, ho⟩
    exact ⟨p, ⟨hp, (hkept p hp).mpr hk⟩, rfl, ho.symm⟩

theorem map_fst_goneOf_sublist (host merged : Pieces δ) (placement : Placement) :
    ((goneOf host merged placement).map (·.1)).Sublist host.values := by
  simp only [goneOf, List.map_map, Function.comp_def, List.map_id']
  exact List.filter_sublist

theorem perm_inPlace (hh : host.Keyed) (horigin : ∀ p ∈ host.values, p.origin = .host)
    (h : Provenance host merged) :
    ((goneOf host merged .inPlace).filterMap (·.2) ++
      (incoming merged).filter (·.replaces.isNone)).Perm (incoming merged) := by
  have hgone : ∀ q, q ∈ (goneOf host merged .inPlace).filterMap (·.2) ↔
      q ∈ incoming merged ∧ q.replaces.isSome := by
    intro q
    rw [List.mem_filterMap]
    constructor
    · rintro ⟨g, hg, hq⟩
      obtain ⟨-, -, ho⟩ := (mem_goneOf hh horigin h .inPlace).mp hg
      obtain ⟨hm, hs, hn⟩ := (lookup_takeovers h).mp (ho ▸ hq)
      exact ⟨mem_incoming.mpr ⟨hm, hs⟩, by simp [hn]⟩
    · rintro ⟨hq, hsome⟩
      obtain ⟨hm, hs⟩ := mem_incoming.mp hq
      obtain ⟨n, hn⟩ := Option.isSome_iff_exists.mp hsome
      obtain ⟨g, hg, hgn, hgt⟩ := h.gone q hm hs n hn
      have hlook := (lookup_takeovers h).mpr ⟨hm, hs, hgn ▸ hn⟩
      exact ⟨(g, some q), (mem_goneOf hh horigin h .inPlace).mpr ⟨hg, hgt, hlook.symm⟩, rfl⟩
  have hnodup : ((goneOf host merged .inPlace).filterMap (·.2)).Nodup := by
    have hfirst : ((goneOf host merged .inPlace).map (·.1)).Nodup :=
      hh.values_nodup.sublist (map_fst_goneOf_sublist host merged .inPlace)
    refine List.pairwise_filterMap.mpr ((List.pairwise_map.mp hfirst).imp_of_mem ?_)
    intro g g' hg hg' hne q hq q' hq' heq
    obtain ⟨hgh, -, ho⟩ := (mem_goneOf hh horigin h .inPlace).mp hg
    obtain ⟨hgh', -, ho'⟩ := (mem_goneOf hh horigin h .inPlace).mp hg'
    obtain ⟨-, -, hn⟩ := (lookup_takeovers h).mp (ho ▸ hq)
    obtain ⟨-, -, hn'⟩ := (lookup_takeovers h).mp (ho' ▸ hq')
    rw [heq, hn'] at hn
    exact hne (hh.eq_of_name_eq hgh hgh' (Option.some.inj hn).symm)
  refine (List.perm_ext_iff_of_nodup ?_ (nodup_incoming h)).mpr ?_
  · refine List.nodup_append.mpr ⟨hnodup, (nodup_incoming h).filter _, ?_⟩
    rintro q hq q' hq' rfl
    have hsome := ((hgone q).mp hq).2
    have hnone := (List.mem_filter.mp hq').2
    rw [Option.isNone_iff_eq_none.mp hnone] at hsome
    contradiction
  · intro q
    rw [List.mem_append, hgone, List.mem_filter]
    cases q.replaces <;> simp

theorem booking_of_provenance (hh : host.Keyed) (horigin : ∀ p ∈ host.values, p.origin = .host)
    (h : Provenance host merged) (placement : Placement) :
    Booking host merged placement (goneOf host merged placement) (appended placement merged) where
  gone_sublist := map_fst_goneOf_sublist host merged placement
  mem_gone p hp := by
    rw [List.mem_map]
    constructor
    · rintro ⟨g, hg, rfl⟩
      exact ((mem_goneOf hh horigin h placement).mp hg).2.1
    · intro hm
      exact ⟨(p, (takeovers placement merged).lookup p.name),
        (mem_goneOf hh horigin h placement).mpr ⟨hp, hm, rfl⟩, rfl⟩
  taken g hg q := by
    obtain ⟨-, -, ho⟩ := (mem_goneOf hh horigin h placement).mp hg
    cases placement with
    | moveToEnd => simp [ho, takeovers_moveToEnd]
    | inPlace =>
      rw [ho, lookup_takeovers h]
      simp
  fresh_sublist := by
    cases placement with
    | moveToEnd =>
      rw [appended_moveToEnd]
      exact List.filter_sublist
    | inPlace =>
      rw [appended_inPlace (nodup_replaces h)]
      exact List.filter_sublist.trans List.filter_sublist
  once := by
    cases placement with
    | moveToEnd =>
      have hnone : (goneOf host merged .moveToEnd).filterMap (·.2) = [] := by
        rw [List.filterMap_eq_nil_iff]
        intro g hg
        rw [((mem_goneOf hh horigin h .moveToEnd).mp hg).2.2, takeovers_moveToEnd]
        rfl
      rw [hnone, appended_moveToEnd]
      exact List.Perm.refl _
    | inPlace =>
      rw [appended_inPlace (nodup_replaces h)]
      exact perm_inPlace hh horigin h

end

end Edit

open Reconcile Edit

/-- Whatever a reconciliation of host pieces leaves is planned piece by piece: host pieces that are
left get no edit, those that are gone get one each, and every piece of the snippet is put in once,
into the span it takes over or as an insertion. What is put in does not depend on how it is written
or on where insertions go. -/
theorem plan_books_once {r : Rules δ} (hr : r.Lawful) {placement : Placement} {strict : Bool}
    {host snippet : Pieces δ} {commands : Text → Commands} {s : Reconciliation δ}
    (hh : host.Keyed) (horigin : ∀ p ∈ host.values, p.origin = .host)
    (hs : (reconcile r placement strict host snippet commands).result = .ok s) :
    ∃ gone fresh, Booking host s.table placement gone fresh ∧
      ∀ render insertAt, plan host s.table placement render insertAt =
        gone.map (ofGone render) ++ fresh.map (ofFresh render insertAt) := by
  have hprov : Provenance host s.table := by
    rw [table_of_reconcile hs]
    exact provenance_run hr hh horigin (Provenance.refl hh horigin) snippet.entries
  exact ⟨_, _, booking_of_provenance hh horigin hprov placement, plan_eq host s.table placement⟩

theorem plan_books_once_renamed :
    ∃ (v : Vocabulary) (host snippet : Pieces Unit) (commands : Text → Commands)
      (s : Reconciliation Unit) (gone : List (Piece Unit × Option (Piece Unit)))
      (fresh : List (Piece Unit)),
      host.keys = [['a'], ['b']] ∧ snippet.keys = [['a'], ['c']] ∧
      (commands ['a']).rename = some ['b'] ∧
      (reconcile v.rules .inPlace true host snippet commands).result = .ok s ∧
      Booking host s.table .inPlace gone fresh ∧
      gone.map (ofGone fun q _ => q.name) ++ fresh.map (ofFresh (fun q _ => q.name) fun _ => 9) =
        [⟨0, 4, some ['b']⟩, ⟨5, 9, none⟩, ⟨9, 9, some ['c']⟩] := by
  let v : Vocabulary := { isName := fun _ => true, isParameter := fun _ => true }
  let a : Piece Unit := { name := ['a'], start := 0, stop := 4, details := () }
  let b : Piece Unit := { name := ['b'], start := 5, stop := 9, details := () }
  let c : Piece Unit := { name := ['c'], details := () }
  let commands : Text → Commands := fun n => if n = ['a'] then { rename := some ['b'] } else {}
  let s : Reconciliation Unit :=
    ⟨run v.rules .inPlace commands (Pieces.ofList [a, b]) (Pieces.ofList [a, c]).entries, []⟩
  have hs : (reconcile v.rules .inPlace true (Pieces.ofList [a, b]) (Pieces.ofList [a, c])
      commands).result = .ok s := by rfl
  have horigin : ∀ p ∈ (Pieces.ofList [a, b]).values, p.origin = .host := by decide
  obtain ⟨gone, fresh, hbook, hplan⟩ :=
    plan_books_once v.rules_lawful (Pieces.keyed_ofList [a, b]) horigin hs
  refine ⟨v, _, _, commands, s, gone, fresh, by decide, by decide, rfl, hs, hbook, ?_⟩
  rw [← hplan]
  decide

end Graft
