import Graft.Proofs.Order
import Graft.Proofs.Strict
import Mathlib.Data.List.Pairwise
import Mathlib.Data.List.Perm.Basic

set_option autoImplicit false

/-!
Snippets whose pieces keep out of each other's way. Where no two pieces touch one name, the outcome
can be told name by name: each slot of the host keeps its entry, loses it or gives it up to the
piece of its name. So such pieces can come in any order, and where they keep their names a second
run changes nothing.
-/

namespace Graft

namespace Reconcile

variable {δ : Type} {r : Rules δ} {placement : Placement} {commands : Text → Commands}
  {host : Pieces δ} {es : List (Text × Piece δ)} {e e' : Text × Piece δ} {k : Text}

theorem notices_eq (hr : r.Lawful) (t t' : Pieces δ) (e : Text × Piece δ) :
    notices r commands t e = notices r commands t' e := by
  simp only [notices, applyCommands_adopt hr]

theorem allNotices_eq (hr : r.Lawful) (t : Pieces δ) (es : List (Text × Piece δ)) :
    allNotices r placement commands t es = es.flatMap (notices r commands .empty) := by
  induction es generalizing t with
  | nil => rfl
  | cons e es ih => rw [allNotices, ih, List.flatMap_cons, notices_eq hr t .empty]

/-- A lenient run as a whole: its table, and piece by piece what it warns of. -/
theorem reconcile_eq_run (hr : r.Lawful) (host snippet : Pieces δ) :
    (reconcile r placement false host snippet commands).result =
      .ok ⟨run r placement commands host snippet.entries,
        snippet.entries.flatMap (notices r commands .empty)⟩ := by
  have hwarnings : (snippet.entries.foldl (advance r placement commands) ⟨host, []⟩).warnings =
      snippet.entries.flatMap (notices r commands .empty) := by
    rw [foldl_advance_warnings, allNotices_eq hr, List.nil_append]
  have htable : (snippet.entries.foldl (advance r placement commands) ⟨host, []⟩).table =
      run r placement commands host snippet.entries := foldl_advance_table _ _
  rw [reconcile_lenient, ← htable, ← hwarnings]

theorem adopt_adopt (b : Option (Piece δ)) (p q : Piece δ) :
    adopt (some (adopt b p)) q = adopt b q := by
  cases b <;> rfl

/-- No name is touched by both. -/
def Apart (r : Rules δ) (commands : Text → Commands) (e e' : Text × Piece δ) : Prop :=
  ∀ k, ¬(touches r commands e k ∧ touches r commands e' k)

instance : Std.Symm (Apart (δ := δ) r commands) where
  symm _ _ h k hk := h k hk.symm

theorem Apart.touches_eq_false (h : Apart r commands e e')
    (hk : touches r commands e k) : touches r commands e' k = false := by
  rw [Bool.eq_false_iff]
  exact fun hk' => h k ⟨hk, hk'⟩

theorem touches_key (hanon : e.2.anonymous = false) : touches r commands e e.1 := by
  simp [touches, hanon]

theorem eq_of_touches (h : es.Pairwise (Apart r commands)) (he : e ∈ es)
    (he' : e' ∈ es) (hk : touches r commands e k) (hk' : touches r commands e' k) : e = e' := by
  by_contra hne
  exact h.forall he he' hne k ⟨hk, hk'⟩

theorem lasts_of_mem (h : es.Pairwise (Apart r commands)) (he : e ∈ es)
    (henters : enters commands e) : ∃ pre, Lasts r commands es pre e := by
  obtain ⟨pre, post, rfl⟩ := List.append_of_mem he
  refine ⟨pre, henters, post, rfl, fun e' he' => ?_⟩
  have hlater := (List.pairwise_cons.mp (List.pairwise_append.mp h).2.1).1 e' he'
  exact hlater.touches_eq_false (touches_finalName henters)

theorem apart_last (h : (es ++ [e]).Pairwise (Apart r commands)) (he' : e' ∈ es) :
    Apart r commands e' e :=
  (List.pairwise_append.mp h).2.2 e' he' e (by simp)

theorem get?_run_last (hr : r.Lawful) (hh : host.keys.Nodup)
    (h : (es ++ [e]).Pairwise (Apart r commands)) (henters : enters commands e) :
    (run r placement commands host es).get? e.1 = host.get? e.1 :=
  get?_run_of_untouched hr hh fun _ he' =>
    (symm (apart_last h he')).touches_eq_false (touches_key (enters_iff.mp henters).1)

theorem get?_run_finalName (hr : r.Lawful) (hh : host.keys.Nodup)
    (h : es.Pairwise (Apart r commands)) (he : e ∈ es) (henters : enters commands e) :
    (run r placement commands host es).get? (finalName r commands e) =
      some (adopt (host.get? e.1) (outcome r commands e)) := by
  obtain ⟨pre, hlast⟩ := lasts_of_mem h he henters
  obtain ⟨post, hes, -⟩ := hlast.untouched
  have hpre : (pre ++ [e]).Pairwise (Apart r commands) := h.sublist (by simp [hes])
  rw [Table.get?_eq_some_iff (nodup_keys_run hh es), mem_run hr]
  exact Or.inr ⟨pre, e, hlast, rfl, by rw [get?_run_last hr hh hpre henters]⟩

theorem get?_run_deleted (hr : r.Lawful) (hh : host.keys.Nodup) (h : es.Pairwise (Apart r commands))
    (he : e ∈ es) (hanon : e.2.anonymous = false) (hdelete : (commands e.1).delete) :
    (run r placement commands host es).get? e.1 = none := by
  rw [Option.eq_none_iff_forall_ne_some]
  intro q hq
  rw [Table.get?_eq_some_iff (nodup_keys_run hh es), mem_run hr] at hq
  rcases hq with ⟨-, huntouched⟩ | ⟨pre, e', ⟨henters, post, hes, -⟩, hname, -⟩
  · have htouched := huntouched e he
    rw [touches_key hanon] at htouched
    contradiction
  · have he' : e' ∈ es := by simp [hes]
    obtain rfl := eq_of_touches h he he' (touches_key hanon) (hname ▸ touches_finalName henters)
    rw [(enters_iff.mp henters).2] at hdelete
    contradiction

/-- The pieces that enter, each in place of what the host has under its key. -/
def arrivals (r : Rules δ) (commands : Text → Commands) (host : Pieces δ)
    (es : List (Text × Piece δ)) :
    List (Text × Piece δ) :=
  (es.filter (enters commands)).map fun e =>
    (finalName r commands e, adopt (host.get? e.1) (outcome r commands e))

theorem exists_of_mem_arrivals {x : Text × Piece δ} (h : x ∈ arrivals r commands host es) :
    ∃ e ∈ es, enters commands e ∧ finalName r commands e = x.1 := by
  obtain ⟨e, he, rfl⟩ := List.mem_map.mp h
  obtain ⟨he, henters⟩ := List.mem_filter.mp he
  exact ⟨e, he, henters, rfl⟩

theorem run_moveToEnd_of_apart (hr : r.Lawful) (hh : host.keys.Nodup)
    (h : es.Pairwise (Apart r commands)) :
    (run r .moveToEnd commands host es).entries = untouched r commands host es ++
      arrivals r commands host es := by
  induction es using List.reverseRecOn with
  | nil => simp [run, untouched, isTouched, arrivals]
  | append_singleton es e ih =>
    have hes := (List.pairwise_append.mp h).1
    have hstays : (arrivals r commands host es).filter (fun x => !touches r commands e x.1) =
        arrivals r commands host es := by
      rw [List.filter_eq_self]
      intro x hx
      obtain ⟨e', hmem, henters, hname⟩ := exists_of_mem_arrivals hx
      simp [← hname, (apart_last h hmem).touches_eq_false (touches_finalName henters)]
    rw [run_append, entries_enter_moveToEnd hr, ih hes, List.filter_append, hstays,
      ← untouched_append, List.append_assoc, arrivals, arrivals, List.filter_append,
      List.map_append]
    congr 2
    by_cases henters : enters commands e
    · simp [henters, get?_run_last hr hh h henters]
    · simp [henters]

def isUnder (k : Text) (e : Text × Piece δ) : Bool := !e.2.anonymous && e.1 == k

/-- What becomes of a slot of the host: its entry stays, goes, or gives way to the piece of its
name. -/
def settled (r : Rules δ) (commands : Text → Commands) (es : List (Text × Piece δ))
    (x : Text × Piece δ) :
    Option (Text × Piece δ) :=
  match es.find? (isUnder x.1) with
  | none => some x
  | some e =>
    if (commands e.1).delete then none
    else some (finalName r commands e, adopt (some x.2) (outcome r commands e))

/-- What comes after the slots of the host: the pieces under names that it does not have. -/
def newcomers (r : Rules δ) (commands : Text → Commands) (host : Pieces δ)
    (es : List (Text × Piece δ)) :
    List (Text × Piece δ) :=
  (es.filter fun e => enters commands e && !host.contains e.1).map fun e =>
    (finalName r commands e, adopt none (outcome r commands e))

/-- The slots of the host as they are settled, and the newcomers. -/
def outline (r : Rules δ) (commands : Text → Commands) (host : Pieces δ)
    (es : List (Text × Piece δ)) :
    List (Text × Piece δ) :=
  host.entries.filterMap (settled r commands es) ++ newcomers r commands host es

/-- No two pieces touch one name, and a piece with a new name does not take one of the host's. -/
structure Independent (r : Rules δ) (commands : Text → Commands) (host : Pieces δ)
    (es : List (Text × Piece δ)) : Prop where
  apart : es.Pairwise (Apart r commands)
  free : ∀ e ∈ es, enters commands e → finalName r commands e = e.1 ∨
    finalName r commands e ∉ host.keys

theorem isUnder_iff :
    isUnder k e ↔ e.2.anonymous = false ∧ e.1 = k := by
  simp [isUnder]

theorem touches_of_isUnder (h : isUnder k e) : touches r commands e k := by
  obtain ⟨hanon, rfl⟩ := isUnder_iff.mp h
  exact touches_key hanon

theorem Independent.init (h : Independent r commands host (es ++ [e])) :
    Independent r commands host es where
  apart := (List.pairwise_append.mp h.apart).1
  free e' he' := h.free e' (by simp [he'])

theorem touches_iff :
    touches r commands e k ↔
      isUnder k e ∨ (enters commands e ∧ finalName r commands e = k) := by
  simp only [touches, isUnder, enters]
  grind

theorem touches_of_free
    (hfree : enters commands e → finalName r commands e = e.1 ∨ finalName r commands e ∉ host.keys)
    (hk : k ∈ host.keys) : touches r commands e k = isUnder k e := by
  rw [Bool.eq_iff_iff, touches_iff, or_iff_left_iff_imp]
  rintro ⟨henters, rfl⟩
  rcases hfree henters with hkey | hnew
  · exact isUnder_iff.mpr ⟨(enters_iff.mp henters).1, hkey.symm⟩
  · exact absurd hk hnew

theorem Independent.touches_settled (h : Independent r commands host (es ++ [e]))
    {x y : Text × Piece δ} (hx : x.1 ∈ host.keys) (hy : y ∈ settled r commands es x) :
    touches r commands e y.1 = isUnder x.1 e := by
  unfold settled at hy
  split at hy
  · obtain rfl := Option.some.inj hy
    exact touches_of_free (h.free e (by simp)) hx
  · rename_i e' hfound
    have he' := List.mem_of_find?_eq_some hfound
    have hunder : isUnder x.1 e' := List.find?_some hfound
    split at hy
    · contradiction
    · rename_i hdelete
      obtain rfl := Option.some.inj hy
      have henters : enters commands e' :=
        enters_iff.mpr ⟨(isUnder_iff.mp hunder).1, by simpa using hdelete⟩
      have hapart := apart_last h.apart he'
      rw [hapart.touches_eq_false (touches_finalName henters), eq_comm, Bool.eq_false_iff]
      exact fun hx => hapart x.1 ⟨touches_of_isUnder hunder, touches_of_isUnder hx⟩

theorem Independent.find?_eq_none (h : Independent r commands host (es ++ [e]))
    (hunder : isUnder k e) : es.find? (isUnder k) = none := by
  rw [List.find?_eq_none]
  intro e' he' hunder'
  exact apart_last h.apart he' k ⟨touches_of_isUnder hunder', touches_of_isUnder hunder⟩

theorem Independent.settled_append (h : Independent r commands host (es ++ [e]))
    (x : Text × Piece δ) :
    settled r commands (es ++ [e]) x =
      if isUnder x.1 e then
        if (commands e.1).delete then none
        else some (finalName r commands e, adopt (some x.2) (outcome r commands e))
      else settled r commands es x := by
  unfold settled
  rw [List.find?_append, List.find?_singleton]
  by_cases hunder : isUnder x.1 e
  · rw [h.find?_eq_none hunder, if_pos hunder, if_pos hunder]
    rfl
  · rw [if_neg hunder, if_neg hunder, Option.or_none]

theorem newcomers_append (es : List (Text × Piece δ)) (e : Text × Piece δ) :
    newcomers r commands host (es ++ [e]) = newcomers r commands host es ++
      if enters commands e && !host.contains e.1 then
        [(finalName r commands e, adopt none (outcome r commands e))]
      else [] := by
  rw [newcomers, List.filter_append, List.map_append]
  congr 1
  split <;> simp_all

theorem newcomers_eq_nil (h : ∀ e ∈ es, enters commands e → e.1 ∈ host.keys) :
    newcomers r commands host es = [] := by
  rw [newcomers, List.map_eq_nil_iff, List.filter_eq_nil_iff]
  intro e he
  rw [Bool.and_eq_true, Bool.not_eq_true']
  rintro ⟨henters, hunknown⟩
  rw [Table.contains_iff.mpr (h e he henters)] at hunknown
  contradiction

theorem Independent.touches_newcomers (h : Independent r commands host (es ++ [e]))
    {y : Text × Piece δ} (hy : y ∈ newcomers r commands host es) :
    touches r commands e y.1 = false := by
  obtain ⟨e', he', rfl⟩ := List.mem_map.mp hy
  obtain ⟨hmem, henters⟩ := List.mem_filter.mp he'
  rw [Bool.and_eq_true] at henters
  exact (apart_last h.apart hmem).touches_eq_false (touches_finalName henters.1)

theorem Independent.enter_idle (h : Independent r commands host (es ++ [e]))
    (he : ¬enters commands e) {t : Pieces δ} (ht : t.entries = outline r commands host es) :
    (enter r .inPlace commands t e).entries = outline r commands host (es ++ [e]) := by
  have hslots :
      (host.entries.filterMap (settled r commands es)).filter (fun y => !touches r commands e y.1) =
      host.entries.filterMap (settled r commands (es ++ [e])) := by
    rw [List.filter_filterMap]
    apply List.filterMap_congr
    intro x hx
    rw [h.settled_append]
    by_cases hunder : isUnder x.1 e
    · have hdelete : (commands e.1).delete = true := by
        simpa [enters, (isUnder_iff.mp hunder).1] using he
      simp [settled, h.find?_eq_none hunder, hunder, hdelete, touches_of_isUnder hunder,
        Option.filter]
    · cases hy : settled r commands es x with
      | none => simp [hunder]
      | some y => simp [Option.filter, h.touches_settled (Table.mem_keys_of_mem hx) hy, hunder]
  have hrest : (newcomers r commands host es).filter (fun y => !touches r commands e y.1) =
      newcomers r commands host es :=
    List.filter_eq_self.mpr fun y hy => by simp [h.touches_newcomers hy]
  rw [enter_of_not_enters he, ht, outline, outline, List.filter_append, hslots, hrest,
    newcomers_append]
  simp [he]

theorem Independent.enter_known (hr : r.Lawful) (hh : host.keys.Nodup)
    (h : Independent r commands host (es ++ [e])) (he : enters commands e) {b : Piece δ}
    (hb : host.get? e.1 = some b) {t : Pieces δ} (ht : t.entries = outline r commands host es)
    (hbase : t.get? e.1 = some b) :
    (enter r .inPlace commands t e).entries = outline r commands host (es ++ [e]) := by
  have hmem := Table.mem_of_get?_eq_some hb
  let f : Text × Piece δ → Option (Text × Piece δ) := fun y =>
    if y.1 == e.1 then some (finalName r commands e, adopt (some b) (outcome r commands e))
    else if y.1 == finalName r commands e then none else some y
  have hstays : ∀ y, touches r commands e y.1 = false → f y = some y := by
    intro y hy
    have hfree := not_touches_of_enters (r := r) he y.1
    rw [hy] at hfree
    simp_all [f]
  have hslots : (host.entries.filterMap (settled r commands es)).filterMap f =
      host.entries.filterMap (settled r commands (es ++ [e])) := by
    rw [List.filterMap_filterMap]
    apply List.filterMap_congr
    intro x hx
    rw [h.settled_append]
    by_cases hunder : isUnder x.1 e
    · have hsame := (isUnder_iff.mp hunder).2
      have hvalue : b = x.2 := Table.eq_of_mem_of_mem hh hmem (hsame ▸ hx)
      simp [f, settled, h.find?_eq_none hunder, hunder, hsame, hvalue, hsame ▸ (enters_iff.mp he).2]
    · rw [if_neg hunder]
      cases hy : settled r commands es x with
      | none => rfl
      | some y =>
        exact hstays y (by simpa [h.touches_settled (Table.mem_keys_of_mem hx) hy] using hunder)
  have hrest : (newcomers r commands host es).filterMap f = newcomers r commands host es :=
    (List.filterMap_congr fun y hy => hstays y (h.touches_newcomers hy)).trans List.filterMap_some
  have hname : (adopt (some b) (outcome r commands e)).name = finalName r commands e :=
    outcome_name hr e
  have hknown : host.contains e.1 := Table.contains_iff.mpr (Table.mem_keys_of_mem hmem)
  rw [enter_eq_place hr t he, hbase, place, hname, if_pos (by simp), Table.putInPlace, ht,
    outline, outline, List.filterMap_append, hslots, hrest, newcomers_append]
  simp [hknown]

theorem Independent.enter_new (hr : r.Lawful) (h : Independent r commands host (es ++ [e]))
    (he : enters commands e) (hnew : e.1 ∉ host.keys) {t : Pieces δ}
    (ht : t.entries = outline r commands host es) (hbase : t.get? e.1 = none) :
    (enter r .inPlace commands t e).entries = outline r commands host (es ++ [e]) := by
  have hunder : ∀ x ∈ host.entries, ¬isUnder x.1 e := fun x hx hunder =>
    hnew ((isUnder_iff.mp hunder).2 ▸ Table.mem_keys_of_mem hx)
  have hslots : host.entries.filterMap (settled r commands (es ++ [e])) =
      host.entries.filterMap (settled r commands es) :=
    List.filterMap_congr fun x hx => by rw [h.settled_append, if_neg (hunder x hx)]
  have hkept : (outline r commands host es).filter (fun y => !touches r commands e y.1) =
      outline r commands host es := by
    rw [List.filter_eq_self]
    intro y hy
    rcases List.mem_append.mp hy with hy | hy
    · obtain ⟨x, hx, hy⟩ := List.mem_filterMap.mp hy
      simpa [h.touches_settled (Table.mem_keys_of_mem hx) hy] using hunder x hx
    · simp [h.touches_newcomers hy]
  have hunknown : ¬host.contains e.1 := fun hmem => hnew (Table.contains_iff.mp hmem)
  -- With nothing under its name a piece is placed as it is when pieces move to the end.
  have hlast : (enter r .inPlace commands t e).entries =
      (enter r .moveToEnd commands t e).entries := by
    simp [enter_eq_place hr t he, hbase, place]
  rw [hlast, entries_enter_moveToEnd hr, ht, hkept, hbase, if_pos he, outline, outline, hslots,
    newcomers_append]
  simp [he, hunknown]

/-- In place, every slot of the host is settled by the piece of its name, and the newcomers
follow. -/
theorem run_inPlace_of_independent (hr : r.Lawful) (hh : host.keys.Nodup)
    (h : Independent r commands host es) :
    (run r .inPlace commands host es).entries = outline r commands host es := by
  induction es using List.reverseRecOn with
  | nil =>
    have hnil : settled r commands [] = some := rfl
    simp [run, outline, newcomers, hnil]
  | append_singleton es e ih =>
    have hentries := ih h.init
    rw [run_append]
    by_cases henters : enters commands e
    · have hbase : (run r .inPlace commands host es).get? e.1 = host.get? e.1 :=
        get?_run_last hr hh h.apart henters
      cases hb : host.get? e.1 with
      | some b => exact h.enter_known hr hh henters hb hentries (hbase.trans hb)
      | none =>
        have hnew : e.1 ∉ host.keys := fun hmem => by
          simpa [hb] using Table.get?_isSome_iff.mpr hmem
        exact h.enter_new hr henters hnew hentries (hbase.trans hb)
    · exact h.enter_idle henters hentries

theorem settled_perm {es' : List (Text × Piece δ)} (h : es.Pairwise (Apart r commands))
    (hperm : es.Perm es') :
    settled r commands es = settled r commands es' := by
  have hfind : ∀ k, es.find? (isUnder k) = es'.find? (isUnder k) := by
    intro k
    rw [← List.head?_filter, ← List.head?_filter]
    have hfilter := hperm.filter (isUnder k)
    cases hone : es.filter (isUnder k) with
    | nil =>
      rw [hone, List.nil_perm] at hfilter
      rw [hfilter]
    | cons e rest =>
      have hrest : rest = [] := by
        rw [List.eq_nil_iff_forall_not_mem]
        intro e' he'
        have hpair := h.filter (isUnder k)
        have he : isUnder k e := (List.mem_filter.mp (hone ▸ List.mem_cons_self)).2
        have hunder : isUnder k e' := (List.mem_filter.mp (hone ▸ List.mem_cons_of_mem e he')).2
        rw [hone] at hpair
        exact (List.pairwise_cons.mp hpair).1 e' he' k
          ⟨touches_of_isUnder he, touches_of_isUnder hunder⟩
      rw [hone, hrest, List.singleton_perm] at hfilter
      rw [hrest, hfilter]
  funext x
  rw [settled, settled, hfind]

theorem Independent.perm {es' : List (Text × Piece δ)} (h : Independent r commands host es)
    (hperm : es.Perm es') : Independent r commands host es' where
  apart := (hperm.pairwise_iff fun {_ _} => symm).mp h.apart
  free e he := h.free e (hperm.mem_iff.mpr he)

theorem independent_of_finalNames (hkeys : (es.map (·.1)).Nodup)
    (hknown : ∀ e ∈ es, e.2.anonymous = false → e.1 ∈ host.keys)
    (hnames : ((es.filter (enters commands)).map (finalName r commands)).Nodup)
    (hfree : ∀ e ∈ es,
        enters commands e → finalName r commands e = e.1 ∨ finalName r commands e ∉ host.keys) :
    Independent r commands host es where
  free := hfree
  apart := by
    refine (List.pairwise_map.mp hkeys).imp_of_mem fun {e e'} he he' hne k ⟨hk, hk'⟩ => hne ?_
    by_cases hhost : k ∈ host.keys
    · rw [touches_of_free (hfree e he) hhost] at hk
      rw [touches_of_free (hfree e' he') hhost] at hk'
      exact (isUnder_iff.mp hk).2.trans (isUnder_iff.mp hk').2.symm
    · have hfinal : ∀ e ∈ es, touches r commands e k → enters commands e ∧
          finalName r commands e = k := by
        intro e he hk
        refine (touches_iff.mp hk).resolve_left fun hunder => hhost ?_
        obtain ⟨hanon, rfl⟩ := isUnder_iff.mp hunder
        exact hknown e he hanon
      obtain ⟨henters, hname⟩ := hfinal e he hk
      obtain ⟨henters', hname'⟩ := hfinal e' he' hk'
      exact congrArg _ (List.inj_on_of_nodup_map hnames (List.mem_filter.mpr ⟨he, henters⟩)
        (List.mem_filter.mpr ⟨he', henters'⟩) (hname.trans hname'.symm))

theorem independent_of_same_names (hkeys : (es.map (·.1)).Nodup)
    (hnames : ∀ e ∈ es, enters commands e → finalName r commands e = e.1) (host : Pieces δ) :
    Independent r commands host es where
  free e he henters := Or.inl (hnames e he henters)
  apart := by
    refine (List.pairwise_map.mp hkeys).imp_of_mem fun {e e'} he he' hne k ⟨hk, hk'⟩ => hne ?_
    have hkey : ∀ e ∈ es, touches r commands e k → e.1 = k := by
      intro e he hk
      rcases touches_iff.mp hk with hunder | ⟨henters, rfl⟩
      · exact (isUnder_iff.mp hunder).2
      · exact (hnames e he henters).symm
    exact (hkey e he hk).trans (hkey e' he' hk').symm

theorem run_inPlace_again (hr : r.Lawful) (hh : host.keys.Nodup) (hkeys : (es.map (·.1)).Nodup)
    (hnames : ∀ e ∈ es, enters commands e → finalName r commands e = e.1) :
    run r .inPlace commands (run r .inPlace commands host es) es =
      run r .inPlace commands host es := by
  have hapart := (independent_of_same_names hkeys hnames host).apart
  generalize ht : run r .inPlace commands host es = t
  have hnodup : t.keys.Nodup := ht ▸ nodup_keys_run hh es
  have hholds : ∀ e ∈ es, enters commands e →
      t.get? e.1 = some (adopt (host.get? e.1) (outcome r commands e)) := by
    intro e he henters
    rw [← hnames e he henters, ← ht, get?_run_finalName hr hh hapart he henters,
      hnames e he henters]
  have hsettled : ∀ y ∈ t.entries, settled r commands es y = some y := by
    intro y hy
    unfold settled
    split
    · rfl
    · rename_i e hfound
      have he := List.mem_of_find?_eq_some hfound
      obtain ⟨hanon, hkey⟩ := isUnder_iff.mp (List.find?_some hfound)
      have hvalue : t.get? e.1 = some y.2 := (Table.get?_eq_some_iff hnodup).mpr (hkey ▸ hy)
      split
      · rename_i hdelete
        rw [← ht, get?_run_deleted hr hh hapart he hanon hdelete] at hvalue
        contradiction
      · rename_i hdelete
        have henters : enters commands e := enters_iff.mpr ⟨hanon, by simpa using hdelete⟩
        have hpiece := Option.some.inj (hvalue.symm.trans (hholds e he henters))
        rw [hpiece, adopt_adopt, hnames e he henters, ← hpiece, hkey]
  have hnewcomers : newcomers r commands t es = [] := newcomers_eq_nil fun e he henters =>
    Table.mem_keys_of_mem (Table.mem_of_get?_eq_some (hholds e he henters))
  have hentries := run_inPlace_of_independent hr hnodup (independent_of_same_names hkeys hnames t)
  rw [outline, hnewcomers, List.append_nil, List.filterMap_congr hsettled,
    List.filterMap_some] at hentries
  exact congrArg Table.mk hentries

theorem run_moveToEnd_again (hr : r.Lawful) (hh : host.keys.Nodup) (hkeys : (es.map (·.1)).Nodup)
    (hnames : ∀ e ∈ es, enters commands e → finalName r commands e = e.1) :
    run r .moveToEnd commands (run r .moveToEnd commands host es) es =
      run r .moveToEnd commands host es := by
  have hapart := (independent_of_same_names hkeys hnames host).apart
  have hfirst := run_moveToEnd_of_apart hr hh hapart
  have hnodup : (run r .moveToEnd commands host es).keys.Nodup := nodup_keys_run hh es
  have hsecond := run_moveToEnd_of_apart hr hnodup hapart
  have huntouched : untouched r commands (run r .moveToEnd commands host es) es =
      untouched r commands host es := by
    have hgone : (arrivals r commands host es).filter (fun y => !isTouched r commands es y.1) =
        [] := by
      rw [List.filter_eq_nil_iff]
      intro y hy
      obtain ⟨e, he, henters, hname⟩ := exists_of_mem_arrivals hy
      have htouched : isTouched r commands es y.1 :=
        List.any_eq_true.mpr ⟨e, he, hname ▸ touches_finalName henters⟩
      simp [htouched]
    rw [untouched, hfirst, List.filter_append, hgone, List.append_nil, untouched,
      List.filter_filter]
    simp only [Bool.and_self]
  have hpieces : ∀ e ∈ es.filter (enters commands),
      (finalName r commands e,
        adopt ((run r .moveToEnd commands host es).get? e.1) (outcome r commands e)) =
        (finalName r commands e, adopt (host.get? e.1) (outcome r commands e)) := by
    intro e he
    obtain ⟨he, henters⟩ := List.mem_filter.mp he
    have hname : (run r .moveToEnd commands host es).get? (finalName r commands e) = _ :=
      get?_run_finalName hr hh hapart he henters
    rw [hnames e he henters] at hname
    rw [hname, adopt_adopt]
  rw [huntouched, arrivals, List.map_congr_left hpieces, ← arrivals, ← hfirst] at hsecond
  exact congrArg Table.mk hsecond

end Reconcile

open Reconcile

variable {δ : Type}

/-- Pieces that keep their names come to the same when they are reconciled once more: a lenient run
always ends, and a second one, into the table that the first has left, gives the same table and the
same warnings. In it the name of each piece holds that piece, or nothing if it is marked for
deletion. -/
theorem reconcile_idempotent {r : Rules δ} (hr : r.Lawful) (placement : Placement)
    {host snippet : Pieces δ} (hh : host.keys.Nodup) (hs : snippet.keys.Nodup)
    {commands : Text → Commands}
    (hnames : ∀ e ∈ snippet.entries, enters commands e → finalName r commands e = e.1) :
    ∃ s, (reconcile r placement false host snippet commands).result = .ok s ∧
      (reconcile r placement false s.table snippet commands).result = .ok s ∧
      ∀ e ∈ snippet.entries, e.2.anonymous = false → s.table.get? e.1 =
        if (commands e.1).delete then none
          else some (adopt (host.get? e.1) (outcome r commands e)) := by
  have hapart := (independent_of_same_names hs hnames host).apart
  refine ⟨_, reconcile_eq_run hr host snippet, ?_, ?_⟩
  · have hagain :
        run r placement commands (run r placement commands host snippet.entries) snippet.entries =
        run r placement commands host snippet.entries := by
      cases placement with
      | inPlace => exact run_inPlace_again hr hh hs hnames
      | moveToEnd => exact run_moveToEnd_again hr hh hs hnames
    rw [reconcile_eq_run hr, hagain]
  · intro e he hanon
    cases hdelete : (commands e.1).delete with
    | true => exact get?_run_deleted hr hh hapart he hanon hdelete
    | false =>
      have henters : enters commands e := enters_iff.mpr ⟨hanon, hdelete⟩
      have hname : (run r placement commands host snippet.entries).get? (finalName r commands e) =
          _ :=
        get?_run_finalName hr hh hapart he henters
      rwa [hnames e he henters] at hname

theorem reconcile_idempotent_mixed :
    ∃ (v : Vocabulary) (host snippet : Pieces Unit) (commands : Text →
      Commands) (s : Reconciliation Unit),
      host.keys = [['a'], ['b'], ['c']] ∧ snippet.keys = [['n'], ['a'], ['b']] ∧
      (commands ['b']).delete ∧ (commands ['a']).rename = some ['1'] ∧
      (reconcile v.rules .moveToEnd false host snippet commands).result = .ok s ∧
      (reconcile v.rules .moveToEnd false s.table snippet commands).result = .ok s ∧
      s.table.keys = [['c'], ['n'], ['a']] ∧
      s.table.values.map (·.replaces) = [none, none, some ['a']] ∧
      s.warnings = [.ignored "rename".toList (.text ['1']) "member".toList ['a']] := by
  let v : Vocabulary := { isName := Vocabulary.identifier.accepts, isParameter := fun _ => true }
  let piece (n : Text) : Piece Unit := { name := n, details := () }
  let host : Pieces Unit := Pieces.ofList [piece ['a'], piece ['b'], piece ['c']]
  let snippet : Pieces Unit := Pieces.ofList [piece ['n'], piece ['a'], piece ['b']]
  let commands : Text → Commands := fun n =>
    if n = ['b'] then { delete := true } else if n = ['a'] then { rename := some ['1'] } else {}
  have hnames : ∀ e ∈ snippet.entries, enters commands e → finalName v.rules commands e = e.1 := by
    decide +kernel
  have hkeys : snippet.keys.Nodup :=
    (Pieces.keyed_ofList [piece ['n'], piece ['a'], piece ['b']]).nodup
  obtain ⟨s, hfirst, hsecond, -⟩ := reconcile_idempotent v.rules_lawful .moveToEnd
    (Pieces.keyed_ofList [piece ['a'], piece ['b'], piece ['c']]).nodup hkeys hnames
  have hs := (reconcile_eq_run v.rules_lawful host snippet).symm.trans hfirst
  obtain rfl := Except.ok.inj hs
  exact ⟨v, host, snippet, commands, _, by decide, by decide, by decide, by decide, hfirst, hsecond,
    by decide +kernel, by decide +kernel, by decide +kernel⟩

/-- Pieces under names of the host whose final names are distinct, and each the piece's own or new
to the host, can be reconciled in any order: in place, a lenient run settles every slot of the host
on its own, and only the order of the warnings changes. -/
theorem reconcile_permuted {r : Rules δ} (hr : r.Lawful) {host snippet snippet' : Pieces δ}
    (hh : host.keys.Nodup) (hs : snippet.keys.Nodup) {commands : Text → Commands}
    (hknown : ∀ e ∈ snippet.entries, e.2.anonymous = false → e.1 ∈ host.keys)
    (hnames : ((snippet.entries.filter (enters commands)).map (finalName r commands)).Nodup)
    (hfree : ∀ e ∈ snippet.entries, enters commands e →
      finalName r commands e = e.1 ∨ finalName r commands e ∉ host.keys)
    (hperm : snippet.entries.Perm snippet'.entries) :
    ∃ s s', (reconcile r .inPlace false host snippet commands).result = .ok s ∧
      (reconcile r .inPlace false host snippet' commands).result = .ok s' ∧
      s'.table = s.table ∧ s'.warnings.Perm s.warnings ∧
      s.table.entries = host.entries.filterMap (settled r commands snippet.entries) := by
  have hind := independent_of_finalNames hs hknown hnames hfree
  have hnone : ∀ es, Independent r commands host es → (∀ e ∈ es, e ∈ snippet.entries) →
      (run r .inPlace commands host es).entries =
        host.entries.filterMap (settled r commands es) := by
    intro es hes hsub
    have hnewcomers : newcomers r commands host es = [] := newcomers_eq_nil fun e he henters =>
      hknown e (hsub e he) (enters_iff.mp henters).1
    rw [run_inPlace_of_independent hr hh hes, outline, hnewcomers, List.append_nil]
  have htable := hnone _ hind fun e he => he
  have htable' := hnone _ (hind.perm hperm) fun e he => hperm.mem_iff.mpr he
  refine ⟨_, _, reconcile_eq_run hr host snippet, reconcile_eq_run hr host snippet', ?_, ?_, htable⟩
  · rw [← settled_perm hind.apart hperm, ← htable] at htable'
    exact congrArg Table.mk htable'
  · exact hperm.symm.flatMap_right _

theorem reconcile_permuted_reversed :
    ∃ (v : Vocabulary) (host snippet snippet' : Pieces Unit) (commands : Text → Commands)
      (s s' : Reconciliation Unit),
      host.keys = [['a'], ['b'], ['c'], ['d']] ∧ snippet.keys = [['a'], ['b'], ['c']] ∧
      snippet'.keys = [['c'], ['b'], ['a']] ∧ (commands ['b']).delete ∧
      (commands ['c']).rename = some ['x'] ∧
      (reconcile v.rules .inPlace false host snippet commands).result = .ok s ∧
      (reconcile v.rules .inPlace false host snippet' commands).result = .ok s' ∧
      s'.table = s.table ∧ s'.warnings.Perm s.warnings ∧ s.table.keys = [['a'], ['x'], ['d']] ∧
      s.warnings = [.ignored "access".toList (.text ['y']) "member".toList ['a'],
        .ignored "access".toList (.text ['y']) "member".toList ['x']] := by
  let v : Vocabulary := { isName := Vocabulary.identifier.accepts, isParameter := fun _ => true }
  let piece (n : Text) : Piece Unit := { name := n, details := () }
  let host : Pieces Unit := Pieces.ofList [piece ['a'], piece ['b'], piece ['c'], piece ['d']]
  let snippet : Pieces Unit := Pieces.ofList [piece ['a'], piece ['b'], piece ['c']]
  let snippet' : Pieces Unit := ⟨snippet.entries.reverse⟩
  let commands : Text → Commands := fun n =>
    if n = ['b'] then { delete := true }
    else if n = ['c'] then { rename := some ['x'], access := some ['y'] }
      else { access := some ['y'] }
  have hknown : ∀ e ∈ snippet.entries, e.2.anonymous = false → e.1 ∈ host.keys := by decide
  have hnames :
      ((snippet.entries.filter (enters commands)).map (finalName v.rules commands)).Nodup ∧
      ∀ e ∈ snippet.entries, enters commands e →
        finalName v.rules commands e = e.1 ∨ finalName v.rules commands e ∉ host.keys := by
          decide +kernel
  have hkeys : snippet.keys.Nodup :=
    (Pieces.keyed_ofList [piece ['a'], piece ['b'], piece ['c']]).nodup
  have hperm : snippet.entries.Perm snippet'.entries := (List.reverse_perm _).symm
  obtain ⟨s, s', hs, hs', htable, hwarnings, -⟩ := reconcile_permuted v.rules_lawful
    (Pieces.keyed_ofList [piece ['a'], piece ['b'], piece ['c'], piece ['d']]).nodup hkeys hknown
      hnames.1 hnames.2
    hperm
  obtain rfl := Except.ok.inj ((reconcile_eq_run v.rules_lawful host snippet).symm.trans hs)
  exact ⟨v, host, snippet, snippet', commands, _, s', by decide, by decide, by decide, by decide,
    by decide, hs, hs', htable, hwarnings, by decide +kernel, by decide +kernel⟩

end Graft
