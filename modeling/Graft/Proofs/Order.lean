import Graft.Proofs.Provenance

set_option autoImplicit false

/-!
The order of a reconciled table. What is left of the host keeps its order under either placement.
Moved to the end, the pieces of the snippet follow in the order of the snippet; in place, each
stands where the piece stood that it stands for, and only what stands for nothing comes after.
-/

namespace Graft

namespace Reconcile

variable {δ : Type} {r : Rules δ} {placement : Placement} {commands : Text → Commands}
  {host t : Pieces δ}

/-- The entries of the host that no piece of the snippet touches, in the order of the host. -/
def untouched (r : Rules δ) (commands : Text → Commands) (host : Pieces δ)
    (es : List (Text × Piece δ)) : List (Text × Piece δ) :=
  host.entries.filter fun e => !isTouched r commands es e.1

theorem isTouched_append (es : List (Text × Piece δ)) (e : Text × Piece δ) (k : Text) :
    isTouched r commands (es ++ [e]) k = (isTouched r commands es k || touches r commands e k) := by
  simp [isTouched]

theorem untouched_append (es : List (Text × Piece δ)) (e : Text × Piece δ) :
    untouched r commands host (es ++ [e]) =
      (untouched r commands host es).filter fun x => !touches r commands e x.1 := by
  rw [untouched, untouched, List.filter_filter]
  congr 1
  funext x
  rw [isTouched_append, Bool.not_or, Bool.and_comm]

theorem not_touches_of_enters {e : Text × Piece δ} (he : enters commands e) (k : Text) :
    (!touches r commands e k) = (k != e.1 && k != finalName r commands e) := by
  obtain ⟨hanon, hdel⟩ := enters_iff.mp he
  simp only [touches, hanon, hdel]
  grind

theorem filter_place {q : Text × Piece δ → Bool} {name : Text} {base : Option (Piece δ)}
    {p : Piece δ} (hp : q (p.name, p) = false) :
    (place placement t name base p).entries.filter q =
      (t.entries.filter q).filter fun e => e.1 != name && e.1 != p.name := by
  unfold place
  split
  · exact Table.filter_putInPlace hp
  · simp only [Table.putLast, Table.erase, List.filter_append, List.filter_filter]
    rw [List.filter_cons_of_neg (by simp [hp]), List.filter_nil, List.append_nil]
    congr 1
    funext e
    grind

theorem enter_of_not_enters {e : Text × Piece δ} (he : ¬enters commands e) :
    (enter r placement commands t e).entries =
      t.entries.filter fun x => !touches r commands e x.1 := by
  by_cases hanon : e.2.anonymous
  · simp [enter, touches, hanon]
  · have hanon : e.2.anonymous = false := by simpa using hanon
    have hdel : (commands e.1).delete = true := by simpa [enters, hanon] using he
    have hgone : enter r placement commands t e = t.erase e.1 := by simp [enter, hanon, hdel]
    rw [hgone]
    apply List.filter_congr
    intro x _
    simp only [touches, hanon, hdel]
    grind

theorem filter_enter (hr : r.Lawful) (t : Pieces δ) (e : Text × Piece δ) :
    (enter r placement commands t e).entries.filter (·.2.origin = .host) =
      (t.entries.filter (·.2.origin = .host)).filter fun x => !touches r commands e x.1 := by
  by_cases he : enters commands e
  · have hname : (adopt (t.get? e.1) (outcome r commands e)).name = finalName r commands e :=
      outcome_name hr e
    rw [enter_eq_place hr t he, filter_place (by rfl), hname]
    simp only [not_touches_of_enters he]
  · rw [enter_of_not_enters he, List.filter_filter, List.filter_filter]
    simp only [Bool.and_comm]

theorem filter_run (hr : r.Lawful) (horigin : ∀ p ∈ host.values, p.origin = .host)
    (es : List (Text × Piece δ)) :
    (run r placement commands host es).entries.filter (·.2.origin = .host) =
      untouched r commands host es := by
  induction es using List.reverseRecOn with
  | nil =>
    apply List.filter_congr
    intro e he
    simpa [isTouched] using horigin e.2 (Table.mem_values_of_mem he)
  | append_singleton es e ih => rw [run_append, filter_enter hr, ih, untouched_append]

theorem entries_enter_moveToEnd (hr : r.Lawful) (t : Pieces δ) (e : Text × Piece δ) :
    (enter r .moveToEnd commands t e).entries =
      (t.entries.filter fun x => !touches r commands e x.1) ++
        if enters commands e then
          [(finalName r commands e, adopt (t.get? e.1) (outcome r commands e))]
        else [] := by
  by_cases he : enters commands e
  · have hname : (adopt (t.get? e.1) (outcome r commands e)).name = finalName r commands e :=
      outcome_name hr e
    rw [enter_eq_place hr t he, if_pos he]
    simp only [place, Table.putLast, Table.erase, List.filter_filter, hname,
      not_touches_of_enters he]
    grind
  · rw [enter_of_not_enters he, if_neg he, List.append_nil]

theorem survivors_append (hr : r.Lawful) (es : List (Text × Piece δ)) (e : Text × Piece δ) :
    survivors r commands (es ++ [e]) =
      ((survivors r commands es).filter fun p => !touches r commands e p.name) ++
        if enters commands e then [outcome r commands e] else [] := by
  induction es with
  | nil => simp [survivors, isTouched]
  | cons x es ih =>
    simp only [List.cons_append, survivors, isTouched_append, Bool.not_or, ← Bool.and_assoc, ih]
    cases enters commands x && !isTouched r commands es (finalName r commands x) with
    | false => simp
    | true =>
      cases ht : touches r commands e (finalName r commands x) <;> simp [outcome_name hr, ht]

/-- Moved to the end, the pieces of the snippet that last follow what is left of the host, in the
order of the snippet; only what they stand for is not said here. -/
theorem run_moveToEnd (hr : r.Lawful) (host : Pieces δ) (es : List (Text × Piece δ)) :
    ∃ fresh, (run r .moveToEnd commands host es).entries = untouched r commands host es ++ fresh ∧
      fresh.map (fun e => (e.1, { e.2 with replaces := none })) =
        (survivors r commands es).map fun p => (p.name, adopt none p) := by
  induction es using List.reverseRecOn with
  | nil => exact ⟨[], by simp [run, untouched, isTouched], rfl⟩
  | append_singleton es e ih =>
    obtain ⟨fresh, hrun, hfresh⟩ := ih
    have hentries : (enter r .moveToEnd commands (run r .moveToEnd commands host es) e).entries =
        _ :=
      entries_enter_moveToEnd hr _ e
    rw [← run_append, hrun, List.filter_append, List.append_assoc, ← untouched_append] at hentries
    refine ⟨_, hentries, ?_⟩
    -- What is filtered by its key can be filtered before or after the rest is forgotten.
    have hfilter : (fresh.filter fun x => !touches r commands e x.1).map
          (fun e => (e.1, { e.2 with replaces := none })) =
        ((survivors r commands es).filter fun p => !touches r commands e p.name).map
          fun p => (p.name, adopt none p) := by
      have hkeys := congrArg (List.filter fun x => !touches r commands e x.1) hfresh
      rwa [List.filter_map, List.filter_map] at hkeys
    rw [List.map_append, survivors_append hr, List.map_append, hfilter]
    split <;> simp [outcome_name hr, adopt]

/-- Where the piece of the host stands that an entry is or stands for. -/
def slot? (host : Pieces δ) (p : Piece δ) : Option Nat :=
  match p.origin with
  | .host => host.keys.idxOf? p.name
  | .snippet => p.replaces.bind host.keys.idxOf?

/-- Slots from left to right, and after them what has none. -/
def Before : Option Nat → Option Nat → Prop
  | some i, some j => i < j
  | none, some _ => False
  | _, none => True

theorem before_none (i : Option Nat) : Before i none := by
  cases i <;> trivial

theorem slot_adopt (base : Option (Piece δ)) (p : Piece δ) :
    slot? host (adopt base p) = base.bind (slot? host) := by
  cases base with
  | none => rfl
  | some b => cases ho : b.origin <;> simp [slot?, adopt, ho]

theorem slot_eq_none_iff (hh : host.Keyed) (h : Provenance host t) {p : Piece δ}
    (hp : p ∈ t.values) :
    slot? host p = none ↔ p.origin = .snippet ∧ p.replaces = none := by
  have hkey : ∀ g ∈ host.values, g.name ∈ host.keys :=
    fun g hg => Table.mem_keys_of_mem (hh.mem_entries hg)
  cases ho : p.origin with
  | host => simp [slot?, ho, List.idxOf?_eq_none_iff, hkey p (h.unchanged p hp ho)]
  | snippet =>
    cases hn : p.replaces with
    | none => simp [slot?, ho, hn]
    | some n =>
      obtain ⟨g, hg, rfl, -⟩ := h.gone p hp ho n hn
      simp [slot?, ho, hn, List.idxOf?_eq_none_iff, hkey g hg]

theorem pairwise_slots_host (hh : host.Keyed) (horigin : ∀ p ∈ host.values, p.origin = .host) :
    (host.values.map (slot? host)).Pairwise Before := by
  have hslots : host.values.map (slot? host) = host.keys.map host.keys.idxOf? := by
    rw [← hh.names, List.map_map, hh.names]
    apply List.map_congr_left
    intro p hp
    simp [slot?, horigin p hp]
  have hslot : ∀ i (hi : i < host.keys.length), host.keys.idxOf? host.keys[i] = some i := by
    intro i hi
    refine List.idxOf?_eq_some_iff.mpr ⟨hi, rfl, ?_⟩
    intro j hj heq
    exact absurd ((List.Nodup.getElem_inj_iff hh.nodup).mp heq) (by omega)
  rw [hslots, List.pairwise_iff_getElem]
  intro i j hi hj hlt
  rw [List.length_map] at hi hj
  rw [List.getElem_map, List.getElem_map, hslot i hi, hslot j hj]
  exact hlt

theorem pairwise_slots_enter (hr : r.Lawful) (ht : t.Keyed)
    (h : (t.values.map (slot? host)).Pairwise Before) (e : Text × Piece δ) :
    ((enter r .inPlace commands t e).values.map (slot? host)).Pairwise Before := by
  by_cases he : enters commands e
  · rw [enter_eq_place hr t he, place]
    cases hbase : t.get? e.1 with
    | none =>
      have hrest : ((t.erase e.1).erase (outcome r commands e).name).values.Sublist t.values :=
        (List.filter_sublist.trans List.filter_sublist).map _
      simp only [Option.isSome_none, Bool.false_and, Bool.false_eq_true, if_false]
      rw [Table.putLast, Table.values, List.map_append, List.map_append, List.pairwise_append]
      refine ⟨h.sublist (hrest.map _), List.pairwise_singleton _ _, ?_⟩
      intro i _ j hj
      have hj : j = none := by simpa [slot_adopt] using hj
      rw [hj]
      exact before_none i
    | some b =>
      simp only [Option.isSome_some, Bool.true_and, decide_true, if_true]
      refine h.sublist (Table.map_putInPlace_sublist ?_)
      intro v hv
      rw [slot_adopt, Option.bind_some]
      exact congrArg _ (Table.eq_of_mem_of_mem ht.nodup (Table.mem_of_get?_eq_some hbase) hv)
  · refine h.sublist (List.Sublist.map _ ?_)
    rw [Table.values, enter_of_not_enters he]
    exact List.filter_sublist.map _

theorem pairwise_slots_run (hr : r.Lawful) (hh : host.Keyed)
    (horigin : ∀ p ∈ host.values, p.origin = .host) (es : List (Text × Piece δ)) :
    ((run r .inPlace commands host es).values.map (slot? host)).Pairwise Before := by
  induction es using List.reverseRecOn with
  | nil => exact pairwise_slots_host hh horigin
  | append_singleton es e ih =>
    rw [run_append]
    exact pairwise_slots_enter hr (keyed_run hh es) ih e

theorem exists_append_of_pairwise {α : Type} {slot : α → Option Nat} {l : List α}
    (h : (l.map slot).Pairwise Before) :
    ∃ (slotted rest : List α) (slots : List Nat), l = slotted ++ rest ∧
      slotted.map slot = slots.map some ∧ slots.Pairwise (· < ·) ∧ ∀ x ∈ rest, slot x = none := by
  induction l with
  | nil => exact ⟨[], [], [], rfl, rfl, List.Pairwise.nil, by simp⟩
  | cons x l ih =>
    rw [List.map_cons, List.pairwise_cons] at h
    obtain ⟨hfirst, hl⟩ := h
    cases hx : slot x with
    | none =>
      refine ⟨[], x :: l, [], rfl, rfl, List.Pairwise.nil, ?_⟩
      intro y hy
      rcases List.mem_cons.mp hy with rfl | hy
      · exact hx
      · have hbefore := hfirst _ (List.mem_map_of_mem hy)
        rw [hx] at hbefore
        cases hy : slot y with
        | none => rfl
        | some j => simp [hy, Before] at hbefore
    | some i =>
      obtain ⟨slotted, rest, slots, rfl, hslots, hlt, hrest⟩ := ih hl
      refine ⟨x :: slotted, rest, i :: slots, rfl, by simp [hx, hslots], ?_, hrest⟩
      refine List.pairwise_cons.mpr ⟨?_, hlt⟩
      intro j hj
      have hmem : some j ∈ (slotted ++ rest).map slot := by
        rw [List.map_append, hslots]
        simp [hj]
      have hbefore := hfirst _ hmem
      rwa [hx] at hbefore

end Reconcile

open Reconcile

variable {δ : Type}

/-- A lenient run always ends, and a strict one that ends has the same table. In it, what is left of
the host is what no piece of the snippet touches, in the order of the host. Moved to the end, the
pieces of the snippet that last come after all of it, in the order of the snippet. In place, what is
left of the host and what stands for one of its pieces come first, in the order of the slots, no
slot twice; and after them what stands for nothing. -/
theorem reconcile_order {r : Rules δ} (hr : r.Lawful) (placement : Placement) {host : Pieces δ}
    (hh : host.Keyed) (horigin : ∀ p ∈ host.values, p.origin = .host) (snippet : Pieces δ)
    (commands : Text → Commands) :
    ∃ s, (reconcile r placement false host snippet commands).result = .ok s ∧
      (∀ s', (reconcile r placement true host snippet commands).result = .ok s' →
        s'.table = s.table) ∧
      s.table.entries.filter (·.2.origin = .host) = untouched r commands host snippet.entries ∧
      match placement with
      | .moveToEnd =>
        ∃ fresh, s.table.entries = untouched r commands host snippet.entries ++ fresh ∧
          fresh.map (fun e => (e.1, { e.2 with replaces := none })) =
            (survivors r commands snippet.entries).map fun p => (p.name, adopt none p)
      | .inPlace =>
        ∃ (slotted fresh : List (Text × Piece δ)) (slots : List Nat),
          s.table.entries = slotted ++ fresh ∧
            slotted.map (fun e => slot? host e.2) = slots.map some ∧ slots.Pairwise (· < ·) ∧
            ∀ e ∈ fresh, slot? host e.2 = none ∧ e.2.origin = .snippet ∧ e.2.replaces = none := by
  obtain ⟨s, hs⟩ : ∃ s, (reconcile r placement false host snippet commands).result = .ok s :=
    ⟨_, reconcile_lenient⟩
  have htable : s.table = run r placement commands host snippet.entries := table_of_reconcile hs
  refine ⟨s, hs, fun s' hs' => (table_of_reconcile hs').trans htable.symm, ?_, ?_⟩
  · rw [htable]
    exact filter_run hr horigin snippet.entries
  · rw [htable]
    cases placement with
    | moveToEnd => exact run_moveToEnd hr host snippet.entries
    | inPlace =>
      have hprov : Provenance host (run r .inPlace commands host snippet.entries) :=
        provenance_run hr hh horigin (Provenance.refl hh horigin) snippet.entries
      have hslots :
          ((run r .inPlace commands host snippet.entries).values.map (slot? host)).Pairwise
          Before := pairwise_slots_run hr hh horigin snippet.entries
      rw [Table.values, List.map_map] at hslots
      obtain ⟨slotted, fresh, slots, heq, hmap, hlt, hfresh⟩ := exists_append_of_pairwise hslots
      refine ⟨slotted, fresh, slots, heq, hmap, hlt, ?_⟩
      intro e he
      have hmem : e.2 ∈ (run r .inPlace commands host snippet.entries).values :=
        Table.mem_values_of_mem (k := e.1) (by rw [heq]; simp [he])
      exact ⟨hfresh e he, (slot_eq_none_iff hh hprov hmem).mp (hfresh e he)⟩

/-- `c` takes the name of `a` and `n` is new: `a` itself is dropped, `b` and what stands for `c`
keep their slots, and `n` comes last. -/
theorem reconcile_order_renamed :
    ∃ (v : Vocabulary) (host snippet : Pieces Unit) (commands : Text → Commands)
      (s : Reconciliation Unit) (slotted fresh : List (Text × Piece Unit)),
      host.keys = [['a'], ['b'], ['c']] ∧ snippet.keys = [['n'], ['c']] ∧
      (reconcile v.rules .inPlace false host snippet commands).result = .ok s ∧
      s.table.keys = [['b'], ['a'], ['n']] ∧ s.table.entries = slotted ++ fresh ∧
      s.table.values.map (slot? host) = [some 1, some 2, none] ∧
      ∀ e ∈ fresh, e.2.replaces = none := by
  let v : Vocabulary := { isName := fun _ => true, isParameter := fun _ => true }
  let piece (n : Text) : Piece Unit := { name := n, details := () }
  let host : Pieces Unit := Pieces.ofList [piece ['a'], piece ['b'], piece ['c']]
  let snippet : Pieces Unit := Pieces.ofList [piece ['n'], piece ['c']]
  let commands : Text → Commands := fun n => if n = ['c'] then { rename := some ['a'] } else {}
  obtain ⟨s, hs, -, -, slotted, fresh, slots, heq, -, -, hfresh⟩ :=
    reconcile_order v.rules_lawful .inPlace
      (Pieces.keyed_ofList [piece ['a'], piece ['b'], piece ['c']])
      (by decide) snippet commands
  have htable : s.table = run v.rules .inPlace commands host snippet.entries :=
    table_of_reconcile hs
  refine ⟨v, host, snippet, commands, s, slotted, fresh, by decide, by decide, hs, ?_, heq, ?_, ?_⟩
  · rw [htable]
    decide
  · rw [htable]
    decide
  · exact fun e he => (hfresh e he).2.2

end Graft
