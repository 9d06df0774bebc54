import Graft.Proofs.Survivors

set_option autoImplicit false

/-!
Where the pieces of a reconciled table come from. A piece of the snippet stands for at most one
piece of the host, which is gone then and which no other piece stands for. That holds after one
reconciliation and after any number of them, each into the table that the one before has left.
-/

namespace Graft

variable {δ : Type}

/-- What every table reached from `host` has in common. -/
structure Provenance (host t : Pieces δ) : Prop where
  keyed : t.Keyed
  /-- A piece of the host is still the one it was. -/
  unchanged : ∀ p ∈ t.values, p.origin = .host → p ∈ host.values
  /-- What a piece of the snippet stands for was in the host and is gone. -/
  gone : ∀ q ∈ t.values, q.origin = .snippet → ∀ n, q.replaces = some n →
    ∃ g ∈ host.values, g.name = n ∧ g ∉ t.values
  /-- No two pieces stand for the same one. -/
  distinct : ∀ q ∈ t.values, ∀ q' ∈ t.values, q.origin = .snippet → q'.origin = .snippet →
    ∀ n, q.replaces = some n → q'.replaces = some n → q = q'

namespace Provenance

open Reconcile

variable {host t : Pieces δ}

theorem refl (hh : host.Keyed) (horigin : ∀ p ∈ host.values, p.origin = .host) :
    Provenance host host where
  keyed := hh
  unchanged _ hp _ := hp
  gone q hq hs := by
    rw [horigin q hq] at hs
    contradiction
  distinct q hq _ _ hs := by
    rw [horigin q hq] at hs
    contradiction

theorem of_subset (h : Provenance host t) {t' : Pieces δ} (ht' : t'.Keyed)
    (hsub : ∀ p ∈ t'.values, p ∈ t.values) : Provenance host t' where
  keyed := ht'
  unchanged p hp := h.unchanged p (hsub p hp)
  gone q hq hs n hn := by
    obtain ⟨g, hg, hgn, hgt⟩ := h.gone q (hsub q hq) hs n hn
    exact ⟨g, hg, hgn, fun hm => hgt (hsub g hm)⟩
  distinct q hq q' hq' := h.distinct q (hsub q hq) q' (hsub q' hq')

theorem nodup_replaces (h : Provenance host t) {ps : List (Piece δ)} (hsub : ps.Sublist t.values)
    (hs : ∀ q ∈ ps, ∀ n, q.replaces = some n → q.origin = .snippet) :
    (ps.filterMap (·.replaces)).Nodup := by
  have hnodup : ps.Nodup := h.keyed.values_nodup.sublist hsub
  refine List.pairwise_filterMap.mpr (hnodup.imp_of_mem ?_)
  intro q q' hq hq' hne n hn n' hn' heq
  have hn' : q'.replaces = some n := heq ▸ hn'
  exact hne
    (h.distinct q (hsub.subset hq) q' (hsub.subset hq') (hs q hq n hn) (hs q' hq' n hn') n hn hn')

end Provenance

namespace Reconcile

variable {host t : Pieces δ} {r : Rules δ} {placement : Placement} {commands : Text → Commands}

theorem replaces_adopt {base : Option (Piece δ)} {p : Piece δ} {n : Text}
    (h : (adopt base p).replaces = some n) :
    ∃ b, base = some b ∧
      ((b.origin = .host ∧ b.name = n) ∨ (b.origin = .snippet ∧ b.replaces = some n)) := by
  cases base with
  | none => simp [adopt] at h
  | some b =>
    refine ⟨b, rfl, ?_⟩
    cases ho : b.origin with
    | host => exact Or.inl ⟨rfl, by simpa [adopt, ho] using h⟩
    | snippet => exact Or.inr ⟨rfl, by simpa [adopt, ho] using h⟩

theorem mem_values_place (ht : t.Keyed) {name : Text} {p q : Piece δ}
    (hq : q ∈ (place placement t name (t.get? name) p).values) :
    q = p ∨ (q ∈ t.values ∧ q.name ≠ name) := by
  obtain ⟨⟨k, q⟩, hm, rfl⟩ := List.mem_map.mp hq
  rcases mem_place.mp hm with ⟨-, rfl⟩ | ⟨hname, -, hm⟩
  · exact Or.inl rfl
  · exact Or.inr ⟨Table.mem_values_of_mem hm, by rw [← ht.name hm]; exact hname⟩

theorem provenance_place (hh : host.Keyed) (horigin : ∀ p ∈ host.values, p.origin = .host)
    (h : Provenance host t) (name : Text) (p : Piece δ) :
    Provenance host (place placement t name (t.get? name) (adopt (t.get? name) p)) := by
  generalize ht' : place placement t name (t.get? name) (adopt (t.get? name) p) = t'
  generalize hp' : adopt (t.get? name) p = p' at ht'
  have hsnippet : p'.origin = .snippet := by rw [← hp']; rfl
  have hvalues : ∀ q ∈ t'.values, q = p' ∨ (q ∈ t.values ∧ q.name ≠ name) := by
    intro q hq
    rw [← ht'] at hq
    exact mem_values_place h.keyed hq
  have hbase : ∀ n, p'.replaces = some n → ∃ b ∈ t.values, b.name = name ∧
      ((b.origin = .host ∧ b.name = n) ∨ (b.origin = .snippet ∧ b.replaces = some n)) := by
    intro n hn
    obtain ⟨b, hb, hcases⟩ := replaces_adopt (hp' ▸ hn)
    have hm := Table.mem_of_get?_eq_some hb
    exact ⟨b, Table.mem_values_of_mem hm, (h.keyed.name hm).symm, hcases⟩
  -- what is not in the table, or is replaced, does not come back
  have hstill : ∀ g ∈ host.values, (g ∈ t.values → g.name = name) → g ∉ t'.values := by
    intro g hg hgt hm
    rcases hvalues g hm with rfl | ⟨hm, hname⟩
    · rw [horigin g hg] at hsnippet
      contradiction
    · exact hname (hgt hm)
  -- no piece that stays stands for what the new one stands for
  have hfresh : ∀ q ∈ t.values, q.origin = .snippet → q.name ≠ name →
      ∀ n, q.replaces = some n → p'.replaces ≠ some n := by
    intro q hq hs hname n hqn hn
    obtain ⟨b, hb, hbname, ⟨hbo, hbn⟩ | ⟨hbo, hbn⟩⟩ := hbase n hn
    · obtain ⟨g, hg, hgn, hgt⟩ := h.gone q hq hs n hqn
      have hgb : g = b := hh.eq_of_name_eq hg (h.unchanged b hb hbo) (hgn.trans hbn.symm)
      exact hgt (hgb ▸ hb)
    · have hqb : q = b := h.distinct q hq b hb hs hbo n hqn hbn
      exact hname (hqb ▸ hbname)
  refine ⟨ht' ▸ keyed_place h.keyed _, ?_, ?_, ?_⟩
  · intro q hq ho
    rcases hvalues q hq with rfl | ⟨hq, -⟩
    · rw [hsnippet] at ho
      contradiction
    · exact h.unchanged q hq ho
  · intro q hq hs n hn
    rcases hvalues q hq with rfl | ⟨hq, -⟩
    · obtain ⟨b, hb, hbname, ⟨hbo, hbn⟩ | ⟨hbo, hbn⟩⟩ := hbase n hn
      · exact ⟨b, h.unchanged b hb hbo, hbn, hstill b (h.unchanged b hb hbo) fun _ => hbname⟩
      · obtain ⟨g, hg, hgn, hgt⟩ := h.gone b hb hbo n hbn
        exact ⟨g, hg, hgn, hstill g hg fun hm => absurd hm hgt⟩
    · obtain ⟨g, hg, hgn, hgt⟩ := h.gone q hq hs n hn
      exact ⟨g, hg, hgn, hstill g hg fun hm => absurd hm hgt⟩
  · intro q hq q' hq' hs hs' n hn hn'
    rcases hvalues q hq with rfl | ⟨hq, hname⟩ <;> rcases hvalues q' hq' with rfl | ⟨hq', hname'⟩
    · rfl
    · exact absurd hn (hfresh q' hq' hs' hname' n hn')
    · exact absurd hn' (hfresh q hq hs hname n hn)
    · exact h.distinct q hq q' hq' hs hs' n hn hn'

theorem provenance_enter (hr : r.Lawful) (hh : host.Keyed)
    (horigin : ∀ p ∈ host.values, p.origin = .host) (h : Provenance host t) (e : Text × Piece δ) :
    Provenance host (enter r placement commands t e) := by
  by_cases he : enters commands e
  · rw [enter_eq_place hr t he]
    exact provenance_place hh horigin h e.1 _
  · refine h.of_subset (keyed_enter h.keyed e) ?_
    intro q hq
    obtain ⟨⟨k, q⟩, hm, rfl⟩ := List.mem_map.mp hq
    rcases (mem_enter hr).mp hm with ⟨hm, -⟩ | ⟨he', -⟩
    · exact Table.mem_values_of_mem hm
    · exact absurd he' he

theorem provenance_run (hr : r.Lawful) (hh : host.Keyed)
    (horigin : ∀ p ∈ host.values, p.origin = .host) (h : Provenance host t)
    (es : List (Text × Piece δ)) : Provenance host (run r placement commands t es) := by
  induction es using List.reverseRecOn with
  | nil => exact h
  | append_singleton es e ih =>
    rw [run_append]
    exact provenance_enter hr hh horigin ih e

end Reconcile

/-- One reconciliation of a session, with all that may differ from one to the next. -/
structure Round (δ : Type) where
  rules : Rules δ
  lawful : rules.Lawful
  placement : Placement
  strict : Bool
  snippet : Pieces δ
  commands : Text → Commands

namespace Round

/-- The table after a round. One that stops at a directive leaves the table as it was. -/
def apply (x : Round δ) (t : Pieces δ) : Pieces δ :=
  match (reconcile x.rules x.placement x.strict t x.snippet x.commands).result with
  | .ok s => s.table
  | .error _ => t

theorem apply_cases (x : Round δ) (t : Pieces δ) :
    x.apply t = t ∨
      x.apply t = Reconcile.run x.rules x.placement x.commands t x.snippet.entries := by
  unfold apply
  split
  · rename_i s hs
    exact Or.inr (table_of_reconcile hs)
  · exact Or.inl rfl

theorem provenance_apply {host t : Pieces δ} (hh : host.Keyed)
    (horigin : ∀ p ∈ host.values, p.origin = .host) (h : Provenance host t) (x : Round δ) :
    Provenance host (x.apply t) := by
  rcases x.apply_cases t with hx | hx
  · rw [hx]
    exact h
  · rw [hx]
    exact Reconcile.provenance_run x.lawful hh horigin h x.snippet.entries

end Round

/-- The table after some rounds, each into the table that the one before has left. -/
def session (host : Pieces δ) (rounds : List (Round δ)) : Pieces δ :=
  rounds.foldl (fun t x => x.apply t) host

theorem provenance_session {host t : Pieces δ} (hh : host.Keyed)
    (horigin : ∀ p ∈ host.values, p.origin = .host) (h : Provenance host t)
    (rounds : List (Round δ)) : Provenance host (session t rounds) := by
  induction rounds generalizing t with
  | nil => exact h
  | cons x rounds ih => exact ih (Round.provenance_apply hh horigin h x)

/-- Whatever the rounds of a session were and whichever of them failed: a piece of its table is one
of the host's own or comes from a snippet; one from a snippet stands for nothing or for a piece of
the host that is gone; and no two stand for the same one. -/
theorem session_provenance {host : Pieces δ} (hh : host.Keyed)
    (horigin : ∀ p ∈ host.values, p.origin = .host) (rounds : List (Round δ)) :
    (session host rounds).Keyed ∧
      (∀ p ∈ (session host rounds).values, p ∈ host.values ∨ p.origin = .snippet) ∧
      (∀ q ∈ (session host rounds).values, q.origin = .snippet → ∀ n, q.replaces = some n →
        ∃ g ∈ host.values, g.name = n ∧ g ∉ (session host rounds).values) ∧
      (∀ q ∈ (session host rounds).values, ∀ q' ∈ (session host rounds).values,
        q.origin = .snippet → q'.origin = .snippet →
        ∀ n, q.replaces = some n → q'.replaces = some n → q = q') ∧
      ((∀ p ∈ host.values, p.replaces = none) →
        ((session host rounds).values.filterMap (·.replaces)).Nodup) := by
  have h := provenance_session hh horigin (Provenance.refl hh horigin) rounds
  have hcases : ∀ p ∈ (session host rounds).values, p ∈ host.values ∨ p.origin = .snippet := by
    intro p hp
    cases ho : p.origin with
    | host => exact Or.inl (h.unchanged p hp ho)
    | snippet => exact Or.inr rfl
  refine ⟨h.keyed, hcases, h.gone, h.distinct, ?_⟩
  intro hnone
  refine h.nodup_replaces (List.Sublist.refl _) ?_
  intro q hq n hn
  rcases hcases q hq with hhost | hs
  · rw [hnone q hhost] at hn
    contradiction
  · exact hs

/-- `a` becomes `c`, a round with an unknown access word fails, and `c` takes the name of `b`: what
is left under that name stands for `a`. -/
theorem session_provenance_renamed :
    ∃ (host : Pieces Unit) (x y z : Round Unit) (q : Piece Unit),
      host.keys = [['a'], ['b']] ∧ (x.apply host).keys = [['c'], ['b']] ∧
      (reconcile y.rules y.placement y.strict (x.apply host) y.snippet y.commands).result.isOk =
        false ∧
      (session host [x, y, z]).entries = [(['b'], q)] ∧ q.replaces = some ['a'] ∧
      ((session host [x, y, z]).values.filterMap (·.replaces)).Nodup ∧
      ∃ g ∈ host.values, g.name = ['a'] ∧ g ∉ (session host [x, y, z]).values := by
  let v : Vocabulary := { isName := fun _ => true, isParameter := fun _ => true }
  let piece (n : Text) : Piece Unit := { name := n, details := () }
  let host : Pieces Unit := Pieces.ofList [piece ['a'], piece ['b']]
  let round (placement : Placement) (n : Text) (c : Commands) : Round Unit :=
    ⟨v.rules, v.rules_lawful, placement, true, Pieces.ofList [piece n], fun _ => c⟩
  let x := round .inPlace ['a'] { rename := some ['c'] }
  let y := round .inPlace ['b'] { access := some ['?'] }
  let z := round .moveToEnd ['c'] { rename := some ['b'] }
  let q : Piece Unit := { piece ['b'] with origin := .snippet, replaces := some ['a'] }
  have hentries : (session host [x, y, z]).entries = [(['b'], q)] := by rfl
  have hmem : q ∈ (session host [x, y, z]).values :=
    Table.mem_values_of_mem (k := ['b']) (by rw [hentries]; simp)
  obtain ⟨-, -, hgone, -, hnodup⟩ :=
    session_provenance (Pieces.keyed_ofList [piece ['a'], piece ['b']]) (by decide) [x, y, z]
  exact ⟨host, x, y, z, q, by decide, by decide, by decide, hentries, rfl, hnodup (by decide),
    hgone q hmem rfl _ rfl⟩

end Graft
