import Graft.ClassMerge
import Graft.Proofs.Kept
import Graft.Proofs.Survivors

set_option autoImplicit false

/-!
Classes merged one after the other. Each class of a snippet enters its members into one class of the
host, so what is left of that class in the end is what none of them touched; its new body is put in
place of the old one, and what is added behind it takes at most blanks away.
-/

namespace Graft

open Reconcile

namespace Text

theorem trimEnd_eq_nil_or_concat (t : Text) :
    t.trimEnd = [] ∨ ∃ u c, t.trimEnd = u ++ [c] ∧ isBlank c = false := by
  by_cases h : t.trimEnd = []
  · exact Or.inl h
  · refine Or.inr ⟨_, _, (List.dropLast_append_getLast h).symm, ?_⟩
    exact Bool.eq_false_iff.mpr (List.rdropWhile_last_not isBlank t h)

theorem infix_join (sep : Text) {t : Text} {ts : List Text} (h : t ∈ ts) : t <:+: join sep ts := by
  obtain ⟨pre, post, rfl⟩ := List.append_of_mem h
  have hhead := join_append sep t [] post
  rw [List.append_nil] at hhead
  rw [join_append_cons, hhead]
  exact (List.prefix_append t _).isInfix.trans (List.suffix_append _ _).isInfix

end Text

namespace Extraction

variable {δ : Type}

/-- The piece has no namesake behind it. -/
def Lasting (ps : List (Piece δ × Commands)) (p : Piece δ) : Prop :=
  ∃ pre c post, ps = pre ++ (p, c) :: post ∧ ∀ q ∈ post, q.1.name ≠ p.name

theorem lasting_of_getLast? {ps : List (Piece δ × Commands)} {e : Piece δ × Commands}
    (h : ps.getLast? = some e) :
    Lasting ps e.1 := by
  obtain ⟨pre, rfl⟩ := List.getLast?_eq_some_iff.mp h
  exact ⟨pre, e.2, [], rfl, by simp⟩

theorem mem_values_addAll {ps : List (Piece δ × Commands)} {p : Piece δ} :
    p ∈ (addAll {} ps).table.values ↔ Lasting ps p := by
  constructor
  · intro hp
    obtain ⟨e, he, rfl⟩ := List.mem_map.mp hp
    exact (mem_addAll.mp he).2
  · intro hp
    exact Table.mem_values_of_mem (mem_addAll.mpr ⟨rfl, hp⟩)

def touches (r : Rules δ) (x : Extraction δ) (k : Text) : Bool :=
  isTouched r x.commandsOf x.table.entries k

end Extraction

namespace Reconcile

variable {δ : Type} {r : Rules δ} {placement : Placement} {commands : Text → Commands}
  {t : Pieces δ}

/-- A piece of the host is left exactly if it was there and nothing touches its name. -/
theorem mem_run_of_host (hr : r.Lawful) {es : List (Text × Piece δ)} {k : Text} {p : Piece δ}
    (hp : p.origin = .host) :
    (k, p) ∈ (run r placement commands t es).entries ↔
      (k, p) ∈ t.entries ∧ isTouched r commands es k = false := by
  rw [mem_run hr, isTouched_eq_false_iff]
  refine ⟨?_, Or.inl⟩
  rintro (h | ⟨pre, e, -, -, hadopt⟩)
  · exact h
  · rw [hadopt] at hp
    contradiction

end Reconcile

namespace ClassMerge

variable {δ σ : Type}

theorem lookup_setTable (m : ClassMerge δ) (i j : Nat) (t : Pieces δ) :
    (m.setTable i t).tables.lookup j = if j = i then some t else m.tables.lookup j :=
  Table.lookup_put m.tables i j t

/-- The members of a class that stood with those of `base`. -/
def current (m : ClassMerge δ) (i : Nat) (base : Pieces δ) : Pieces δ :=
  (m.tables.lookup i).getD base

/-- What one class of the snippet does to a class of the host: it enters its members, or goes
elsewhere. -/
inductive Enters (r : Rules δ) (placement : Placement) (i : Nat) (base : Pieces δ)
    (m m' : ClassMerge δ) :
    Option (Extraction δ) → Prop
  | into (x : Extraction δ) (h : m'.tables.lookup i =
      some (run r placement x.commandsOf (m.current i base) x.table.entries)) :
      Enters r placement i base m m' (some x)
  | elsewhere (h : m'.tables.lookup i = m.tables.lookup i) : Enters r placement i base m m' none

section

variable {r : Rules δ} {placement : Placement} {i : Nat} {base : Pieces δ} {m m' : ClassMerge δ}
  {x : Option (Extraction δ)}

theorem enters_setTable {old t : Pieces δ} {u : Extraction δ} {j : Nat}
    (ht : t = run r placement u.commandsOf old u.table.entries)
    (hold : j = i → old = m.current i base) (ws : List Warning) :
    Enters r placement i base m ((m.setTable j t).warn ws)
      (if some j = some i then some u else none) := by
  by_cases hj : j = i
  · rw [if_pos (by rw [hj])]
    refine .into u ?_
    rw [warn, lookup_setTable, if_pos hj.symm, ht, hold hj]
  · rw [if_neg (by simpa using hj)]
    refine .elsewhere ?_
    rw [warn, lookup_setTable, if_neg (Ne.symm hj)]

theorem Enters.keyed (h : Enters r placement i base m m' x) (hm : (m.current i base).Keyed) :
    (m'.current i base).Keyed := by
  cases h with
  | into x h =>
    rw [current, h]
    exact keyed_run hm _
  | elsewhere h =>
    rw [current, h]
    exact hm

theorem Enters.mem_iff (hr : r.Lawful) (h : Enters r placement i base m m' x) {k : Text}
    {p : Piece δ} (hp : p.origin = .host) :
    (k, p) ∈ (m'.current i base).entries ↔
      (k, p) ∈ (m.current i base).entries ∧ ∀ u ∈ x, u.touches r k = false := by
  cases h with
  | into u h =>
    rw [current, h, Option.getD_some, mem_run_of_host hr hp]
    simp [Extraction.touches]
  | elsewhere h =>
    rw [current, h]
    simp [current]

theorem Enters.lookup_isSome (h : Enters r placement i base m m' x) :
    (m'.tables.lookup i).isSome ↔ (m.tables.lookup i).isSome ∨ x.isSome := by
  cases h with
  | into u h => simp [h]
  | elsewhere h => simp [h]

variable {f : ClassMerge δ → σ → Traced (ClassMerge δ)} {unit? : σ → Option (Extraction δ)}

/-- The class of the host after a snippet: `members` are those it had, `units` what was entered. -/
structure Rewritten (r : Rules δ) (members : List (Piece δ × Commands))
    (units : List (Extraction δ)) (t : Pieces δ) : Prop where
  keyed : t.Keyed
  host : ∀ e ∈ members, e.1.origin = .host
  /-- Of the host's members exactly those are left that have no namesake behind them and that no
  piece of the snippet touches. -/
  mem_iff : ∀ p, p.origin = .host →
    (p ∈ t.values ↔ Extraction.Lasting members p ∧ ∀ u ∈ units, u.touches r p.name = false)

theorem foldlM_spec (hr : r.Lawful)
    (hstep : ∀ m a m', (f m a).result = .ok m' → Enters r placement i base m m' (unit? a))
    {as : List σ} (h : (as.foldlM f m).result = .ok m') (hkeyed : (m.current i base).Keyed) :
    (m'.current i base).Keyed ∧
      ((m'.tables.lookup i).isSome ↔ (m.tables.lookup i).isSome ∨ as.filterMap unit? ≠ []) ∧
      ∀ k p, p.origin = .host → ((k, p) ∈ (m'.current i base).entries ↔
        (k, p) ∈ (m.current i base).entries ∧ ∀ u ∈ as.filterMap unit?, u.touches r k = false) := by
  induction as generalizing m with
  | nil =>
    obtain rfl := Except.ok.inj h
    exact ⟨hkeyed, by simp, by simp⟩
  | cons a as ih =>
    rw [List.foldlM_cons, Traced.result_bind] at h
    obtain ⟨m₁, hfirst, h⟩ := Traced.exists_of_bind h
    have henters := hstep m a m₁ hfirst
    obtain ⟨hkeyed', hsome, hmem⟩ := ih h (henters.keyed hkeyed)
    refine ⟨hkeyed', ?_, fun k p hp => ?_⟩
    · rw [hsome, henters.lookup_isSome, List.filterMap_cons]
      cases unit? a <;> simp
    · rw [hmem k p hp, henters.mem_iff hr hp, List.filterMap_cons]
      cases unit? a <;> simp [and_assoc]

theorem exists_rewritten (hr : r.Lawful) {members : List (Piece δ × Commands)}
    (hstep : ∀ m a m', (f m a).result = .ok m' →
      Enters r placement i (Extraction.addAll {} members).table m m' (unit? a)) {as : List σ}
    (hhost : ∀ e ∈ members, e.1.origin = .host) (h : (as.foldlM f m).result = .ok m')
    (hstart : m.tables = []) (hinto : as.filterMap unit? ≠ []) :
    ∃ t, m'.tables.lookup i = some t ∧ Rewritten r members (as.filterMap unit?) t := by
  have hcurrent : m.current i (Extraction.addAll {} members).table =
      (Extraction.addAll {} members).table := by
    simp [current, hstart]
  have hbase : (Extraction.addAll {} members).table.Keyed :=
    Extraction.keyed_addAll Pieces.keyed_empty members
  obtain ⟨hkeyed, hsome, hmem⟩ := foldlM_spec hr hstep h (by rw [hcurrent]; exact hbase)
  obtain ⟨t, ht⟩ := Option.isSome_iff_exists.mp (hsome.mpr (Or.inr hinto))
  have hnow : m'.current i (Extraction.addAll {} members).table = t := by simp [current, ht]
  rw [hnow] at hkeyed hmem
  refine ⟨t, ht, hkeyed, hhost, fun p hp => ?_⟩
  have hentry : ∀ {u : Pieces δ}, u.Keyed → (p ∈ u.values ↔ (p.name, p) ∈ u.entries) := fun hu =>
    ⟨hu.mem_entries, Table.mem_values_of_mem⟩
  rw [hentry hkeyed, hmem _ _ hp, hcurrent, ← hentry hbase, Extraction.mem_values_addAll]

end

theorem isIdle_eq_false {m : ClassMerge δ} {i : Nat} {t : Pieces δ}
    (h : m.tables.lookup i = some t) :
    m.isIdle = false := by
  rw [isIdle, Bool.and_eq_false_iff, List.isEmpty_eq_false_iff]
  left
  intro hnil
  simp [hnil] at h

theorem infix_replaceFrom {source : Text} {rs : List Replacement} {r : Replacement} (hr : r ∈ rs)
    (cursor : Nat) : r.text <:+: replaceFrom source cursor rs := by
  induction rs generalizing cursor with
  | nil => simp at hr
  | cons x rs ih =>
    rw [replaceFrom]
    rcases List.mem_cons.mp hr with rfl | hr
    · exact ⟨source.slice cursor r.start, _, rfl⟩
    · exact (ih hr x.stop).trans (List.suffix_append _ _).isInfix

theorem trimEnd_prefix_addClass (separator t added : Text) :
    t.trimEnd <+: addClass separator t added := by
  simp only [addClass, List.append_assoc]
  exact List.prefix_append _ _

theorem infix_foldl_addClass (separator : Text) {u t : Text} (h : u.trimEnd <:+: t)
    (added : List Text) :
    u.trimEnd <:+: added.foldl (addClass separator) t := by
  rcases Text.trimEnd_eq_nil_or_concat u with hnil | ⟨v, c, heq, hc⟩
  · rw [hnil]
    exact List.nil_infix
  · rw [heq] at h ⊢
    induction added generalizing t with
    | nil => exact h
    | cons a added ih =>
      exact ih ((Text.infix_dropLastWhile hc h).trans
        (trimEnd_prefix_addClass separator t a).isInfix)

end ClassMerge

end Graft
