import Graft.Proofs.Reconcile

set_option autoImplicit false

/-!
Who survives a reconciliation. A piece of the snippet touches the name it is written under and,
unless it is a deletion, the name it ends up with. An entry of the host survives if nothing touches
its name, a piece of the snippet if nothing later touches the name it ended up with.
-/

namespace Graft

namespace Reconcile

variable {δ : Type} {e x : Text × Piece δ} {host : Pieces δ} {es pre : List (Text × Piece δ)}

/-- A piece that is entered into the table: it has a name and is not marked for deletion. -/
def enters (commands : Text → Commands) (e : Text × Piece δ) : Bool :=
  !e.2.anonymous && !(commands e.1).delete

/-- The name a piece of the snippet ends up with. -/
def finalName (r : Rules δ) (commands : Text → Commands) (e : Text × Piece δ) : Text :=
  (named r e.2 (commands e.1)).1.name

/-- The piece with all its directives carried out. -/
def outcome (r : Rules δ) (commands : Text → Commands) (e : Text × Piece δ) : Piece δ :=
  (applyCommands r e.2 (commands e.1)).1

/-- Whatever stood under `k` is gone after this piece of the snippet. -/
def touches (r : Rules δ) (commands : Text → Commands) (e : Text × Piece δ) (k : Text) : Bool :=
  !e.2.anonymous && (e.1 == k || (!(commands e.1).delete && finalName r commands e == k))

section

variable {t : Pieces δ} {name k : Text} {p q : Piece δ} {placement : Placement}

theorem mem_place :
    (k, q) ∈ (place placement t name (t.get? name) p).entries ↔
      (k = p.name ∧ q = p) ∨ (k ≠ name ∧ k ≠ p.name ∧ (k, q) ∈ t.entries) := by
  unfold place
  split
  · rename_i h
    simp only [Bool.and_eq_true] at h
    exact Table.mem_putInPlace (Table.get?_isSome_iff.mp h.1)
  · rw [Table.mem_putLast, Table.mem_erase]
    tauto

theorem keyed_place (ht : t.Keyed) (base : Option (Piece δ)) :
    Pieces.Keyed (place placement t name base p) := by
  unfold place
  split
  · rename_i h
    refine ⟨Table.nodup_keys_putInPlace ht.nodup, ?_⟩
    intro k q hm
    simp only [Table.putInPlace, List.mem_filterMap] at hm
    obtain ⟨e, he, hf⟩ := hm
    by_cases hold : e.1 = name
    · simp only [hold, beq_self_eq_true, if_true, Option.some.injEq, Prod.mk.injEq] at hf
      rw [← hf.1, ← hf.2]
    · by_cases hnew : e.1 = p.name
      · rw [hnew] at hold
        simp [hnew, hold] at hf
      · simp only [beq_iff_eq, hold, hnew, if_false, Option.some.injEq] at hf
        exact ht.name (hf ▸ he)
  · refine ⟨Table.nodup_keys_putLast (Table.nodup_keys_erase ht.nodup), ?_⟩
    intro k q hm
    obtain ⟨rfl, rfl⟩ | ⟨-, hm⟩ := Table.mem_putLast.mp hm
    · rfl
    · exact ht.name (Table.mem_erase.mp hm).1

end

variable {r : Rules δ} {placement : Placement} {commands : Text → Commands}

theorem enters_iff : enters commands e ↔ e.2.anonymous = false ∧ (commands e.1).delete = false := by
  simp [enters]

theorem touches_eq_false_iff {k : Text} (hanon : e.2.anonymous = false) :
    touches r commands e k = false ↔
      k ≠ e.1 ∧ ((commands e.1).delete = false → k ≠ finalName r commands e) := by
  cases hdel : (commands e.1).delete <;> simp only [touches, hanon, hdel] <;> grind

theorem outcome_name (hr : r.Lawful) (e : Text × Piece δ) :
    (outcome r commands e).name = finalName r commands e :=
  applyCommands_name hr e.2 (commands e.1)

theorem enter_eq_place (hr : r.Lawful) (t : Pieces δ) (he : enters commands e) :
    enter r placement commands t e =
      place placement t e.1 (t.get? e.1) (adopt (t.get? e.1) (outcome r commands e)) := by
  obtain ⟨hanon, hdel⟩ := enters_iff.mp he
  simp only [enter, hanon, hdel, Bool.false_eq_true, if_false, applyCommands_adopt hr]
  rfl

theorem keyed_enter {t : Pieces δ} (ht : t.Keyed) (e : Text × Piece δ) :
    Pieces.Keyed (enter r placement commands t e) := by
  unfold enter
  split
  · exact ht
  · split
    · exact ⟨Table.nodup_keys_erase ht.nodup, fun hm => ht.name (Table.mem_erase.mp hm).1⟩
    · exact keyed_place ht _

theorem nodup_keys_enter {t : Pieces δ} (ht : t.keys.Nodup) (e : Text × Piece δ) :
    (enter r placement commands t e).keys.Nodup := by
  unfold enter
  split
  · exact ht
  · split
    · exact Table.nodup_keys_erase ht
    · unfold place
      split
      · exact Table.nodup_keys_putInPlace ht
      · exact Table.nodup_keys_putLast (Table.nodup_keys_erase ht)

theorem mem_enter (hr : r.Lawful) {t : Pieces δ} {k : Text} {q : Piece δ} :
    (k, q) ∈ (enter r placement commands t e).entries ↔
      ((k, q) ∈ t.entries ∧ touches r commands e k = false) ∨
        (enters commands e ∧ k = finalName r commands e ∧
          q = adopt (t.get? e.1) (outcome r commands e)) := by
  by_cases hanon : e.2.anonymous
  · simp [enter, touches, enters, hanon]
  · have hanon : e.2.anonymous = false := by simpa using hanon
    by_cases hdel : (commands e.1).delete
    · simp [enter, touches_eq_false_iff hanon, enters, hanon, hdel, Table.mem_erase]
    · have hdel : (commands e.1).delete = false := by simpa using hdel
      have he : enters commands e := enters_iff.mpr ⟨hanon, hdel⟩
      have hname : (adopt (t.get? e.1) (outcome r commands e)).name = finalName r commands e :=
        outcome_name hr e
      rw [enter_eq_place hr t he, mem_place, hname, touches_eq_false_iff hanon]
      simp only [he, hdel, true_and, forall_const]
      tauto

def run (r : Rules δ) (placement : Placement) (commands : Text → Commands) (host : Pieces δ)
    (es : List (Text × Piece δ)) : Pieces δ :=
  es.foldl (enter r placement commands) host

theorem run_append (host : Pieces δ) (es : List (Text × Piece δ)) (e : Text × Piece δ) :
    run r placement commands host (es ++ [e]) =
      enter r placement commands (run r placement commands host es) e := by
  simp [run]

theorem keyed_run (hh : host.Keyed) (es : List (Text × Piece δ)) :
    Pieces.Keyed (run r placement commands host es) := by
  induction es using List.reverseRecOn with
  | nil => exact hh
  | append_singleton es e ih =>
    rw [run_append]
    exact keyed_enter ih e

theorem nodup_keys_run (hh : host.keys.Nodup) (es : List (Text × Piece δ)) :
    (run r placement commands host es).keys.Nodup := by
  induction es using List.reverseRecOn with
  | nil => exact hh
  | append_singleton es e ih =>
    rw [run_append]
    exact nodup_keys_enter ih e

/-- `e` is entered at this point of the snippet, and nothing after it touches its final name. -/
structure Lasts (r : Rules δ) (commands : Text → Commands) (es pre : List (Text × Piece δ))
    (e : Text × Piece δ) : Prop where
  enters : enters commands e
  untouched : ∃ post, es = pre ++ e :: post ∧
    ∀ e' ∈ post, touches r commands e' (finalName r commands e) = false

theorem lasts_append_iff :
    Lasts r commands (es ++ [x]) pre e ↔
      (Lasts r commands es pre e ∧ touches r commands x (finalName r commands e) = false) ∨
        (pre = es ∧ e = x ∧ Reconcile.enters commands e) := by
  constructor
  · rintro ⟨he, post, heq, hpost⟩
    cases post using List.reverseRecOn with
    | nil =>
      obtain ⟨h₁, h₂⟩ := List.append_inj' heq rfl
      obtain rfl : x = e := by simpa using h₂
      exact Or.inr ⟨h₁.symm, rfl, he⟩
    | append_singleton post y =>
      have hsplit : es ++ [x] = (pre ++ e :: post) ++ [y] := by simpa using heq
      obtain ⟨h₁, h₂⟩ := List.append_inj' hsplit rfl
      obtain rfl : x = y := by simpa using h₂
      refine Or.inl ⟨⟨he, post, h₁, fun e' h' => hpost e' (by simp [h'])⟩, hpost x (by simp)⟩
  · rintro (⟨⟨he, post, heq, hpost⟩, hx⟩ | ⟨rfl, rfl, he⟩)
    · refine ⟨he, post ++ [x], by simp [heq], ?_⟩
      intro e' h'
      rcases List.mem_append.mp h' with h' | h'
      · exact hpost e' h'
      · rw [List.mem_singleton.mp h']
        exact hx
    · exact ⟨he, [], rfl, by simp⟩

theorem mem_run (hr : r.Lawful) (es : List (Text × Piece δ)) {k : Text} {q : Piece δ} :
    (k, q) ∈ (run r placement commands host es).entries ↔
      ((k, q) ∈ host.entries ∧ ∀ e ∈ es, touches r commands e k = false) ∨
        ∃ pre e, Lasts r commands es pre e ∧ k = finalName r commands e ∧
          q = adopt ((run r placement commands host pre).get? e.1) (outcome r commands e) := by
  -- On the pieces entered so far: the last one spares what it does not touch.
  induction es using List.reverseRecOn with
  | nil =>
    have hnone : ∀ pre e, ¬Lasts r commands [] pre e := by
      rintro pre e ⟨-, post, heq, -⟩
      simp at heq
    simp [run, hnone]
  | append_singleton es x ih =>
    rw [run_append, mem_enter hr, ih]
    constructor
    · rintro (⟨⟨hmem, hes⟩ | ⟨pre, e, hlast, hk, hq⟩, hx⟩ | ⟨hx, hk, hq⟩)
      · refine Or.inl ⟨hmem, ?_⟩
        intro e he
        rcases List.mem_append.mp he with he | he
        · exact hes e he
        · rw [List.mem_singleton.mp he]
          exact hx
      · exact Or.inr ⟨pre, e, lasts_append_iff.mpr (Or.inl ⟨hlast, hk ▸ hx⟩), hk, hq⟩
      · exact Or.inr ⟨es, x, lasts_append_iff.mpr (Or.inr ⟨rfl, rfl, hx⟩), hk, hq⟩
    · rintro (⟨hmem, hes⟩ | ⟨pre, e, hlast, hk, hq⟩)
      · exact Or.inl ⟨Or.inl ⟨hmem, fun e he => hes e (by simp [he])⟩, hes x (by simp)⟩
      · rcases lasts_append_iff.mp hlast with ⟨hlast, hx⟩ | ⟨rfl, rfl, hx⟩
        · exact Or.inl ⟨Or.inr ⟨pre, e, hlast, hk, hq⟩, hk ▸ hx⟩
        · exact Or.inr ⟨hx, hk, hq⟩

def isTouched (r : Rules δ) (commands : Text → Commands) (es : List (Text × Piece δ))
    (k : Text) : Bool :=
  es.any (touches r commands · k)

/-- The pieces of the snippet that last to the end, with their directives carried out. -/
def survivors (r : Rules δ) (commands : Text → Commands) : List (Text × Piece δ) → List (Piece δ)
  | [] => []
  | e :: es =>
    if enters commands e && !isTouched r commands es (finalName r commands e) then
      outcome r commands e :: survivors r commands es
    else survivors r commands es

theorem isTouched_eq_false_iff {k : Text} :
    isTouched r commands es k = false ↔ ∀ e ∈ es, touches r commands e k = false := by
  simp [isTouched]

theorem lasts_cons_iff :
    Lasts r commands (x :: es) pre e ↔
      (pre = [] ∧ e = x ∧ Reconcile.enters commands e ∧
        isTouched r commands es (finalName r commands e) = false) ∨
        ∃ pre', pre = x :: pre' ∧ Lasts r commands es pre' e := by
  rw [isTouched_eq_false_iff]
  constructor
  · rintro ⟨he, post, heq, hpost⟩
    cases pre with
    | nil =>
      obtain ⟨rfl, rfl⟩ := List.cons.inj heq
      exact Or.inl ⟨rfl, rfl, he, hpost⟩
    | cons y pre =>
      obtain ⟨rfl, rfl⟩ := List.cons.inj heq
      exact Or.inr ⟨pre, rfl, he, post, rfl, hpost⟩
  · rintro (⟨rfl, rfl, he, hes⟩ | ⟨pre, rfl, he, post, rfl, hpost⟩)
    · exact ⟨he, es, rfl, hes⟩
    · exact ⟨he, post, rfl, hpost⟩

theorem mem_survivors {p : Piece δ} :
    p ∈ survivors r commands es ↔ ∃ pre e,
      Lasts r commands es pre e ∧ p = outcome r commands e := by
  induction es with
  | nil =>
    simp only [survivors, List.not_mem_nil, false_iff]
    rintro ⟨pre, e, ⟨-, post, heq, -⟩, -⟩
    simp at heq
  | cons x es ih =>
    have hsplit : (∃ pre e, Lasts r commands (x :: es) pre e ∧ p = outcome r commands e) ↔
        (enters commands x ∧ isTouched r commands es (finalName r commands x) = false ∧
          p = outcome r commands x) ∨ p ∈ survivors r commands es := by
      rw [ih]
      constructor
      · rintro ⟨pre, e, hlast, hp⟩
        rcases lasts_cons_iff.mp hlast with ⟨-, rfl, he, hes⟩ | ⟨pre', -, hlast⟩
        · exact Or.inl ⟨he, hes, hp⟩
        · exact Or.inr ⟨pre', e, hlast, hp⟩
      · rintro (⟨he, hes, hp⟩ | ⟨pre, e, hlast, hp⟩)
        · exact ⟨[], x, lasts_cons_iff.mpr (Or.inl ⟨rfl, rfl, he, hes⟩), hp⟩
        · exact ⟨x :: pre, e, lasts_cons_iff.mpr (Or.inr ⟨pre, rfl, hlast⟩), hp⟩
    rw [hsplit]
    simp only [survivors, Bool.and_eq_true, Bool.not_eq_true']
    split
    · rename_i h
      simp [h.1, h.2]
    · rename_i h
      constructor
      · exact Or.inr
      · rintro (⟨he, hes, -⟩ | hmem)
        · exact absurd ⟨he, hes⟩ h
        · exact hmem

theorem touches_finalName (he : enters commands e) :
    touches r commands e (finalName r commands e) := by
  obtain ⟨hanon, hdel⟩ := enters_iff.mp he
  simp [touches, hanon, hdel]

theorem get?_run_of_untouched (hr : r.Lawful) (hh : host.keys.Nodup) {k : Text}
    (hk : ∀ e ∈ es, touches r commands e k = false) :
    (run r placement commands host es).get? k = host.get? k := by
  ext q
  rw [Table.get?_eq_some_iff (nodup_keys_run hh es), Table.get?_eq_some_iff hh, mem_run hr]
  constructor
  · rintro (⟨hmem, -⟩ | ⟨pre, e, ⟨he, post, rfl, -⟩, rfl, -⟩)
    · exact hmem
    · have htouched := hk e (by simp)
      rw [touches_finalName he] at htouched
      contradiction
  · exact fun hmem => Or.inl ⟨hmem, hk⟩

theorem nodup_survivors_names (hr : r.Lawful) (es : List (Text × Piece δ)) :
    ((survivors r commands es).map (·.name)).Nodup := by
  induction es with
  | nil => exact List.nodup_nil
  | cons e es ih =>
    unfold survivors
    split
    · rename_i h
      simp only [Bool.and_eq_true, Bool.not_eq_true'] at h
      rw [List.map_cons, List.nodup_cons]
      refine ⟨?_, ih⟩
      rintro hmem
      obtain ⟨q, hq, hname⟩ := List.mem_map.mp hmem
      obtain ⟨pre, e', ⟨he', post, rfl, -⟩, rfl⟩ := mem_survivors.mp hq
      rw [outcome_name hr, outcome_name hr] at hname
      have huntouched := isTouched_eq_false_iff.mp h.2 e' (by simp)
      rw [← hname, touches_finalName he'] at huntouched
      contradiction
    · exact ih

theorem mem_values_run (hr : r.Lawful) (hh : host.Keyed)
    (horigin : ∀ p ∈ host.values, p.origin = .host) (es : List (Text × Piece δ)) {p : Piece δ}
    (hp : p ∈ host.values) :
    p ∈ (run r placement commands host es).values ↔ isTouched r commands es p.name = false := by
  have hentry : p ∈ (run r placement commands host es).values ↔
      (p.name, p) ∈ (run r placement commands host es).entries :=
    ⟨(keyed_run hh es).mem_entries, Table.mem_values_of_mem⟩
  rw [hentry, mem_run hr, isTouched_eq_false_iff]
  constructor
  · rintro (⟨-, hes⟩ | ⟨pre, e, -, -, hadopt⟩)
    · exact hes
    · have := horigin p hp
      rw [hadopt] at this
      contradiction
  · intro hes
    exact Or.inl ⟨hh.mem_entries hp, hes⟩

end Reconcile

open Reconcile

variable {δ : Type}

/-- A lenient run always ends; its table has each piece once, under its own name; and an entry of it
is an entry of the host that no piece touches, or the last piece to touch its final name, entered in
place of what then stood under its key. -/
theorem reconcile_survivors (v : Vocabulary) (placement : Placement) (host snippet : Pieces δ)
    (commands : Text → Commands) (hh : host.Keyed) :
    ∃ s, (reconcile v.rules placement false host snippet commands).result = .ok s ∧
      s.table.Keyed ∧
      ∀ k p, (k, p) ∈ s.table.entries ↔
        ((k, p) ∈ host.entries ∧ ∀ e ∈ snippet.entries, touches v.rules commands e k = false) ∨
          ∃ pre e, Lasts v.rules commands snippet.entries pre e ∧
            k = finalName v.rules commands e ∧ p.origin = .snippet ∧
            p = adopt ((run v.rules placement commands host pre).get? e.1)
              (outcome v.rules commands e) := by
  refine ⟨_, reconcile_lenient, ?_, ?_⟩
  · rw [foldl_advance_table]
    exact keyed_run hh snippet.entries
  · intro k p
    rw [foldl_advance_table]
    refine (mem_run v.rules_lawful snippet.entries).trans (or_congr Iff.rfl ?_)
    constructor
    · rintro ⟨pre, e, hlast, hk, rfl⟩
      exact ⟨pre, e, hlast, hk, rfl, rfl⟩
    · rintro ⟨pre, e, hlast, hk, -, hp⟩
      exact ⟨pre, e, hlast, hk, hp⟩

/-- Two pieces that take each other's name: the second one finds the first under its own key, so
only its new name is left. -/
theorem reconcile_survivors_swap :
    ∃ (v : Vocabulary) (host : Pieces Unit) (commands : Text → Commands) (s : Reconciliation Unit)
      (p : Piece Unit),
      host.keys = [['a'], ['b']] ∧ (commands ['a']).rename = some ['b'] ∧
      (commands ['b']).rename = some ['a'] ∧
      (reconcile v.rules .inPlace false host host commands).result = .ok s ∧
      s.table.keys = [['a']] ∧ (['a'], p) ∈ s.table.entries ∧ p.replaces = some ['a'] := by
  let v : Vocabulary := { isName := fun _ => true, isParameter := fun _ => true }
  let a : Piece Unit := { name := ['a'], details := () }
  let b : Piece Unit := { name := ['b'], details := () }
  let commands : Text → Commands := fun n =>
    if n = ['a'] then { rename := some ['b'] } else { rename := some ['a'] }
  obtain ⟨s, hs, -, hmem⟩ := reconcile_survivors v .inPlace (Pieces.ofList [a, b])
    (Pieces.ofList [a, b]) commands (Pieces.keyed_ofList [a, b])
  have hlast : Lasts v.rules commands (Pieces.ofList [a, b]).entries [(['a'], a)] (['b'], b) :=
    ⟨by decide, [], rfl, by simp⟩
  have hentry := (hmem ['a'] _).mpr (Or.inr ⟨_, _, hlast, by decide, rfl, rfl⟩)
  refine ⟨v, Pieces.ofList [a, b], commands, s, _, by decide, rfl, rfl, hs, ?_, hentry, by decide⟩
  rw [table_of_reconcile hs]
  decide

end Graft
