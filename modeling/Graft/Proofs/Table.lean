import Graft.Extraction
import Mathlib.Data.List.Induction
import Mathlib.Data.List.Nodup

set_option autoImplicit false

/-!
Laws of ordered tables. A table is looked at through its entries; the entries of an operation's
result are stated once, and whether keys stay distinct.
-/

namespace Graft

namespace Table

variable {α : Type} {t : Table α} {k n : Text} {v w : α}

theorem mem_keys_iff : k ∈ t.keys ↔ ∃ v, (k, v) ∈ t.entries := by
  simp [keys]

theorem mem_keys_of_mem (h : (k, v) ∈ t.entries) : k ∈ t.keys :=
  mem_keys_iff.mpr ⟨v, h⟩

theorem mem_values_of_mem (h : (k, v) ∈ t.entries) : v ∈ t.values :=
  List.mem_map.mpr ⟨(k, v), h, rfl⟩

theorem get?_isSome_iff : (t.get? k).isSome ↔ k ∈ t.keys := by
  simp only [get?, List.lookup_isSome_iff, beq_iff_eq, keys, List.mem_map]
  exact ⟨fun ⟨e, he, hk⟩ => ⟨e, he, hk.symm⟩, fun ⟨e, he, hk⟩ => ⟨e, he, hk.symm⟩⟩

theorem mem_of_get?_eq_some (h : t.get? k = some v) : (k, v) ∈ t.entries := by
  obtain ⟨pre, post, he, -⟩ := List.lookup_eq_some_iff.mp h
  rw [he]
  simp

theorem eq_of_mem_of_mem (ht : t.keys.Nodup) (h : (k, v) ∈ t.entries) (h' : (k, w) ∈ t.entries) :
    v = w := by
  have hinj := List.inj_on_of_nodup_map ht h h' rfl
  exact congrArg Prod.snd hinj

theorem get?_eq_some_iff (ht : t.keys.Nodup) : t.get? k = some v ↔ (k, v) ∈ t.entries := by
  constructor
  · exact mem_of_get?_eq_some
  · intro h
    obtain ⟨w, hw⟩ := Option.isSome_iff_exists.mp (get?_isSome_iff.mpr (mem_keys_of_mem h))
    rw [hw, eq_of_mem_of_mem ht (mem_of_get?_eq_some hw) h]

theorem mem_erase : (k, v) ∈ (t.erase n).entries ↔ (k, v) ∈ t.entries ∧ k ≠ n := by
  simp [erase]

theorem nodup_keys_erase (ht : t.keys.Nodup) : (t.erase n).keys.Nodup :=
  ht.sublist (List.filter_sublist.map _)

theorem mem_putLast :
    (k, v) ∈ (t.putLast n w).entries ↔ (k = n ∧ v = w) ∨ (k ≠ n ∧ (k, v) ∈ t.entries) := by
  simp only [putLast, List.mem_append, mem_erase, List.mem_singleton, Prod.mk.injEq]
  tauto

theorem nodup_keys_putLast (ht : t.keys.Nodup) : (t.putLast n w).keys.Nodup := by
  have hlast : (t.putLast n w).keys = (t.erase n).keys ++ [n] := by simp [putLast, keys]
  rw [hlast, List.nodup_append]
  refine ⟨nodup_keys_erase ht, by simp, ?_⟩
  intro a ha b hb
  obtain ⟨x, hx⟩ := mem_keys_iff.mp ha
  rw [List.mem_singleton.mp hb]
  exact (mem_erase.mp hx).2

variable {old new : Text}

theorem mem_putInPlace (h : old ∈ t.keys) :
    (k, v) ∈ (t.putInPlace old new w).entries ↔
      (k = new ∧ v = w) ∨ (k ≠ old ∧ k ≠ new ∧ (k, v) ∈ t.entries) := by
  obtain ⟨u, hu⟩ := mem_keys_iff.mp h
  simp only [putInPlace, List.mem_filterMap]
  constructor
  · rintro ⟨⟨k', v'⟩, he, hf⟩
    by_cases hold : k' = old
    · simp only [hold, beq_self_eq_true, if_true, Option.some.injEq, Prod.mk.injEq] at hf
      exact Or.inl ⟨hf.1.symm, hf.2.symm⟩
    · by_cases hnew : k' = new
      · simp [hnew] at hf
        exact Or.inl ⟨hf.2.1.symm, hf.2.2.symm⟩
      · simp only [beq_iff_eq, hold, hnew, if_false, Option.some.injEq, Prod.mk.injEq] at hf
        obtain ⟨rfl, rfl⟩ := hf
        exact Or.inr ⟨hold, hnew, he⟩
  · rintro (⟨rfl, rfl⟩ | ⟨hold, hnew, he⟩)
    · exact ⟨(old, u), hu, by simp⟩
    · exact ⟨(k, v), he, by simp [hold, hnew]⟩

theorem keys_putInPlace :
    (t.putInPlace old new w).keys =
      t.keys.filterMap fun k => if k = old then some new else if k = new then none else some k := by
  simp only [putInPlace, keys, List.map_filterMap, List.filterMap_map]
  congr 1
  funext e
  by_cases hold : e.1 = old
  · simp [hold]
  · by_cases hnew : e.1 = new <;> simp [hold, hnew]

theorem nodup_keys_putInPlace (ht : t.keys.Nodup) : (t.putInPlace old new w).keys.Nodup := by
  rw [keys_putInPlace]
  refine ht.filterMap ?_
  intro a a' b ha ha'
  by_cases hold : a = old <;> by_cases hold' : a' = old
  · rw [hold, hold']
  all_goals
    simp only [hold, hold', if_true, if_false] at ha ha'
    grind

theorem filter_putInPlace {q : Text × α → Bool} (hw : q (new, w) = false) :
    (t.putInPlace old new w).entries.filter q =
      (t.entries.filter q).filter fun e => e.1 != old && e.1 != new := by
  rw [putInPlace, List.filter_filterMap, List.filter_filter, ← List.filterMap_eq_filter]
  apply List.filterMap_congr
  intro e _
  by_cases hold : e.1 = old
  · simp [hold, hw, Option.filter, Option.guard]
  · by_cases hnew : e.1 = new
    · rw [hnew] at hold
      simp [hnew, hold, Option.filter, Option.guard]
    · simp [hold, hnew, Option.filter, Option.guard]

theorem map_putInPlace_sublist {β : Type} {f : α → β} (hw : ∀ v, (old, v) ∈ t.entries → f w = f v) :
    ((t.putInPlace old new w).values.map f).Sublist (t.values.map f) := by
  obtain ⟨es⟩ := t
  simp only [putInPlace, values, List.map_map, beq_iff_eq] at hw ⊢
  induction es with
  | nil => exact List.Sublist.refl _
  | cons e es ih =>
    have hrest := ih fun v hv => hw v (List.mem_cons_of_mem e hv)
    rw [List.filterMap_cons, List.map_cons]
    by_cases hold : e.1 = old
    · have hfe : f w = f e.2 := hw e.2 (by simp [← hold])
      simp only [hold, if_true, List.map_cons, Function.comp_apply, hfe]
      exact hrest.cons_cons _
    · by_cases hnew : e.1 = new
      · rw [hnew] at hold
        simp only [hnew, hold, if_false, if_true]
        exact hrest.cons _
      · simp only [hold, hnew, if_false, List.map_cons]
        exact hrest.cons_cons _

theorem contains_iff : t.contains n ↔ n ∈ t.keys := by
  simp [contains, keys]

theorem mem_add :
    (k, v) ∈ (t.add n w).entries ↔ (k = n ∧ v = w) ∨ (k ≠ n ∧ (k, v) ∈ t.entries) := by
  unfold add
  split
  · rename_i hn
    obtain ⟨u, hu⟩ := mem_keys_iff.mp (contains_iff.mp hn)
    simp only [List.mem_map]
    constructor
    · rintro ⟨e, he, hk⟩
      by_cases hen : e.1 = n
      · simp only [hen, beq_self_eq_true, if_true, Prod.mk.injEq] at hk
        exact Or.inl ⟨hk.1.symm, hk.2.symm⟩
      · simp only [beq_iff_eq, hen, if_false] at hk
        exact Or.inr ⟨by rw [hk] at hen; exact hen, by rw [← hk]; exact he⟩
    · rintro (⟨rfl, rfl⟩ | ⟨hne, he⟩)
      · exact ⟨(k, u), hu, by simp⟩
      · exact ⟨(k, v), he, by simp [hne]⟩
  · rename_i hn
    have hfree : n ∉ t.keys := fun h => hn (contains_iff.mpr h)
    simp only [List.mem_append, List.mem_singleton, Prod.mk.injEq]
    constructor
    · rintro (he | hk)
      · exact Or.inr ⟨fun h => hfree (h ▸ mem_keys_of_mem he), he⟩
      · exact Or.inl hk
    · rintro (hk | ⟨-, he⟩)
      · exact Or.inr hk
      · exact Or.inl he

theorem lookup_map_put {κ : Type} [BEq κ] [LawfulBEq κ] [DecidableEq κ] (es : List (κ × α))
    (i j : κ) (t : α) :
    (es.map fun e => if e.1 == i then (i, t) else e).lookup j =
      if j = i then if es.any (·.1 == i) then some t else none else es.lookup j := by
  induction es with
  | nil => simp
  | cons e es ih =>
    rw [List.map_cons, List.lookup_cons, ih, List.any_cons, List.lookup_cons]
    by_cases he : e.1 = i
    · by_cases hj : j = i
      · simp [he, hj]
      · simp [he, hj, beq_eq_false_iff_ne.mpr hj]
    · have hbeq : (e.1 == i) = false := by simp [he]
      have hbeq' : (i == e.1) = false := by simp [Ne.symm he]
      by_cases hj : j = i
      · simp only [hj, hbeq, hbeq', Bool.false_or, Bool.false_eq_true, if_false, if_true]
      · simp [he, hj]

theorem lookup_put {κ : Type} [BEq κ] [LawfulBEq κ] [DecidableEq κ] (es : List (κ × α))
    (i j : κ) (t : α) :
    (if es.any (·.1 == i) then es.map fun e =>
      if e.1 == i then (i, t) else e else es ++ [(i, t)]).lookup j =
      if j = i then some t else es.lookup j := by
  split
  · rename_i hany
    rw [lookup_map_put, hany]
    rfl
  · rename_i hnone
    rw [List.lookup_append]
    by_cases hj : j = i
    · have hfree : es.lookup i = none := by
        rw [List.lookup_eq_none_iff]
        intro e he
        have hne : e.1 ≠ i := fun heq => hnone (List.any_eq_true.mpr ⟨e, he, by simp [heq]⟩)
        simp [hne.symm]
      simp [hj, hfree]
    · simp [hj, List.lookup_cons, beq_eq_false_iff_ne.mpr hj]

theorem get?_add : (t.add n w).get? k = if k = n then some w else t.get? k := by
  have hput := lookup_put t.entries n k w
  unfold get? add contains
  split
  · rename_i hn
    rwa [if_pos hn] at hput
  · rename_i hn
    rwa [if_neg hn] at hput

theorem keys_add : (t.add n w).keys = if n ∈ t.keys then t.keys else t.keys ++ [n] := by
  by_cases hn : n ∈ t.keys
  · rw [if_pos hn]
    simp only [add, contains_iff.mpr hn, if_true, keys, List.map_map]
    apply List.map_congr_left
    intro e _
    by_cases he : e.1 = n <;> simp [he]
  · rw [if_neg hn]
    have hn' : ¬t.contains n := fun h => hn (contains_iff.mp h)
    simp [add, hn', keys]

theorem nodup_keys_add (ht : t.keys.Nodup) : (t.add n w).keys.Nodup := by
  rw [keys_add]
  split
  · exact ht
  · rename_i hn
    exact List.nodup_append.mpr ⟨ht, by simp, by rintro a ha b hb rfl; simp_all⟩

end Table

namespace Pieces

variable {δ : Type}

/-- Every piece is entered once, under its own name. -/
structure Keyed (t : Pieces δ) : Prop where
  nodup : t.keys.Nodup
  name : ∀ {k : Text} {p : Piece δ}, (k, p) ∈ t.entries → k = p.name

theorem keyed_empty : Keyed (Table.empty : Pieces δ) :=
  ⟨by simp [Table.keys, Table.empty], by simp [Table.empty]⟩

theorem Keyed.add {t : Pieces δ} (h : Keyed t) (p : Piece δ) : Keyed (Pieces.add t p) where
  nodup := Table.nodup_keys_add h.nodup
  name := by
    intro k q hm
    obtain ⟨rfl, rfl⟩ | ⟨-, hm⟩ := Table.mem_add.mp hm
    · rfl
    · exact h.name hm

theorem keyed_ofList (ps : List (Piece δ)) : Keyed (ofList ps) := by
  have hfold : ∀ t : Pieces δ, Keyed t → Keyed (ps.foldl Pieces.add t) := by
    induction ps with
    | nil => exact fun _ h => h
    | cons p ps ih => exact fun t h => ih _ (h.add p)
  exact hfold _ keyed_empty

theorem Keyed.mem_entries {t : Pieces δ} (h : Keyed t) {p : Piece δ} (hp : p ∈ t.values) :
    (p.name, p) ∈ t.entries := by
  obtain ⟨⟨k, q⟩, hm, rfl⟩ := List.mem_map.mp hp
  rwa [← h.name hm]

theorem Keyed.names {t : Pieces δ} (h : Keyed t) : t.values.map (·.name) = t.keys := by
  simp only [Table.values, Table.keys, List.map_map]
  apply List.map_congr_left
  intro e he
  exact (h.name he).symm

theorem Keyed.values_nodup {t : Pieces δ} (h : Keyed t) : t.values.Nodup := by
  have hn : (t.values.map (·.name)).Nodup := h.names ▸ h.nodup
  exact hn.of_map

theorem Keyed.eq_of_name_eq {t : Pieces δ} (h : Keyed t) {p q : Piece δ} (hp : p ∈ t.values)
    (hq : q ∈ t.values) (hn : p.name = q.name) : p = q := by
  have hp' := h.mem_entries hp
  rw [hn] at hp'
  exact Table.eq_of_mem_of_mem h.nodup hp' (h.mem_entries hq)

end Pieces

namespace Extraction

variable {δ : Type}

/-- Enters pieces with their directives one by one. -/
def addAll (e : Extraction δ) (ps : List (Piece δ × Commands)) : Extraction δ :=
  ps.foldl (fun e p => e.add p.1 p.2) e

theorem addAll_append (e : Extraction δ) (ps qs : List (Piece δ × Commands)) :
    e.addAll (ps ++ qs) = (e.addAll ps).addAll qs :=
  List.foldl_append

theorem mem_addAll {ps : List (Piece δ × Commands)} {k : Text} {p : Piece δ} :
    (k, p) ∈ (addAll {} ps).table.entries ↔
      k = p.name ∧ ∃ pre c post, ps = pre ++ (p, c) :: post ∧ ∀ q ∈ post, q.1.name ≠ p.name := by
  induction ps using List.reverseRecOn with
  | nil => simp [addAll, Table.empty]
  | append_singleton ps x ih =>
    have hlast : (addAll {} (ps ++ [x])).table = Pieces.add (addAll {} ps).table x.1 := by
      rw [addAll_append]
      rfl
    rw [hlast, Pieces.add, Table.mem_add, ih]
    constructor
    · rintro (⟨rfl, rfl⟩ | ⟨hne, rfl, pre, c, post, rfl, hpost⟩)
      · exact ⟨rfl, ps, x.2, [], rfl, by simp⟩
      · refine ⟨rfl, pre, c, post ++ [x], by simp, ?_⟩
        intro q hq
        rcases List.mem_append.mp hq with hq | hq
        · exact hpost q hq
        · rw [List.mem_singleton.mp hq]
          exact hne.symm
    · rintro ⟨rfl, pre, c, post, heq, hpost⟩
      rcases List.eq_nil_or_concat post with rfl | ⟨post, y, rfl⟩
      · obtain ⟨-, hx⟩ := List.append_inj' heq rfl
        obtain rfl : x = (p, c) := by simpa using hx
        exact Or.inl ⟨rfl, rfl⟩
      · rw [List.concat_eq_append] at heq hpost
        have hsplit : ps ++ [x] = (pre ++ (p, c) :: post) ++ [y] := by simpa using heq
        obtain ⟨rfl, hx⟩ := List.append_inj' hsplit rfl
        obtain rfl : x = y := by simpa using hx
        exact Or.inr ⟨(hpost x (by simp)).symm, rfl, pre, c, post, rfl, fun q hq =>
          hpost q (by simp [hq])⟩

theorem keyed_addAll {e : Extraction δ} (he : e.table.Keyed) (ps : List (Piece δ × Commands)) :
    (e.addAll ps).table.Keyed := by
  induction ps generalizing e with
  | nil => exact he
  | cons p ps ih => exact ih (he.add p.1)

theorem commandsOf_addAll {ps : List (Piece δ × Commands)} (hps : ∀ p ∈ ps, p.2.isEmpty)
    (name : Text) :
    (addAll {} ps).commandsOf name = {} := by
  have hnone : (addAll {} ps).commands = .empty := by
    induction ps using List.reverseRecOn with
    | nil => rfl
    | append_singleton ps x ih =>
      have hx : x.2.isEmpty := hps x (by simp)
      rw [addAll_append]
      exact (if_pos hx).trans (ih fun p hp => hps p (by simp [hp]))
  rw [commandsOf, hnone]
  rfl

end Extraction

end Graft
