import Graft.Proofs.Table

set_option autoImplicit false

/-!
The slots of an ordered table. Whatever operations made a table, its names are distinct; so a name
has one slot, and what an operation does is told by the entries before the slot and those behind it.
-/

namespace Graft

namespace Table

variable {α : Type} {t : Table α} {n old new : Text} {u v : α} {pre post : List (Text × α)}

section

variable (ht : t.keys.Nodup) (h : t.entries = pre ++ (n, u) :: post)
include ht h

theorem ne_of_slot : (∀ e ∈ pre, e.1 ≠ n) ∧ ∀ e ∈ post, e.1 ≠ n := by
  rw [keys, h, List.map_append, List.map_cons, List.nodup_middle, List.nodup_cons,
    ← List.map_append] at ht
  rw [← List.forall_mem_append]
  exact fun e he heq => ht.1 (List.mem_map.mpr ⟨e, he, heq⟩)

theorem entries_add_slot : (t.add n v).entries = pre ++ (n, v) :: post := by
  have hkeep : ∀ es : List (Text × α),
      (∀ e ∈ es, e.1 ≠ n) → es.map (fun e => if e.1 == n then (n, v) else e) = es := by
    intro es hes
    conv_rhs => rw [← List.map_id es]
    exact List.map_congr_left fun e he => if_neg (by simpa using hes e he)
  obtain ⟨hpre, hpost⟩ := ne_of_slot ht h
  have hn : t.contains n := contains_iff.mpr (mem_keys_of_mem (v := u) (by simp [h]))
  rw [add, if_pos hn, h, List.map_append, List.map_cons, hkeep pre hpre, hkeep post hpost]
  simp

theorem entries_putLast_slot : (t.putLast n v).entries = pre ++ post ++ [(n, v)] := by
  obtain ⟨hpre, hpost⟩ := ne_of_slot ht h
  have herase : (t.erase n).entries = pre ++ post := by
    rw [erase, h, List.filter_append, List.filter_cons_of_neg (by simp),
      List.filter_eq_self.mpr (by simpa using hpre), List.filter_eq_self.mpr (by simpa using hpost)]
  rw [putLast, herase]

end

theorem entries_putLast_of_not_mem (h : n ∉ t.keys) :
    (t.putLast n v).entries = t.entries ++ [(n, v)] := by
  have herase : (t.erase n).entries = t.entries := by
    rw [erase, List.filter_eq_self]
    intro e he
    have hne : e.1 ≠ n := fun heq => h (heq ▸ List.mem_map_of_mem he)
    simpa using hne
  rw [putLast, herase]

theorem entries_putInPlace_slot (ht : t.keys.Nodup) (h : t.entries = pre ++ (old, u) :: post) :
    (t.putInPlace old new v).entries = pre.filter (·.1 ≠ new) ++
      (new, v) :: post.filter (·.1 ≠ new) := by
  have hdrop : ∀ es : List (Text × α), (∀ e ∈ es, e.1 ≠ old) →
      es.filterMap (fun e => if e.1 == old then some (new, v) else if e.1 == new then
        none else some e) =
        es.filter (·.1 ≠ new) := by
    intro es hes
    rw [← List.filterMap_eq_filter]
    refine List.filterMap_congr fun e he => ?_
    by_cases hnew : e.1 = new
    · have hold : new ≠ old := hnew ▸ hes e he
      simp [hnew, hold, Option.guard]
    · simp [hes e he, hnew, Option.guard]
  obtain ⟨hpre, hpost⟩ := ne_of_slot ht h
  rw [putInPlace, h, List.filterMap_append, List.filterMap_cons, hdrop pre hpre, hdrop post hpost]
  simp

inductive Operation (α : Type) where
  | add (name : Text) (v : α)
  | putLast (name : Text) (v : α)
  | putInPlace (old new : Text) (v : α)
  | erase (name : Text)

def apply (t : Table α) : Operation α → Table α
  | .add name v => t.add name v
  | .putLast name v => t.putLast name v
  | .putInPlace old new v => t.putInPlace old new v
  | .erase name => t.erase name

def after (ops : List (Operation α)) : Table α := ops.foldl apply empty

theorem nodup_keys_apply (ht : t.keys.Nodup) (op : Operation α) : (t.apply op).keys.Nodup := by
  cases op with
  | add name v => exact nodup_keys_add ht
  | putLast name v => exact nodup_keys_putLast ht
  | putInPlace old new v => exact nodup_keys_putInPlace ht
  | erase name => exact nodup_keys_erase ht

theorem nodup_keys_after (ops : List (Operation α)) : (after ops).keys.Nodup := by
  have hrun : ∀ t : Table α, t.keys.Nodup → (ops.foldl apply t).keys.Nodup := by
    induction ops with
    | nil => exact fun _ ht => ht
    | cons op ops ih => exact fun t ht => ih _ (nodup_keys_apply ht op)
  exact hrun empty (by simp [keys, empty])

/-- After any operations on an empty table the names are distinct. A name added again keeps its slot
and takes the new value; one put last leaves the others as they are; and one put in the place of
another stands in that slot, while the entry that had the new name is gone, before or behind it. -/
theorem after_keeps_slots (ops : List (Operation α)) :
    (after ops).keys.Nodup ∧
    (∀ n u v pre post, (after ops).entries = pre ++ (n, u) :: post →
      ((after ops).add n v).entries = pre ++ (n, v) :: post) ∧
    (∀ n u v pre post, (after ops).entries = pre ++ (n, u) :: post →
      ((after ops).putLast n v).entries = pre ++ post ++ [(n, v)]) ∧
    (∀ n v, n ∉ (after ops).keys →
      ((after ops).putLast n v).entries = (after ops).entries ++ [(n, v)]) ∧
    ∀ old new u v pre post, (after ops).entries = pre ++ (old, u) :: post →
      ((after ops).putInPlace old new v).entries = pre.filter (·.1 ≠ new) ++
        (new, v) :: post.filter (·.1 ≠ new) := by
  have ht := nodup_keys_after ops
  refine ⟨ht, ?_, ?_, ?_, ?_⟩
  · exact fun n u v pre post h => entries_add_slot ht h
  · exact fun n u v pre post h => entries_putLast_slot ht h
  · exact fun n v h => entries_putLast_of_not_mem h
  · exact fun old new u v pre post h => entries_putInPlace_slot ht h

end Table

end Graft
