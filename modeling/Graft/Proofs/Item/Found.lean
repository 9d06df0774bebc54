import Graft.Proofs.Item.Function

set_option autoImplicit false

/-!
The functions of a source as a list, in the order in which they are found. Extraction enters them
one by one, so that of several with one name the last counts.
-/

namespace Graft.Item

namespace Function

variable {d : Document} {fuel : Nat} {claimed : List Span} {f : Found}

/-- The search does not go back and keeps off what is claimed. So each function starts where the
ones before it have ended. -/
theorem foundFrom_ordered (d : Document) (fuel position : Nat) (claimed : List Span) :
    (∀ f ∈ foundFrom d fuel position claimed, position ≤ f.start ∧
      ∀ s ∈ claimed, s.start ≤ f.start → s.stop ≤ f.start) ∧
    (foundFrom d fuel position claimed).Pairwise fun f g => f.extent.bodyStop ≤ g.start := by
  refine foundFrom_induction (motive := fun position claimed fs =>
    (∀ f ∈ fs, position ≤ f.start ∧ ∀ s ∈ claimed, s.start ≤ f.start → s.stop ≤ f.start) ∧
      fs.Pairwise fun f g => f.extent.bodyStop ≤ g.start) ?_ ?_ ?_ fuel position claimed
  · intro position claimed
    exact ⟨by simp, List.Pairwise.nil⟩
  · rintro position next claimed fs hle ⟨hfs, hpairwise⟩
    exact ⟨fun f hf => ⟨hle.trans (hfs f hf).1, (hfs f hf).2⟩, hpairwise⟩
  · rintro position claimed f fs hle - hfree ⟨hfs, hpairwise⟩
    have hafter : ∀ g ∈ fs, f.start ≤ g.start := fun g hg => by
      have := (hfs g hg).1
      omega
    refine ⟨fun g hg => ?_, List.pairwise_cons.mpr ⟨fun g hg => ?_, hpairwise⟩⟩
    · rcases List.mem_cons.mp hg with rfl | hg
      · exact ⟨hle, hfree⟩
      · exact ⟨hle.trans (hafter g hg), fun s hs => (hfs g hg).2 s (List.mem_cons_of_mem _ hs)⟩
    · exact (hfs g hg).2 _ List.mem_cons_self (hafter g hg)

theorem le_start_of_mem_foundFrom {position : Nat} (hf : f ∈ foundFrom d fuel position claimed) :
    position ≤ f.start :=
  ((foundFrom_ordered d fuel position claimed).1 f hf).1

theorem found_pairwise {source : Text} (_ : Document.scan source = .ok d) :
    (found d).Pairwise fun f g => f.extent.bodyStop ≤ g.start :=
  (foundFrom_ordered d _ _ _).2

def IsLast (d : Document) (f : Found) : Prop :=
  ∃ pre post, found d = pre ++ f :: post ∧ ∀ g ∈ post, g.header.name ≠ f.header.name

def lasting : List Found → List Found
  | [] => []
  | f :: fs => if fs.any (·.header.name == f.header.name) then lasting fs else f :: lasting fs

theorem mem_lasting {fs : List Found} :
    f ∈ lasting fs ↔ ∃ pre post, fs = pre ++ f :: post ∧ ∀ g ∈ post,
      g.header.name ≠ f.header.name := by
  induction fs with
  | nil => simp [lasting]
  | cons x fs ih =>
    have hsplit :
        (∃ pre post, x :: fs = pre ++ f :: post ∧ ∀ g ∈ post, g.header.name ≠ f.header.name) ↔
        (x = f ∧ ∀ g ∈ fs, g.header.name ≠ f.header.name) ∨ f ∈ lasting fs := by
      rw [ih]
      constructor
      · rintro ⟨pre, post, heq, hpost⟩
        cases pre with
        | nil =>
          obtain ⟨rfl, rfl⟩ := List.cons.inj heq
          exact Or.inl ⟨rfl, hpost⟩
        | cons y pre => exact Or.inr ⟨pre, post, (List.cons.inj heq).2, hpost⟩
      · rintro (⟨rfl, hfs⟩ | ⟨pre, post, rfl, hpost⟩)
        · exact ⟨[], fs, rfl, hfs⟩
        · exact ⟨x :: pre, post, rfl, hpost⟩
    rw [hsplit, lasting]
    split
    · rename_i hany
      obtain ⟨g, hg, hname⟩ := List.any_eq_true.mp hany
      refine ⟨Or.inr, ?_⟩
      rintro (⟨rfl, hfs⟩ | hmem)
      · exact absurd (beq_iff_eq.mp hname) (hfs g hg)
      · exact hmem
    · rename_i hany
      have hfs : ∀ g ∈ fs, g.header.name ≠ x.header.name := by simpa using hany
      rw [List.mem_cons]
      constructor
      · rintro (rfl | hmem)
        · exact Or.inl ⟨rfl, hfs⟩
        · exact Or.inr hmem
      · rintro (⟨rfl, -⟩ | hmem)
        · exact Or.inl rfl
        · exact Or.inr hmem

instance (d : Document) (f : Found) : Decidable (IsLast d f) := decidable_of_iff _ mem_lasting

theorem IsLast.mem (h : IsLast d f) : f ∈ found d := by
  obtain ⟨pre, post, hsplit, -⟩ := h
  simp [hsplit]

theorem mem_values_extract {p : Function} :
    p ∈ (extract d true).table.values ↔ ∃ f, IsLast d f ∧ p = f.piece d := by
  rw [Table.values, List.mem_map, extract_eq]
  constructor
  · rintro ⟨⟨k, p⟩, hmem, rfl⟩
    obtain ⟨-, pre, c, post, heq, hpost⟩ := Extraction.mem_addAll.mp hmem
    obtain ⟨pre', rest, hsplit, -, hrest⟩ := List.map_eq_append_iff.mp heq
    obtain ⟨f, post', rfl, hf, rfl⟩ := List.map_eq_cons_iff.mp hrest
    have hp : p = f.piece d := (congrArg Prod.fst hf).symm
    refine ⟨f, ⟨pre', post', hsplit, ?_⟩, hp⟩
    intro g hg
    have := hpost _ (List.mem_map_of_mem hg)
    rwa [hp] at this
  · rintro ⟨f, ⟨pre, post, hsplit, hpost⟩, rfl⟩
    refine ⟨(f.header.name, f.piece d), Extraction.mem_addAll.mpr ⟨rfl,
      pre.map fun f => build d true f.start f.header f.extent, f.commands d,
      post.map fun f => build d true f.start f.header f.extent, ?_, ?_⟩, rfl⟩
    · rw [hsplit, List.map_append, List.map_cons]
      rfl
    · intro q hq
      obtain ⟨g, hg, rfl⟩ := List.mem_map.mp hq
      exact hpost g hg

end Function

end Graft.Item
