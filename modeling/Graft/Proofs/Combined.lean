import Graft.Proofs.Attached
import Graft.Proofs.Directive

set_option autoImplicit false

/-!
What the directives of two comment blocks come to together. Reading the blocks one after the other
is reading each for itself and combining the results, so a comment without a directive can be left
out anywhere. The fields that are noted as seen are those that differ from their defaults.
-/

namespace Graft

namespace Commands

/-- Flags of either count, decorators are listed one after the other, any other value is that of the
second if it has one, and the fields first seen in the second follow those seen in the first. -/
def combine (a b : Commands) : Commands where
  access := b.access.or a.access
  decorators := a.decorators ++ b.decorators
  rename := b.rename.or a.rename
  delete := a.delete || b.delete
  params := b.params.or a.params
  isAsync := a.isAsync || b.isAsync
  isUnsafe := a.isUnsafe || b.isUnsafe
  returnType := b.returnType.or a.returnType
  seen := a.seen ++ b.seen.filter (!a.seen.contains ·)

theorem combine_default (a : Commands) : a.combine {} = a := by
  simp [combine]

theorem combine_assign (a b : Commands) (d : Directive) :
    a.combine (b.assign d) = (a.combine b).assign d := by
  obtain ⟨f, value⟩ := d
  cases f <;> simp [combine, assign]

theorem combine_note (a b : Commands) (f : Field) :
    a.combine (b.note f) = (a.combine b).note f := by
  unfold note
  by_cases ha : f ∈ a.seen <;> by_cases hb : f ∈ b.seen <;> simp [combine, ha, hb]

theorem combine_apply (a b : Commands) (d : Directive) :
    a.combine (b.apply d) = (a.combine b).apply d := by
  rw [apply, apply, combine_note, combine_assign]

theorem foldl_apply (a b : Commands) (ds : List Directive) :
    ds.foldl apply (a.combine b) = a.combine (ds.foldl apply b) := by
  induction ds generalizing b with
  | nil => rfl
  | cons d ds ih => rw [List.foldl_cons, List.foldl_cons, ← combine_apply, ih]

theorem ofComments_concat (cs cs' : List Text) :
    ofComments (cs ++ cs') = (ofComments cs).combine (ofComments cs') := by
  have hrest := foldl_apply (ofComments cs) {} (Directive.ofComments cs')
  rw [combine_default] at hrest
  rw [ofComments, Directive.ofComments_append, List.foldl_append]
  exact hrest

def Differs (c : Commands) : Field → Prop
  | .access => c.access ≠ ({} : Commands).access
  | .decorators => c.decorators ≠ ({} : Commands).decorators
  | .rename => c.rename ≠ ({} : Commands).rename
  | .delete => c.delete ≠ ({} : Commands).delete
  | .params => c.params ≠ ({} : Commands).params
  | .isAsync => c.isAsync ≠ ({} : Commands).isAsync
  | .isUnsafe => c.isUnsafe ≠ ({} : Commands).isUnsafe
  | .returnType => c.returnType ≠ ({} : Commands).returnType

/-- The fields seen are those that differ from their defaults, each listed once. -/
structure Recorded (c : Commands) : Prop where
  nodup : c.seen.Nodup
  mem_seen : ∀ f, f ∈ c.seen ↔ c.Differs f

theorem differs_assign (c : Commands) (d : Directive) (f : Field) :
    (c.assign d).Differs f ↔ c.Differs f ∨ f = d.field := by
  obtain ⟨g, value⟩ := d
  cases g <;> cases f <;> simp [assign, Differs]

theorem differs_note (c : Commands) (f g : Field) : (c.note g).Differs f ↔ c.Differs f := by
  unfold note
  split
  · rfl
  · cases f <;> rfl

theorem Recorded.apply {c : Commands} (h : c.Recorded) (d : Directive) : (c.apply d).Recorded := by
  have hseen : (c.apply d).seen = if d.field ∈ c.seen then c.seen else c.seen ++ [d.field] := by
    simp only [Commands.apply, note, seen_assign, List.contains_iff_mem]
    split
    · exact seen_assign c d
    · rfl
  refine ⟨?_, fun f => ?_⟩
  · rw [hseen]
    split
    · exact h.nodup
    · rename_i hnew
      rw [← List.concat_eq_append]
      exact h.nodup.concat hnew
  · rw [Commands.apply, differs_note, differs_assign, ← h.mem_seen, ← Commands.apply, hseen]
    split
    · rename_i hold
      constructor
      · exact .inl
      · rintro (hf | rfl)
        · exact hf
        · exact hold
    · simp

theorem recorded_ofComments (cs : List Text) : (ofComments cs).Recorded := by
  have hrun : ∀ (ds : List Directive) (c : Commands),
      c.Recorded → (ds.foldl Commands.apply c).Recorded := by
    intro ds
    induction ds with
    | nil => exact fun c hc => hc
    | cons d ds ih => exact fun c hc => ih _ (hc.apply d)
  refine hrun _ _ ⟨List.nodup_nil, fun f => ?_⟩
  cases f <;> simp [Differs]

theorem Recorded.isEmpty_iff {c : Commands} (h : c.Recorded) : c.isEmpty ↔ c = {} := by
  rw [isEmpty, List.isEmpty_iff]
  constructor
  · intro hseen
    have hsame : ∀ f, ¬c.Differs f := fun f => by simp [← h.mem_seen, hseen]
    obtain ⟨access, decorators, rename, delete, params, isAsync, isUnsafe, returnType, seen⟩ := c
    simp only [Commands.mk.injEq]
    exact ⟨not_not.mp (hsame .access), not_not.mp (hsame .decorators), not_not.mp (hsame .rename),
      not_not.mp (hsame .delete), not_not.mp (hsame .params), not_not.mp (hsame .isAsync),
      not_not.mp (hsame .isUnsafe), not_not.mp (hsame .returnType), hseen⟩
  · rintro rfl
    rfl

/-- Reading composes: two blocks of comments come to the combination of what each comes to. What is
read is recorded, so it is empty only if it is the default, and comments without a directive make no
difference. -/
theorem ofComments_composes (cs cs' : List Text) :
    ofComments (cs ++ cs') = (ofComments cs).combine (ofComments cs') ∧ (ofComments cs).Recorded ∧
      ((ofComments cs).isEmpty ↔ ofComments cs = {}) ∧
      ofComments (cs.filter isDirectiveComment) = ofComments cs := by
  refine ⟨ofComments_concat cs cs', recorded_ofComments cs,
    (recorded_ofComments cs).isEmpty_iff, ?_⟩
  rw [ofComments, Directive.ofComments_filter, ofComments]

/-- A later value wins where there is one, and a directive without its value changes nothing. -/
example :
    ofComments
      (["// @rename a\n// @access".toList] ++ ["# @async".toList, "/* @Rename b */".toList]) =
    { rename := some ['b'], isAsync := true, seen := [.rename, .isAsync] } := by
  decide +kernel

end Commands

end Graft
