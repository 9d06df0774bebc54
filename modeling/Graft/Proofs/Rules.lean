import Graft.Item.Merge
import Graft.Script.Member
import Graft.Style.Merge
import Graft.Suite.Member

set_option autoImplicit false

/-!
What every notation's rules have in common. A rule looks neither at the origin of a piece nor at
what it stands for, and only renaming and access can change its name; so the directives of a piece
come to the same whatever piece of the host it replaces.
-/

namespace Graft

open Reconcile

variable {δ : Type}

structure Rules.Lawful (r : Rules δ) : Prop where
  rename_adopt : ∀ b p n, r.rename (adopt b p) n = (r.rename p n).map (adopt b)
  access_adopt : ∀ b p v, r.access (adopt b p) v = (r.access p v).map (adopt b)
  decorate_adopt : ∀ b p ds, r.decorate (adopt b p) ds = (r.decorate p ds).map (adopt b)
  setParameters_adopt : ∀ b p ps,
    r.setParameters (adopt b p) ps = (r.setParameters p ps).map (adopt b)
  extend_adopt : ∀ b p c, r.extend (adopt b p) c = (adopt b (r.extend p c).1, (r.extend p c).2)
  decorate_name : ∀ p ds q, r.decorate p ds = some q → q.name = p.name
  setParameters_name : ∀ p ps q, r.setParameters p ps = some q → q.name = p.name
  extend_name : ∀ p c, (r.extend p c).1.name = p.name

namespace Vocabulary

variable (v : Vocabulary)

section

variable (b : Option (Piece δ)) (p : Piece δ)

theorem rename_adopt (n : Text) : v.rename (adopt b p) n = (v.rename p n).map (adopt b) := by
  unfold rename
  split <;> rfl

theorem makePrivate_adopt : v.makePrivate (adopt b p) = (v.makePrivate p).map (adopt b) := by
  cases hm : v.privateMarker with
  | none => simp [makePrivate, hm]
  | some mark =>
    by_cases hp : p.name.startsWith mark <;> simp [makePrivate, hm, adopt, hp]

theorem access_adopt (value : Text) :
    v.access (adopt b p) value = (v.access p value).map (adopt b) := by
  simp only [access, makePrivate_adopt]
  split
  · rfl
  · split
    · rfl
    · split <;> rfl

theorem decorate_adopt (ds : List Text) :
    v.decorate (adopt b p) ds = (v.decorate p ds).map (adopt b) := by
  simp only [decorate]
  split <;> rfl

theorem setParameters_adopt (ps : List Text) :
    v.setParameters (adopt b p) ps = (v.setParameters p ps).map (adopt b) := by
  unfold setParameters
  split <;> rfl

end

theorem decorate_name {p q : Piece δ} {ds : List Text} (h : v.decorate p ds = some q) :
    q.name = p.name := by
  simp only [decorate] at h
  split at h
  · rw [← Option.some.inj h]
  · contradiction

theorem setParameters_name {p q : Piece δ} {ps : List Text} (h : v.setParameters p ps = some q) :
    q.name = p.name := by
  unfold setParameters at h
  split at h
  · rw [← Option.some.inj h]
  · contradiction

theorem rules_lawful : (v.rules : Rules δ).Lawful where
  rename_adopt := v.rename_adopt
  access_adopt := v.access_adopt
  decorate_adopt := v.decorate_adopt
  setParameters_adopt := v.setParameters_adopt
  extend_adopt _ _ _ := rfl
  decorate_name _ _ _ h := v.decorate_name h
  setParameters_name _ _ _ h := v.setParameters_name h
  extend_name _ _ := rfl

end Vocabulary

theorem Item.rules_lawful : Item.rules.Lawful where
  rename_adopt := Item.vocabulary.rename_adopt
  access_adopt b f v := by
    simp only [Item.rules, Item.setVisibility]
    split
    · rfl
    · split <;> split <;> rfl
  decorate_adopt b f ds := Item.vocabulary.decorate_adopt b f _
  setParameters_adopt := Item.vocabulary.setParameters_adopt
  extend_adopt _ _ _ := rfl
  decorate_name _ _ _ h := Item.vocabulary.decorate_name h
  setParameters_name _ _ _ h := Item.vocabulary.setParameters_name h
  extend_name _ _ := rfl

theorem Style.rules_lawful : Style.rules.Lawful where
  rename_adopt b r n := by
    simp only [Style.rules, Style.rename]
    cases Style.selector? n <;> simp [adopt]
  access_adopt := Style.vocabulary.access_adopt
  decorate_adopt := Style.vocabulary.decorate_adopt
  setParameters_adopt := Style.vocabulary.setParameters_adopt
  extend_adopt _ _ _ := rfl
  decorate_name := Style.vocabulary.rules_lawful.decorate_name
  setParameters_name := Style.vocabulary.rules_lawful.setParameters_name
  extend_name _ _ := rfl

namespace Script.Member

theorem access_adopt (b : Option Member) (m : Member) (v : Text) :
    access (adopt b m) v = (access m v).map (adopt b) := by
  have hmethod : isMethod (adopt b m) = isMethod m := rfl
  have hname : (adopt b m).name = m.name := rfl
  simp only [access, makePrivate, hmethod, hname, vocabulary.makePrivate_adopt,
    vocabulary.access_adopt]
  split
  · rfl
  · split
    · split
      · cases vocabulary.makePrivate m <;> rfl
      · rfl
    · rfl

theorem rules_lawful : rules.Lawful where
  rename_adopt b m n := by
    have hmethod : isMethod (adopt b m) = isMethod m := rfl
    simp only [rules, rename, hmethod, vocabulary.rename_adopt]
    split
    · cases vocabulary.rename m n <;> rfl
    · rfl
  access_adopt := access_adopt
  decorate_adopt b m ds := by
    have hmethod : isMethod (adopt b m) = isMethod m := rfl
    simp only [rules, decorate, hmethod, vocabulary.decorate_adopt]
    split <;> rfl
  setParameters_adopt b m ps := by
    have hmethod : isMethod (adopt b m) = isMethod m := rfl
    simp only [rules, setParameters, hmethod, vocabulary.setParameters_adopt]
    split <;> rfl
  extend_adopt _ _ _ := rfl
  decorate_name m ds q h := by
    simp only [rules, decorate] at h
    split at h
    · exact vocabulary.decorate_name h
    · contradiction
  setParameters_name m ps q h := by
    simp only [rules, setParameters] at h
    split at h
    · exact vocabulary.setParameters_name h
    · contradiction
  extend_name _ _ := rfl

end Script.Member

namespace Suite.Member

theorem access_adopt (b : Option Member) (m : Member) (v : Text) :
    access (adopt b m) v = (access m v).map (adopt b) := by
  simp only [access, makePrivate]
  split
  · have hmethod : isMethod (adopt b m) = isMethod m := rfl
    have hname : (adopt b m).name = m.name := rfl
    simp only [hmethod, hname]
    split
    · rfl
    · split <;> rfl
  · rfl

theorem decorate_eq (m : Member) (ds : List Text) :
    decorate m ds =
      if isMethod m then
        (ds.mapM fun d => parseExpression? (Vocabulary.plainDecorator d)).map fun es =>
        change { m with decorators := es.map fun e => (Expr.print? e).getD [] } (withDecorators es)
      else none := by
  cases hm : isMethod m
  · simp [decorate, hm]
  · simp only [decorate, hm]
    cases ds.mapM fun d => parseExpression? (Vocabulary.plainDecorator d) <;> rfl

theorem setParameters_eq (m : Member) (ps : List Text) :
    setParameters m ps =
      if isMethod m then (parseParams? ps).map fun params =>
        change { m with parameters := ps, parameterText := none } (withParams params)
      else none := by
  cases hm : isMethod m
  · simp [setParameters, hm]
  · simp only [setParameters, hm]
    cases parseParams? ps <;> rfl

theorem rules_lawful : rules.Lawful where
  rename_adopt b m n := by
    have hmethod : isMethod (adopt b m) = isMethod m := rfl
    simp only [rules, rename, hmethod, vocabulary.rename_adopt, Option.isSome_map]
    split <;> rfl
  access_adopt := access_adopt
  decorate_adopt b m ds := by
    have hmethod : isMethod (adopt b m) = isMethod m := rfl
    simp only [rules, decorate_eq, hmethod]
    split
    · cases ds.mapM fun d => parseExpression? (Vocabulary.plainDecorator d) <;> rfl
    · rfl
  setParameters_adopt b m ps := by
    have hmethod : isMethod (adopt b m) = isMethod m := rfl
    simp only [rules, setParameters_eq, hmethod]
    split
    · cases parseParams? ps <;> rfl
    · rfl
  extend_adopt b m c := by
    have hmethod : isMethod (record (adopt b m) c) = isMethod (record m c) := rfl
    simp only [rules, extend, hmethod]
    split
    · rfl
    · split <;> rfl
  decorate_name m ds q h := by
    simp only [rules, decorate_eq] at h
    split at h
    · obtain ⟨es, -, rfl⟩ := Option.map_eq_some_iff.mp h
      rfl
    · contradiction
  setParameters_name m ps q h := by
    simp only [rules, setParameters_eq] at h
    split at h
    · obtain ⟨params, -, rfl⟩ := Option.map_eq_some_iff.mp h
      rfl
    · contradiction
  extend_name m c := by
    simp only [rules, extend]
    split
    · rfl
    · split <;> rfl

end Suite.Member

end Graft
