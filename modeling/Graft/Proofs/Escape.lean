import Graft.Proofs.Directive
import Graft.Text.Escape

set_option autoImplicit false

/-!
What is printed of a text: escape sequences are passed over, from the front on, and every other
character stays. So a text is printed as it is just when no escape sequence occurs in it.
-/

namespace Graft.Text

def IsEscape (e : Text) : Prop :=
  ∃ parameters c, parameters.all isEscapeParameter ∧ isLetter c ∧
    e = '\x1b' :: '[' :: (parameters ++ [c])

inductive Printed : Text → Text → Prop
  | nil : Printed [] []
  | escape {e t u : Text} : IsEscape e → Printed t u → Printed (e ++ t) u
  | keep {c : Char} {t u : Text} : (∀ e, IsEscape e → ¬e <+: c :: t) → Printed t u →
    Printed (c :: t) (c :: u)

theorem isEscapeParameter_of_isLetter {c : Char} (h : isLetter c) :
    isEscapeParameter c = false := by
  rw [isLetter, Bool.or_eq_true, isLower_iff, isUpper_iff] at h
  have hdigit : isDigit c = false := by
    rw [← Bool.not_eq_true]
    simp only [isDigit, Bool.and_eq_true, decide_eq_true_eq]
    intro hc
    have hle : c.toNat ≤ 57 := hc.2
    omega
  have hne : c ≠ ';' ∧ c ≠ '?' := by
    constructor <;>
    · rintro rfl
      revert h
      decide
  simp [isEscapeParameter, hdigit, hne]

theorem escapeLength_append {e : Text} (he : IsEscape e) (t : Text) :
    escapeLength (e ++ t) = e.length := by
  obtain ⟨parameters, c, hparameters, hc, rfl⟩ := he
  have htake : (parameters ++ c :: t).takeWhile isEscapeParameter = parameters := by
    rw [List.takeWhile_append_of_pos (List.all_eq_true.mp hparameters),
      List.takeWhile_cons_of_neg (by simp [isEscapeParameter_of_isLetter hc]), List.append_nil]
  simp [escapeLength, htake, hc]

theorem exists_of_escapeLength {t : Text} {n : Nat} (h : escapeLength t = n + 1) :
    ∃ e, IsEscape e ∧ t = e ++ t.drop (n + 1) := by
  unfold escapeLength at h
  split at h
  · next cs =>
    have hparameters : (cs.takeWhile isEscapeParameter).all isEscapeParameter :=
      List.all_eq_true.mpr fun c hc => List.mem_takeWhile_imp hc
    have hcs : cs = cs.takeWhile isEscapeParameter ++
        cs.drop (cs.takeWhile isEscapeParameter).length :=
      (List.prefix_iff_eq_append.mp (List.takeWhile_prefix _)).symm
    generalize cs.takeWhile isEscapeParameter = parameters at h hparameters hcs
    dsimp only at h
    split at h
    · next c rest hrest =>
      split at h
      · next hc =>
        obtain rfl : parameters.length + 2 = n := Nat.succ.inj h
        refine ⟨_, ⟨parameters, c, hparameters, hc, rfl⟩, ?_⟩
        rw [hrest] at hcs
        subst hcs
        simp
      · contradiction
    · contradiction
  · contradiction

theorem escapeLength_eq_zero_iff {t : Text} : escapeLength t = 0 ↔ ∀ e, IsEscape e → ¬e <+: t := by
  constructor
  · rintro h e he ⟨rest, rfl⟩
    rw [escapeLength_append he] at h
    obtain ⟨parameters, c, -, -, rfl⟩ := he
    contradiction
  · intro h
    cases hn : escapeLength t with
    | zero => rfl
    | succ n =>
      obtain ⟨e, he, ht⟩ := exists_of_escapeLength hn
      exact absurd ⟨_, ht.symm⟩ (h e he)

theorem withoutEscapesFrom_eq (skip : Nat) (t : Text) :
    withoutEscapesFrom skip t = withoutEscapes (t.drop skip) := by
  induction t generalizing skip with
  | nil => cases skip <;> rfl
  | cons c t ih =>
    cases skip with
    | zero => rfl
    | succ skip => exact ih skip

theorem withoutEscapes_cons {c : Char} {t : Text} (h : escapeLength (c :: t) = 0) :
    withoutEscapes (c :: t) = c :: withoutEscapes t := by
  simp only [withoutEscapes, withoutEscapesFrom, h]

theorem withoutEscapes_of_escapeLength {t : Text} {n : Nat} (h : escapeLength t = n + 1) :
    withoutEscapes t = withoutEscapes (t.drop (n + 1)) := by
  cases t with
  | nil => contradiction
  | cons c t =>
    simp only [withoutEscapes, withoutEscapesFrom, h]
    exact withoutEscapesFrom_eq n t

theorem printed_withoutEscapes (t : Text) : Printed t t.withoutEscapes := by
  -- A sequence takes several characters at once, so the induction is on how many are left.
  induction hn : t.length using Nat.strong_induction_on generalizing t with
  | _ n ih =>
    subst hn
    cases hescape : escapeLength t with
    | zero =>
      cases t with
      | nil => exact .nil
      | cons c t =>
        rw [withoutEscapes_cons hescape]
        exact .keep (escapeLength_eq_zero_iff.mp hescape) (ih _ (Nat.lt_succ_self _) t rfl)
    | succ k =>
      obtain ⟨e, he, ht⟩ := exists_of_escapeLength hescape
      have hpos : 0 < t.length := by
        cases t with
        | nil => contradiction
        | cons c t => exact Nat.succ_pos _
      have hshort : (t.drop (k + 1)).length < t.length := by
        rw [List.length_drop]
        omega
      rw [withoutEscapes_of_escapeLength hescape]
      exact (congrArg (Printed · _) ht).mpr (.escape he (ih _ hshort _ rfl))

theorem Printed.length_le {t u : Text} (h : Printed t u) : u.length ≤ t.length := by
  induction h with
  | nil => exact Nat.le_refl _
  | escape _ _ ih =>
    rw [List.length_append]
    omega
  | keep _ _ ih => exact Nat.succ_le_succ ih

theorem Printed.eq_iff {t u : Text} (h : Printed t u) : u = t ↔ ∀ e, IsEscape e → ¬e <:+: t := by
  induction h with
  | nil =>
    refine ⟨fun _ e he hin => ?_, fun _ => rfl⟩
    obtain ⟨parameters, c, -, -, rfl⟩ := he
    simp at hin
  | escape he hprinted _ =>
    refine ⟨fun heq => ?_, fun h => absurd (List.prefix_append _ _).isInfix (h _ he)⟩
    have hle := hprinted.length_le
    obtain ⟨parameters, c, -, -, rfl⟩ := he
    rw [heq] at hle
    simp only [List.length_append, List.length_cons] at hle
    omega
  | keep hfront _ ih =>
    rw [List.cons.injEq, and_iff_right rfl, ih]
    refine forall_congr' fun e => imp_congr_right fun he => not_congr ?_
    rw [List.infix_cons_iff, or_iff_right (hfront e he)]

end Graft.Text
