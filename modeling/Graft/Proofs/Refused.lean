import Graft.Proofs.Strict
import Graft.Proofs.Survivors

set_option autoImplicit false

/-!
Refused directives. A directive that cannot be applied is reported and does nothing: a lenient run
makes the same of a snippet from which all directives that it reported are taken out, and has
nothing left to report.
-/

namespace Graft

/-- The directives without those of some fields. -/
def Commands.without (c : Commands) (gone : Field → Bool) : Commands where
  access := if gone .access then none else c.access
  decorators := if gone .decorators then [] else c.decorators
  rename := if gone .rename then none else c.rename
  delete := if gone .delete then false else c.delete
  params := if gone .params then none else c.params
  isAsync := if gone .isAsync then false else c.isAsync
  isUnsafe := if gone .isUnsafe then false else c.isUnsafe
  returnType := if gone .returnType then none else c.returnType
  seen := c.seen.filter (!gone ·)

/-- What the directive sets that a warning calls ignored. -/
def Warning.field? : Warning → Option Field
  | ignored directive _ _ _ => Field.ofWord? directive
  | _ => none

namespace Reconcile

variable {δ : Type}

def reported (ws : List Warning) (f : Field) : Bool := ws.any (·.field? == some f)

theorem reported_append (ws ws' : List Warning) (f : Field) :
    reported (ws ++ ws') f = (reported ws f || reported ws' f) :=
  List.any_append

/-- True of a field whose directive is refused to the piece. -/
def refuses (r : Rules δ) (p : Piece δ) (c : Commands) : Field → Bool
  | .rename => c.rename.any fun v => (r.rename p v).isNone
  | .access => c.access.any fun v => (r.access p v).isNone
  | .decorators => !c.decorators.isEmpty && (r.decorate p c.decorators).isNone
  | .params => c.params.any fun v => (r.setParameters p (splitParams v)).isNone
  | .delete => false
  | f => (r.extend p c).2.contains f

end Reconcile

open Reconcile

/-- Rules that refuse a directive for what it says, whatever the piece. -/
structure Rules.Steady {δ : Type} (r : Rules δ) : Prop where
  rename : ∀ p q v, (r.rename p v).isNone = (r.rename q v).isNone
  access : ∀ p q v, (r.access p v).isNone = (r.access q v).isNone
  decorate : ∀ p q ds, (r.decorate p ds).isNone = (r.decorate q ds).isNone
  setParameters : ∀ p q ps, (r.setParameters p ps).isNone = (r.setParameters q ps).isNone
  extend : ∀ p q c, (r.extend p c).2 = (r.extend q c).2
  special : ∀ p c, ∀ f ∈ (r.extend p c).2, f = .isAsync ∨ f = .isUnsafe ∨ f = .returnType
  /-- The special directives come to the same without those that are refused. -/
  extend_without : ∀ p q c, r.extend p (c.without (refuses r q c)) = ((r.extend p c).1, [])

namespace Reconcile

variable {δ : Type} {r : Rules δ}

theorem refuses_congr (hr : r.Steady) (p q : Piece δ) (c : Commands) :
    refuses r p c = refuses r q c := by
  funext f
  cases f <;> simp only [refuses, hr.rename p q, hr.access p q, hr.decorate p q,
    hr.setParameters p q, hr.extend p q]

section

variable {directive : Text} {f : Field}

theorem reported_attemptIf (hf : Field.ofWord? directive = some f) (value : Option Text)
    (rule : Piece δ → Text → Option (Piece δ)) (a : Applied δ) (g : Field) :
    reported (attemptIf directive value rule a).2 g =
      (reported a.2 g || (decide (f = g) && value.any fun v => (rule a.1 v).isNone)) := by
  cases value with
  | none => simp [attemptIf]
  | some v =>
    simp only [attemptIf, attempt]
    cases happlied : rule a.1 v with
    | some p => simp [happlied]
    | none => simp [reported, Warning.field?, hf, beq_eq_decide, happlied]

theorem attemptIf_without {value : Option Text} {rule : Piece δ → Text → Option (Piece δ)}
    (hrule : ∀ p q v, (rule p v).isNone = (rule q v).isNone) {p : Piece δ} {gone : Bool}
    (hgone : gone = value.any fun v => (rule p v).isNone) (q : Piece δ) (ws : List Warning) :
    attemptIf directive (if gone then none else value) rule (q, []) =
      ((attemptIf directive value rule (q, ws)).1, []) := by
  cases value with
  | none => simp [attemptIf]
  | some v =>
    rw [Option.any_some, hrule p q] at hgone
    cases happlied : rule q v with
    | none => simp [attemptIf, attempt, hgone, happlied]
    | some x => simp [attemptIf, attempt, hgone, happlied]

end

theorem ofWord_specialName {f : Field} (hf : f = .isAsync ∨ f = .isUnsafe ∨ f = .returnType) :
    Field.ofWord? (specialName f) = some f := by
  rcases hf with rfl | rfl | rfl <;> decide +kernel

theorem reported_special {fs : List Field}
    (hfs : ∀ f ∈ fs, f = .isAsync ∨ f = .isUnsafe ∨ f = .returnType) (value : Field → Shown)
    (kind name : Text) (g : Field) :
    reported (fs.map fun f => .ignored (specialName f) (value f) kind name) g = fs.contains g := by
  induction fs with
  | nil => rfl
  | cons f fs ih =>
    rw [List.forall_mem_cons] at hfs
    have hhead : (Warning.ignored (specialName f) (value f) kind name).field? = some f :=
      ofWord_specialName hfs.1
    have hrest := ih hfs.2
    simp only [reported, List.map_cons, List.any_cons, hhead, List.contains_cons] at hrest ⊢
    rw [hrest, Option.some_beq_some, Bool.beq_comm]

theorem any_decoration (c : Commands) (b : Bool) :
    (decoration c).any (fun _ => b) = (!c.decorators.isEmpty && b) := by
  unfold decoration
  cases c.decorators.isEmpty <;> rfl

theorem reported_applyCommands (hr : r.Steady) (p : Piece δ) (c : Commands) :
    reported (applyCommands r p c).2 = refuses r p c := by
  have hrename : Field.ofWord? "rename".toList = some .rename := by decide +kernel
  have haccess : Field.ofWord? "access".toList = some .access := by decide +kernel
  have hdecorator : Field.ofWord? "decorator".toList = some .decorators := by decide +kernel
  have hparams : Field.ofWord? "params".toList = some .params := by decide +kernel
  funext g
  have hnamed : reported (named r p c).2 g = ((decide (.rename = g) && refuses r p c .rename) ||
      (decide (.access = g) && refuses r p c .access)) := by
    rw [named, reported_attemptIf haccess, reported_attemptIf hrename]
    simp only [refuses, hr.access _ p]
    rfl
  have hdressed : reported (dressed r p c).2 g = (reported (named r p c).2 g ||
      (decide (.decorators = g) && refuses r p c .decorators) ||
        (decide (.params = g) && refuses r p c .params)) := by
    rw [dressed_eq, reported_attemptIf hparams, decorated, reported_attemptIf hdecorator,
      any_decoration]
    simp only [refuses, hr.setParameters _ p, hr.decorate _ p]
  have hplain : ∀ f, ¬(f = .isAsync ∨ f = .isUnsafe ∨ f = .returnType) → f ∉ (r.extend p c).2 :=
    fun f hf hmem => hf (hr.special p c f hmem)
  rw [applyCommands_eq]
  simp only [reported_append, reported_special (hr.special _ c), hdressed, hnamed, hr.extend _ p]
  cases g <;> simp [refuses, hplain]

theorem applyCommands_without (hr : r.Steady) (p q : Piece δ) (c : Commands) :
    applyCommands r p (c.without (refuses r q c)) = ((applyCommands r p c).1, []) := by
  have hnamed : named r p (c.without (refuses r q c)) = ((named r p c).1, []) := by
    have hrename : attemptIf "rename".toList (c.without (refuses r q c)).rename r.rename (p, []) =
        ((attemptIf "rename".toList c.rename r.rename (p, [])).1, []) :=
      attemptIf_without hr.rename rfl p []
    rw [named, hrename]
    exact attemptIf_without hr.access rfl _ _
  have hdecorated : decorated r p (c.without (refuses r q c)) = ((decorated r p c).1, []) := by
    have hgone : refuses r q c .decorators =
        (!c.decorators.isEmpty && (r.decorate (named r p c).1 c.decorators).isNone) := by
      rw [refuses, hr.decorate q]
    rw [decorated, hnamed, decorated]
    simp only [decoration, Commands.without, hgone]
    by_cases hnone : c.decorators.isEmpty
    · simp [hnone, attemptIf]
    · cases happlied : r.decorate (named r p c).1 c.decorators with
      | none => simp [attemptIf, attempt, happlied, hnone]
      | some d => simp [attemptIf, attempt, happlied, hnone]
  have hdressed : dressed r p (c.without (refuses r q c)) = ((dressed r p c).1, []) := by
    rw [dressed_eq, hdecorated, dressed_eq]
    exact attemptIf_without (fun p q v => hr.setParameters p q (splitParams v)) rfl _ _
  rw [applyCommands_eq, applyCommands_eq, hdressed]
  simp only [hr.extend_without]
  rfl

def unrefused (s : Reconciliation δ) : Reconciliation δ :=
  ⟨s.table, s.warnings.filter (!·.isRefusal)⟩

def noticesAt (r : Rules δ) (placement : Placement) (commands : Text → Commands) (k : Text) :
    Pieces δ → List (Text × Piece δ) → List Warning
  | _, [] => []
  | t, e :: es =>
    (if e.1 = k then notices r commands t e else []) ++
      noticesAt r placement commands k (enter r placement commands t e) es

/-- The directives without all that a lenient run reports as ignored. -/
def heeded (r : Rules δ) (placement : Placement) (host snippet : Pieces δ)
    (commands : Text → Commands) (k : Text) :
    Commands :=
  (commands k).without (reported (noticesAt r placement commands k host snippet.entries))

section

variable {placement : Placement} {commands commands' : Text → Commands}

theorem reported_notices (hr : r.Steady) (t : Pieces δ) (e : Text × Piece δ) (p : Piece δ)
    (f : Field) :
    reported (notices r commands t e) f = (enters commands e && refuses r p (commands e.1) f) := by
  unfold notices enters
  cases e.2.anonymous with
  | true => rfl
  | false =>
    cases (commands e.1).delete with
    | true => rfl
    | false => simp [reported_applyCommands hr, refuses_congr hr _ p]

theorem reported_noticesAt (hr : r.Steady) (k : Text) (t : Pieces δ) (es : List (Text × Piece δ))
    (p : Piece δ) (f : Field) :
    reported (noticesAt r placement commands k t es) f =
      (es.any (fun e => decide (e.1 = k) && enters commands e) && refuses r p (commands k) f) := by
  induction es generalizing t with
  | nil => rfl
  | cons e es ih =>
    rw [noticesAt, reported_append, ih, List.any_cons, Bool.and_or_distrib_right]
    by_cases hk : e.1 = k
    · subst hk
      simp [reported_notices hr t e p]
    · simp [hk, reported]

theorem advance_unrefused (hr : r.Steady) (s : Reconciliation δ) {e : Text × Piece δ}
    (hdelete : (commands' e.1).delete = (commands e.1).delete)
    (henters : enters commands e → ∃ p,
        commands' e.1 = (commands e.1).without (refuses r p (commands e.1))) :
    advance r placement commands' (unrefused s) e =
      unrefused (advance r placement commands s e) := by
  unfold advance
  rw [hdelete]
  split
  · simp [unrefused, Warning.isRefusal_nameless]
  · split
    · rfl
    · rename_i hanon hdel
      obtain ⟨p, hp⟩ := henters (by simp [enters, hanon, hdel])
      have hnone : (applyCommands r (adopt (s.table.get? e.1) e.2) (commands e.1)).2.filter
          (!·.isRefusal) = [] := by
        rw [List.filter_eq_nil_iff]
        intro w hw
        simp [isRefusal_applyCommands r _ _ w hw]
      simp [unrefused, hp, applyCommands_without hr, hnone]

theorem foldl_advance_unrefused (hr : r.Steady) (s : Reconciliation δ) {es : List (Text × Piece δ)}
    (hdelete : ∀ e ∈ es, (commands' e.1).delete = (commands e.1).delete)
    (henters : ∀ e ∈ es, enters commands e → ∃ p,
        commands' e.1 = (commands e.1).without (refuses r p (commands e.1))) :
    es.foldl (advance r placement commands') (unrefused s) =
      unrefused (es.foldl (advance r placement commands) s) := by
  induction es generalizing s with
  | nil => rfl
  | cons e es ih =>
    rw [List.forall_mem_cons] at hdelete henters
    rw [List.foldl_cons, List.foldl_cons, advance_unrefused hr s hdelete.1 henters.1,
      ih _ hdelete.2 henters.2]

end

theorem reconcile_heeded (hr : r.Steady) (placement : Placement) (host snippet : Pieces δ)
    (commands : Text → Commands) :
    ∃ s, (reconcile r placement false host snippet commands).result = .ok s ∧
      (reconcile r placement false host snippet (heeded r placement host snippet commands)).result =
        .ok (unrefused s) := by
  refine ⟨_, reconcile_lenient, ?_⟩
  have hreported : ∀ k p f, reported (noticesAt r placement commands k host snippet.entries) f =
      (snippet.entries.any (fun e => decide (e.1 = k) && enters commands e) &&
        refuses r p (commands k) f) :=
    fun k => reported_noticesAt hr k host snippet.entries
  rw [reconcile_lenient]
  refine congrArg _ (foldl_advance_unrefused hr ⟨host, []⟩ ?_ ?_)
  · intro e _
    have hkept : reported (noticesAt r placement commands e.1 host snippet.entries) .delete =
        false := by
      rw [hreported e.1 e.2]
      simp [refuses]
    simp [heeded, Commands.without, hkept]
  · intro e he hentered
    refine ⟨e.2, congrArg _ (funext fun f => ?_)⟩
    have hany : snippet.entries.any (fun x => decide (x.1 = e.1) && enters commands x) = true :=
      List.any_eq_true.mpr ⟨e, he, by simp [hentered]⟩
    rw [hreported e.1 e.2, hany, Bool.true_and]

end Reconcile

theorem Vocabulary.rules_steady {δ : Type} (v : Vocabulary) : (v.rules : Rules δ).Steady where
  rename p q n := by
    simp only [rules, rename]
    split <;> rfl
  access p q value := by
    simp only [rules, access, makePrivate]
    split
    · rfl
    · split
      · simp
      · split <;> rfl
  decorate p q ds := by
    simp only [rules, decorate]
    split <;> rfl
  setParameters p q ps := by
    simp only [rules, setParameters]
    split <;> rfl
  extend _ _ _ := rfl
  special p c f hf := by simpa using (List.mem_filter.mp hf).1
  extend_without p q c := by
    refine Prod.ext rfl (List.filter_eq_nil_iff.mpr fun f hf => ?_)
    -- A special directive is refused where it was given at all.
    have hgone : refuses (v.rules : Rules δ) q c f = c.seen.contains f := by
      simp only [List.mem_cons, List.not_mem_nil, or_false] at hf
      rcases hf with rfl | rfl | rfl <;> simp [refuses, rules, extend]
    simp [Commands.without, hgone]

theorem Item.rules_steady : Item.rules.Steady where
  rename := Item.vocabulary.rules_steady.rename
  access p q value := by
    simp only [Item.rules, Item.setVisibility]
    split
    · rfl
    · split <;> split <;> rfl
  decorate p q _ := Item.vocabulary.rules_steady.decorate p q _
  setParameters := Item.vocabulary.rules_steady.setParameters
  extend _ _ _ := rfl
  special _ _ _ hf := by simp [Item.rules, Item.extend] at hf
  extend_without _ _ _ := rfl

/-- A directive that is reported as ignored is inert, under the plain rules of every vocabulary and
under those for functions: without all of them a lenient run gives the same table, with the same
warnings but for those that reported them. -/
theorem reconcile_ignored_inert (placement : Placement) :
    (∀ {δ : Type} (v : Vocabulary) (host snippet : Pieces δ) (commands : Text → Commands),
      ∃ s, (reconcile v.rules placement false host snippet commands).result = .ok s ∧
        (reconcile v.rules placement false host snippet
          (heeded v.rules placement host snippet commands)).result =
          .ok ⟨s.table, s.warnings.filter (!·.isRefusal)⟩) ∧
    ∀ (host snippet : Pieces Item.Details) (commands : Text → Commands),
      ∃ s, (reconcile Item.rules placement false host snippet commands).result = .ok s ∧
        (reconcile Item.rules placement false host snippet
          (heeded Item.rules placement host snippet commands)).result =
          .ok ⟨s.table, s.warnings.filter (!·.isRefusal)⟩ :=
  ⟨fun v host snippet commands => reconcile_heeded v.rules_steady placement host snippet commands,
    fun host snippet commands => reconcile_heeded Item.rules_steady placement host snippet commands⟩

end Graft
