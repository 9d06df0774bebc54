import Graft.Proofs.Reconcile

set_option autoImplicit false

/-!
Strict and lenient runs. A lenient run passes over the directives that cannot be applied and goes on
with what the others made of the piece; a strict run ends at the first of them. So the warnings of
the lenient run tell how the strict one ends, and as long as it does not end early the two agree.
-/

namespace Graft

/-- True of a warning that a directive was ignored. -/
def Warning.isRefusal (w : Warning) : Bool := w.message.startsWith "DirectiveIgnored: ".toList

theorem Warning.isRefusal_ignored (directive : Text) (value : Shown) (kind name : Text) :
    (ignored directive value kind name).isRefusal := by
  have hsign : "DirectiveIgnored: ".toList <+: "DirectiveIgnored: @".toList := by decide
  refine List.isPrefixOf_iff_prefix.mpr ?_
  unfold message
  simp only [List.append_assoc]
  exact hsign.trans (List.prefix_append _ _)

theorem Warning.isRefusal_nameless (kind : Text) : (nameless kind).isRefusal = false := rfl

namespace Reconcile

variable {δ : Type} {r : Rules δ} {placement : Placement} {commands : Text → Commands}

theorem isRefusal_attemptIf {directive : Text} {value : Option Text}
    {rule : Piece δ → Text → Option (Piece δ)} {a : Applied δ} (ha : ∀ w ∈ a.2, w.isRefusal) :
    ∀ w ∈ (attemptIf directive value rule a).2, w.isRefusal := by
  cases value with
  | none => exact ha
  | some v =>
    simp only [attemptIf, attempt]
    cases rule a.1 v with
    | some p => exact ha
    | none =>
      intro w hw
      rcases List.mem_append.mp hw with hw | hw
      · exact ha w hw
      · rw [List.mem_singleton.mp hw]
        exact Warning.isRefusal_ignored _ _ _ _

theorem isRefusal_applyCommands (r : Rules δ) (p : Piece δ) (c : Commands) :
    ∀ w ∈ (applyCommands r p c).2, w.isRefusal := by
  have hnamed : ∀ w ∈ (named r p c).2, w.isRefusal :=
    isRefusal_attemptIf (isRefusal_attemptIf (by simp))
  have hdressed : ∀ w ∈ (dressed r p c).2, w.isRefusal := by
    rw [dressed_eq]
    exact isRefusal_attemptIf (isRefusal_attemptIf hnamed)
  rw [applyCommands_eq]
  intro w hw
  rcases List.mem_append.mp hw with hw | hw
  · exact hdressed w hw
  · obtain ⟨f, -, rfl⟩ := List.mem_map.mp hw
    exact Warning.isRefusal_ignored _ _ _ _

def notices (r : Rules δ) (commands : Text → Commands) (t : Pieces δ) (e : Text × Piece δ) :
    List Warning :=
  if e.2.anonymous then [.nameless e.2.kind]
  else if (commands e.1).delete then []
  else (applyCommands r (adopt (t.get? e.1) e.2) (commands e.1)).2

theorem advance_warnings (s : Reconciliation δ) (e : Text × Piece δ) :
    (advance r placement commands s e).warnings = s.warnings ++ notices r commands s.table e := by
  unfold advance notices
  split
  · rfl
  · split
    · simp
    · rfl

/-- How a strict run ends, told by the warnings of a lenient one that came to `s`. -/
def verdict (ws : List Warning) (s : Reconciliation δ) : Except Error (Reconciliation δ) :=
  match ws.find? Warning.isRefusal with
  | none => .ok s
  | some w => .error (.directive w)

theorem step_strict (s : Reconciliation δ) (e : Text × Piece δ) :
    (step r placement true commands s e).result =
      verdict (notices r commands s.table e) (advance r placement commands s e) := by
  by_cases hanon : e.2.anonymous
  · simp [step, advance, notices, verdict, hanon, Warning.isRefusal_nameless]
  · by_cases hdel : (commands e.1).delete
    · rw [step_delete true s (by simpa using hanon) hdel]
      simp [advance, notices, verdict, hanon, hdel]
    · have hrefusals := isRefusal_applyCommands r (adopt (s.table.get? e.1) e.2) (commands e.1)
      simp only [step, advance, notices, hanon, hdel, carryOut_eq, Bool.false_eq_true,
        if_false, if_true]
      cases ha : applyCommands r (adopt (s.table.get? e.1) e.2) (commands e.1) with
      | mk merged ignored =>
        rw [ha] at hrefusals
        cases ignored with
        | nil => simp [demand, Except.map, verdict]
        | cons w ws =>
          have hw : w.isRefusal := hrefusals w (by simp)
          simp [demand, Except.map, verdict, hw]

def allNotices (r : Rules δ) (placement : Placement) (commands : Text → Commands) :
    Pieces δ → List (Text × Piece δ) → List Warning
  | _, [] => []
  | t, e :: es =>
    notices r commands t e ++ allNotices r placement commands (enter r placement commands t e) es

theorem foldl_advance_warnings (es : List (Text × Piece δ)) (s : Reconciliation δ) :
    (es.foldl (advance r placement commands) s).warnings =
      s.warnings ++ allNotices r placement commands s.table es := by
  induction es generalizing s with
  | nil => simp [allNotices]
  | cons e es ih =>
    rw [List.foldl_cons, ih, advance_warnings, advance_table, allNotices, List.append_assoc]

theorem foldlM_strict (es : List (Text × Piece δ)) (s : Reconciliation δ) :
    (es.foldlM (step r placement true commands) s).result =
      verdict (allNotices r placement commands s.table es)
        (es.foldl (advance r placement commands) s) := by
  induction es generalizing s with
  | nil => rfl
  | cons e es ih =>
    rw [List.foldlM_cons, Traced.result_bind, step_strict, List.foldl_cons, allNotices]
    unfold verdict
    rw [List.find?_append]
    -- Up to the first refusal both runs are at the same table.
    cases hfirst : (notices r commands s.table e).find? Warning.isRefusal with
    | none =>
      simp only [Traced.ok_bind, ih, advance_table]
      rfl
    | some w => rfl

theorem reconcile_eq_verdict (host snippet : Pieces δ) :
    (reconcile r placement true host snippet commands).result =
      verdict (snippet.entries.foldl (advance r placement commands) ⟨host, []⟩).warnings
        (snippet.entries.foldl (advance r placement commands) ⟨host, []⟩) := by
  rw [foldl_advance_warnings, List.nil_append]
  exact foldlM_strict snippet.entries ⟨host, []⟩

end Reconcile

open Reconcile

/-- A lenient run always comes to an end. If none of its warnings is that a directive was ignored,
the strict run gives the same table and the same warnings; otherwise it fails, with the first such
warning for a message. Pieces without a name never make it fail. -/
theorem reconcile_strict {δ : Type} (r : Rules δ) (placement : Placement) (host snippet : Pieces δ)
    (commands : Text → Commands) :
    ∃ lenient, (reconcile r placement false host snippet commands).result = .ok lenient ∧
      (lenient.warnings.find? Warning.isRefusal = none →
        (reconcile r placement true host snippet commands).result = .ok lenient) ∧
      (∀ w, lenient.warnings.find? Warning.isRefusal = some w →
        (reconcile r placement true host snippet commands).result = .error (.directive w) ∧
          (Error.directive w).message = w.message) ∧
      ((∀ w ∈ lenient.warnings, ∃ kind, w = .nameless kind) →
        (reconcile r placement true host snippet commands).result = .ok lenient) := by
  have hagree : ∀ s, (reconcile r placement false host snippet commands).result = .ok s →
      s.warnings.find? Warning.isRefusal = none →
      (reconcile r placement true host snippet commands).result = .ok s := by
    intro s hs hnone
    rw [reconcile_lenient] at hs
    rw [reconcile_eq_verdict, Except.ok.inj hs, verdict, hnone]
  refine ⟨_, reconcile_lenient, hagree _ reconcile_lenient, fun w hw => ⟨?_, rfl⟩,
    fun hnameless => ?_⟩
  · rw [reconcile_eq_verdict, verdict, hw]
  · refine hagree _ reconcile_lenient (List.find?_eq_none.mpr fun w hw => ?_)
    obtain ⟨kind, rfl⟩ := hnameless w hw
    rw [Warning.isRefusal_nameless]
    decide

/-- Of two refused directives on one piece the first ends the strict run, after a piece without a
name that does not. -/
theorem reconcile_strict_refused :
    ∃ (v : Vocabulary) (host snippet : Pieces Unit) (commands : Text →
      Commands) (lenient : Reconciliation Unit),
      (reconcile v.rules .inPlace false host snippet commands).result = .ok lenient ∧
      lenient.warnings = [.nameless "block".toList,
        .ignored "rename".toList (.text ['1']) "member".toList ['a'],
        .ignored "access".toList (.text ['x']) "member".toList ['a']] ∧
      (reconcile v.rules .inPlace true host snippet commands).result =
        .error (.directive (.ignored "rename".toList (.text ['1']) "member".toList ['a'])) := by
  let v : Vocabulary := { isName := Vocabulary.identifier.accepts, isParameter := fun _ => true }
  let a : Piece Unit := { name := ['a'], details := () }
  let block : Piece Unit :=
    { name := ['b'], kind := "block".toList, details := (), anonymous := true }
  let commands : Text → Commands := fun _ => { rename := some ['1'], access := some ['x'] }
  obtain ⟨lenient, hlenient, -, hrefused, -⟩ :=
    reconcile_strict v.rules .inPlace (Pieces.ofList [a]) (Pieces.ofList [block, a]) commands
  have hwarnings :
      ∀ s ∈ (reconcile v.rules .inPlace false (Pieces.ofList [a]) (Pieces.ofList [block, a])
      commands).result.toOption, s.warnings = [.nameless "block".toList,
        .ignored "rename".toList (.text ['1']) "member".toList ['a'],
        .ignored "access".toList (.text ['x']) "member".toList ['a']] := by
    decide +kernel
  have hlog := hwarnings lenient (by rw [hlenient]; rfl)
  refine ⟨v, Pieces.ofList [a], Pieces.ofList [block, a], commands, lenient, hlenient, hlog, ?_⟩
  exact (hrefused _ (by rw [hlog]; decide +kernel)).1

end Graft
