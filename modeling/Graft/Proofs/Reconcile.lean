import Graft.Proofs.Rules
import Graft.Proofs.Table

set_option autoImplicit false

/-!
Reconciliation as a run over the pieces of the snippet, and which entries are left when it is over:
the last piece of the snippet that touches a name decides what stands under it.
-/

namespace Graft

namespace Traced

variable {α β σ : Type}

@[simp] theorem ok_bind (a : α) (f : α → Except Error β) : (Except.ok a >>= f) = f a := rfl

@[simp] theorem error_bind (e : Error) (f : α → Except Error β) :
    (Except.error e >>= f) = .error e := rfl

theorem exists_of_bind {x : Except Error α} {f : α → Except Error β} {b : β} (h : x >>= f = .ok b) :
    ∃ a, x = .ok a ∧ f a = .ok b := by
  cases x with
  | error e => contradiction
  | ok a => exact ⟨a, rfl, h⟩

theorem error_of_bind {x : Except Error α} {f : α → Except Error β} {e : Error}
    (h : x >>= f = .error e) :
    x = .error e ∨ ∃ a, x = .ok a ∧ f a = .error e := by
  cases x with
  | error e' =>
    obtain rfl := Except.error.inj h
    exact .inl rfl
  | ok a => exact .inr ⟨a, rfl, h⟩

theorem exists_of_map {x : Except Error α} {f : α → β} {b : β} (h : x.map f = .ok b) :
    ∃ a, x = .ok a ∧ f a = b := by
  cases x with
  | error e => contradiction
  | ok a => exact ⟨a, rfl, Except.ok.inj h⟩

theorem error_of_map {x : Except Error α} {f : α → β} {e : Error} (h : x.map f = .error e) :
    x = .error e := by
  cases x with
  | error e' =>
    obtain rfl := Except.error.inj h
    rfl
  | ok a => contradiction

theorem map_bind_ok {γ : Type} (x : Except Error α) (f : α → β) (g : β → γ) :
    (x >>= fun a => Except.ok (f a)).map g = x.map fun a => g (f a) := by
  cases x <;> rfl

theorem exists_of_isOk {x : Except Error α} (h : x.isOk) : ∃ a, x = .ok a := by
  cases x with
  | error e => contradiction
  | ok a => exact ⟨a, rfl⟩

theorem ok_of_toOption {x : Except Error α} {a : α} (h : x.toOption = some a) : x = .ok a := by
  cases x with
  | error e => contradiction
  | ok b => exact congrArg Except.ok (Option.some.inj h)

theorem exists_mem_of_mapM {f : α → Except Error β} {as : List α} {bs : List β}
    (h : as.mapM f = .ok bs) {a : α} (ha : a ∈ as) : ∃ b ∈ bs, f a = .ok b := by
  induction as generalizing bs with
  | nil => simp at ha
  | cons x as ih =>
    rw [List.mapM_cons] at h
    obtain ⟨y, hy, h⟩ := exists_of_bind h
    obtain ⟨ys, hys, h⟩ := exists_of_bind h
    obtain rfl := Except.ok.inj h
    rcases List.mem_cons.mp ha with rfl | ha
    · exact ⟨y, List.mem_cons_self, hy⟩
    · obtain ⟨b, hb, heq⟩ := ih hys ha
      exact ⟨b, List.mem_cons_of_mem y hb, heq⟩

theorem map_of_mapM {γ : Type} {f : α → Except Error β} {as : List α} {bs : List β}
    (h : as.mapM f = .ok bs) {g : β → γ} {k : α → γ} (hk : ∀ a ∈ as, ∀ b, f a = .ok b → g b = k a) :
    bs.map g = as.map k := by
  induction as generalizing bs with
  | nil =>
    obtain rfl := Except.ok.inj h
    rfl
  | cons a as ih =>
    rw [List.mapM_cons] at h
    obtain ⟨b, hb, h⟩ := exists_of_bind h
    obtain ⟨rest, hrest, h⟩ := exists_of_bind h
    obtain rfl := Except.ok.inj h
    rw [List.map_cons, List.map_cons, hk a List.mem_cons_self b hb,
      ih hrest fun a' ha' => hk a' (List.mem_cons_of_mem a ha')]

theorem exists_of_mapM_error {f : α → Except Error β} {as : List α} {e : Error}
    (h : as.mapM f = .error e) :
    ∃ a ∈ as, f a = .error e := by
  induction as with
  | nil => contradiction
  | cons a as ih =>
    rw [List.mapM_cons] at h
    rcases error_of_bind h with h | ⟨b, -, h⟩
    · exact ⟨a, List.mem_cons_self, h⟩
    · rcases error_of_bind h with h | ⟨bs, -, h⟩
      · obtain ⟨c, hc, herror⟩ := ih h
        exact ⟨c, List.mem_cons_of_mem a hc, herror⟩
      · contradiction

@[simp] theorem result_pure (a : α) : (pure a : Traced α).result = .ok a := rfl

@[simp] theorem result_log (e : Event) : (log e).result = .ok ⟨⟩ := rfl

@[simp] theorem result_fail (e : Error) : (fail e : Traced α).result = .error e := rfl

@[simp] theorem result_ofExcept (r : Except Error α) : (ofExcept r).result = r := rfl

@[simp] theorem result_bind (x : Traced α) (f : α → Traced β) :
    (x >>= f).result = x.result >>= fun a => (f a).result := by
  change (bind x f).result = _
  unfold bind
  cases x.result <;> rfl

@[simp] theorem result_forIn_log (ws : List α) (f : α → Event) :
    (forIn ws PUnit.unit fun w _ => do
      log (f w)
      pure (ForInStep.yield PUnit.unit) : Traced PUnit).result = .ok ⟨⟩ := by
  induction ws with
  | nil => rfl
  | cons w ws ih =>
    rw [List.forIn_cons]
    simpa using ih

theorem result_foldlM_of_ok {f : σ → α → Traced σ} {g : σ → α → σ}
    (h : ∀ s a, (f s a).result = .ok (g s a)) (as : List α) (s : σ) :
    (as.foldlM f s).result = .ok (as.foldl g s) := by
  induction as generalizing s with
  | nil => rfl
  | cons a as ih => simp [List.foldlM_cons, h, ih]

theorem eq_foldl_of_foldlM {f : σ → α → Traced σ} {g : σ → α → σ}
    (h : ∀ s a s', (f s a).result = .ok s' → s' = g s a) (as : List α) {s s' : σ}
    (hs : (as.foldlM f s).result = .ok s') : s' = as.foldl g s := by
  induction as generalizing s with
  | nil => exact (Except.ok.inj hs).symm
  | cons a as ih =>
    rw [List.foldlM_cons, result_bind] at hs
    cases hf : (f s a).result with
    | error e => simp [hf] at hs
    | ok s₁ =>
      simp only [hf, ok_bind] at hs
      rw [ih hs, h s a s₁ hf]
      rfl

end Traced

namespace Reconcile

variable {δ : Type}

theorem attemptIf_adopt {rule : Piece δ → Text → Option (Piece δ)} {b : Option (Piece δ)}
    (h : ∀ p v, rule (adopt b p) v = (rule p v).map (adopt b)) (directive : Text)
    (value : Option Text) (a : Applied δ) :
    attemptIf directive value rule (adopt b a.1, a.2) =
      (adopt b (attemptIf directive value rule a).1, (attemptIf directive value rule a).2) := by
  cases value with
  | none => rfl
  | some v =>
    simp only [attemptIf, attempt, h]
    cases rule a.1 v <;> rfl

/-- The piece after the directives that can change its name. -/
def named (r : Rules δ) (p : Piece δ) (c : Commands) : Applied δ :=
  attemptIf "access".toList c.access r.access (attemptIf "rename".toList c.rename r.rename (p, []))

/-- The piece after its decorators and parameters as well. -/
def dressed (r : Rules δ) (p : Piece δ) (c : Commands) : Applied δ :=
  attemptIf "params".toList c.params (fun p v => r.setParameters p (splitParams v))
    (if c.decorators.isEmpty then named r p c
      else attempt "decorator".toList (Text.join ", ".toList c.decorators)
        (r.decorate · c.decorators)
        (named r p c))

theorem applyCommands_eq (r : Rules δ) (p : Piece δ) (c : Commands) :
    applyCommands r p c =
      ((r.extend (dressed r p c).1 c).1, (dressed r p c).2 ++
        (r.extend (dressed r p c).1 c).2.map fun f =>
          .ignored (specialName f) (specialValue c f) (r.extend (dressed r p c).1 c).1.kind
            (r.extend (dressed r p c).1 c).1.name) :=
  rfl

def decoration (c : Commands) : Option Text :=
  if c.decorators.isEmpty then none else some (Text.join ", ".toList c.decorators)

/-- The piece after its decorators. -/
def decorated (r : Rules δ) (p : Piece δ) (c : Commands) : Applied δ :=
  attemptIf "decorator".toList (decoration c) (fun p _ => r.decorate p c.decorators) (named r p c)

theorem attempt_decorate (r : Rules δ) (c : Commands) (a : Applied δ) :
    (if c.decorators.isEmpty then a
      else attempt "decorator".toList (Text.join ", ".toList c.decorators)
        (r.decorate · c.decorators) a) =
      attemptIf "decorator".toList (decoration c) (fun p _ => r.decorate p c.decorators) a := by
  unfold decoration
  split <;> rfl

theorem dressed_eq (r : Rules δ) (p : Piece δ) (c : Commands) : dressed r p c =
    attemptIf "params".toList c.params (fun p v => r.setParameters p (splitParams v))
      (decorated r p c) := by
  rw [dressed, attempt_decorate, decorated]

variable {r : Rules δ}

theorem named_adopt (hr : r.Lawful) (b : Option (Piece δ)) (p : Piece δ) (c : Commands) :
    named r (adopt b p) c = (adopt b (named r p c).1, (named r p c).2) := by
  have hrename := attemptIf_adopt (hr.rename_adopt b) "rename".toList c.rename (p, [])
  unfold named
  rw [hrename]
  exact attemptIf_adopt (hr.access_adopt b) "access".toList c.access _

theorem dressed_adopt (hr : r.Lawful) (b : Option (Piece δ)) (p : Piece δ) (c : Commands) :
    dressed r (adopt b p) c = (adopt b (dressed r p c).1, (dressed r p c).2) := by
  rw [dressed_eq, dressed_eq, decorated, named_adopt hr,
    attemptIf_adopt fun p _ => hr.decorate_adopt b p _]
  exact attemptIf_adopt (fun p v => hr.setParameters_adopt b p _) _ _ _

theorem applyCommands_adopt (hr : r.Lawful) (b : Option (Piece δ)) (p : Piece δ) (c : Commands) :
    applyCommands r (adopt b p) c = (adopt b (applyCommands r p c).1, (applyCommands r p c).2) := by
  simp only [applyCommands_eq, dressed_adopt hr, hr.extend_adopt]
  rfl

theorem attemptIf_keeps {P : Piece δ → Prop} {rule : Piece δ → Text → Option (Piece δ)}
    (h : ∀ p v q, P p → rule p v = some q → P q) (directive : Text) (value : Option Text)
    {a : Applied δ} (ha : P a.1) : P (attemptIf directive value rule a).1 := by
  cases value with
  | none => exact ha
  | some v =>
    simp only [attemptIf, attempt]
    cases hq : rule a.1 v with
    | none => exact ha
    | some q => exact h a.1 v q ha hq

/-- No rule spoils what is true of a piece. -/
structure Keeps (r : Rules δ) (P : Piece δ → Prop) : Prop where
  rename : ∀ p v q, P p → r.rename p v = some q → P q
  access : ∀ p v q, P p → r.access p v = some q → P q
  decorate : ∀ p v q, P p → r.decorate p v = some q → P q
  setParameters : ∀ p v q, P p → r.setParameters p v = some q → P q
  extend : ∀ p c, P p → P (r.extend p c).1

theorem applyCommands_keeps {P : Piece δ → Prop} (hr : Keeps r P) {p : Piece δ} (hp : P p)
    (c : Commands) :
    P (applyCommands r p c).1 := by
  have hnamed : P (named r p c).1 :=
    attemptIf_keeps hr.access _ _ (attemptIf_keeps hr.rename _ _ hp)
  have hdecorated : P (decorated r p c).1 :=
    attemptIf_keeps (fun p _ q => hr.decorate p _ q) _ _ hnamed
  rw [applyCommands_eq, dressed_eq]
  exact hr.extend _ c (attemptIf_keeps (fun p v q => hr.setParameters p _ q) _ _ hdecorated)

theorem attemptIf_view {α : Type} (view : Piece δ → α) {rule : Piece δ → Text → Option (Piece δ)}
    (h : ∀ p v q, rule p v = some q → view q = view p) (directive : Text) (value : Option Text)
    (a : Applied δ) : view (attemptIf directive value rule a).1 = view a.1 :=
  attemptIf_keeps (P := fun q => view q = view a.1) (fun p v q hp hq => (h p v q hq).trans hp)
    directive value rfl

theorem applyCommands_name (hr : r.Lawful) (p : Piece δ) (c : Commands) :
    (applyCommands r p c).1.name = (named r p c).1.name := by
  rw [applyCommands_eq]
  simp only [hr.extend_name, dressed_eq]
  exact (attemptIf_view (·.name) (fun p v q => hr.setParameters_name p _ q) _ _ _).trans
    (attemptIf_view (·.name) (fun p _ q => hr.decorate_name p _ q) _ _ _)

/-- A stage of the directives leaves the warnings before it alone and looks at none of them. -/
def Additive (f : Applied δ → Applied δ) : Prop :=
  ∀ p ws, f (p, ws) = ((f (p, [])).1, ws ++ (f (p, [])).2)

theorem additive_attemptIf (directive : Text) (value : Option Text)
    (rule : Piece δ → Text → Option (Piece δ)) :
    Additive (attemptIf directive value rule) := by
  intro p ws
  cases value with
  | none => simp [attemptIf]
  | some v =>
    simp only [attemptIf, attempt]
    cases rule p v <;> simp

theorem Additive.demand {f : Applied δ → Applied δ} (hf : Additive f) (a : Applied δ) :
    demand (f a) = demand a >>= fun p => demand (f (p, [])) := by
  obtain ⟨p, ws⟩ := a
  cases ws with
  | nil => rfl
  | cons w ws =>
    rw [hf]
    rfl

/-- What a strict run makes of a piece can be told from what a lenient one makes of it: the same
piece if no directive was refused, else the first refusal. -/
theorem carryOut_eq (r : Rules δ) (p : Piece δ) (c : Commands) :
    carryOut r p c = demand (applyCommands r p c) := by
  have hextend : Additive fun a : Applied δ =>
      ((r.extend a.1 c).1, a.2 ++ (r.extend a.1 c).2.map fun f =>
        .ignored (specialName f) (specialValue c f) (r.extend a.1 c).1.kind
          (r.extend a.1 c).1.name) := by
    intro p ws
    simp
  rw [applyCommands_eq, hextend.demand, dressed_eq, (additive_attemptIf _ _ _).demand, decorated,
    (additive_attemptIf _ _ _).demand, named, (additive_attemptIf _ _ _).demand]
  simp only [carryOut, attempt_decorate, bind_assoc]
  rfl

/-- What a step leaves when every directive that cannot be applied is passed over. -/
def advance (r : Rules δ) (placement : Placement) (commands : Text → Commands)
    (s : Reconciliation δ) (e : Text × Piece δ) : Reconciliation δ :=
  if e.2.anonymous then { s with warnings := s.warnings ++ [.nameless e.2.kind] }
  else if (commands e.1).delete then { s with table := s.table.erase e.1 }
  else
    let a := applyCommands r (adopt (s.table.get? e.1) e.2) (commands e.1)
    ⟨place placement s.table e.1 (s.table.get? e.1) a.1, s.warnings ++ a.2⟩

/-- The table after one piece of the snippet. -/
def enter (r : Rules δ) (placement : Placement) (commands : Text → Commands) (t : Pieces δ)
    (e : Text × Piece δ) : Pieces δ :=
  if e.2.anonymous then t
  else if (commands e.1).delete then t.erase e.1
  else place placement t e.1 (t.get? e.1)
    (applyCommands r (adopt (t.get? e.1) e.2) (commands e.1)).1

section

variable {placement : Placement} {commands : Text → Commands}

theorem step_delete (strict : Bool) (s : Reconciliation δ) {e : Text × Piece δ}
    (hanon : e.2.anonymous = false) (hdel : (commands e.1).delete) :
    (step r placement strict commands s e).result = .ok { s with table := s.table.erase e.1 } := by
  by_cases hmissing : (s.table.get? e.1).isNone <;>
    by_cases hrename : ((commands e.1).rename.map (!·.isEmpty)).getD false <;>
    simp only [step, hanon, hdel, hmissing, hrename, Bool.false_eq_true, if_false, if_true] <;> rfl

theorem step_lenient (s : Reconciliation δ) (e : Text × Piece δ) :
    (step r placement false commands s e).result = .ok (advance r placement commands s e) := by
  by_cases hanon : e.2.anonymous
  · simp [step, advance, hanon]
  · by_cases hdel : (commands e.1).delete
    · rw [step_delete false s (by simpa using hanon) hdel]
      simp [advance, hanon, hdel]
    · simp [step, advance, hanon, hdel]

theorem eq_advance_of_step {strict : Bool} {s s' : Reconciliation δ} {e : Text × Piece δ}
    (h : (step r placement strict commands s e).result = .ok s') :
    s' = advance r placement commands s e := by
  cases strict with
  | false =>
    rw [step_lenient] at h
    exact (Except.ok.inj h).symm
  | true =>
    by_cases hanon : e.2.anonymous
    · simpa [step, advance, hanon] using h.symm
    · by_cases hdel : (commands e.1).delete
      · rw [step_delete true s (by simpa using hanon) hdel] at h
        simpa [advance, hanon, hdel] using h.symm
      · simp only [step, advance, hanon, hdel, carryOut_eq, Bool.false_eq_true, if_false,
          if_true] at h ⊢
        cases ha : applyCommands r (adopt (s.table.get? e.1) e.2) (commands e.1) with
        | mk merged ignored =>
          rw [ha] at h
          cases ignored with
          | nil => simpa [demand, Except.map] using h.symm
          | cons w ws => simp [demand, Except.map] at h

theorem advance_table (s : Reconciliation δ) (e : Text × Piece δ) :
    (advance r placement commands s e).table = enter r placement commands s.table e := by
  unfold advance enter
  split
  · rfl
  · split <;> rfl

theorem foldl_advance_table (es : List (Text × Piece δ)) (s : Reconciliation δ) :
    (es.foldl (advance r placement commands) s).table =
      es.foldl (enter r placement commands) s.table := by
  induction es generalizing s with
  | nil => rfl
  | cons e es ih => rw [List.foldl_cons, List.foldl_cons, ih, advance_table]

end

end Reconcile

open Reconcile

section

variable {δ : Type} {r : Rules δ} {placement : Placement} {commands : Text → Commands}
  {host snippet : Pieces δ}

theorem reconcile_lenient :
    (reconcile r placement false host snippet commands).result =
      .ok (snippet.entries.foldl (advance r placement commands) ⟨host, []⟩) :=
  Traced.result_foldlM_of_ok step_lenient _ _

theorem table_of_reconcile {strict : Bool} {s : Reconciliation δ}
    (h : (reconcile r placement strict host snippet commands).result = .ok s) :
    s.table = snippet.entries.foldl (enter r placement commands) host := by
  rw [Traced.eq_foldl_of_foldlM (fun _ _ _ => eq_advance_of_step) _ h, foldl_advance_table]

end

end Graft
