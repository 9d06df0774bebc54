import Graft.Proofs.Kept
import Mathlib.Data.List.Pairwise

set_option autoImplicit false

/-!
Replacements as one substitution. Edits that replace spans apart from each other come to the same as
looking at every character of the source on its own: the first one of a span gives way to the text,
the others of it go, and all characters outside stay. In what order the edits are given does not
matter.
-/

namespace Graft

namespace Edit

/-- What becomes of the character at an offset. -/
def replaced (edits : List Edit) (c : Char) (i : Nat) : Text :=
  match edits.find? (fun e => e.start = (i : Int)) with
  | some e => e.text.getD []
  | none => if isFree edits i then [c] else []

/-- The characters of a text that starts at `n`, each replaced on its own. -/
def substitutedFrom (edits : List Edit) (n : Nat) (t : Text) : Text :=
  (t.zipIdx n).flatMap fun ci => replaced edits ci.1 ci.2

def substituted (source : Text) (edits : List Edit) : Text := substitutedFrom edits 0 source

section

variable {edits es : List Edit} {e : Edit} {c : Char} {i : Nat}

theorem replaced_of_free (hspan : ∀ e ∈ edits, e.start < e.stop) (hfree : isFree edits i) :
    replaced edits c i = [c] := by
  have hnone : edits.find? (fun e => e.start = (i : Int)) = none := by
    rw [List.find?_eq_none]
    intro e he hstart
    have := hspan e he
    have := (List.any_eq_false.mp (Bool.not_eq_true' _ ▸ hfree)) e he
    simp only [covers, Bool.and_eq_true, decide_eq_true_eq] at hstart this
    omega
  rw [replaced, hnone]
  exact if_pos hfree

theorem replaced_start (hstart : e.start = (i : Int)) :
    replaced (e :: es) c i = e.text.getD [] := by
  have hfind : (e :: es).find? (fun f => f.start = (i : Int)) = some e :=
    List.find?_cons_of_pos (decide_eq_true hstart)
  rw [replaced, hfind]

theorem replaced_inside (hstart : e.start < i) (hstop : i < e.stop)
    (hes : ∀ f ∈ es, e.stop ≤ f.start) :
    replaced (e :: es) c i = [] := by
  have hnone : (e :: es).find? (fun f => f.start = (i : Int)) = none := by
    rw [List.find?_eq_none]
    intro f hf hfound
    rw [decide_eq_true_eq] at hfound
    rcases List.mem_cons.mp hf with rfl | hf
    · omega
    · have := hes f hf
      omega
  have hcovered : isFree (e :: es) i = false := by
    have hcover : e.covers i = true := by
      simp only [covers, Bool.and_eq_true, decide_eq_true_eq]
      omega
    rw [isFree_cons, hcover]
    rfl
  rw [replaced, hnone, hcovered]
  rfl

theorem replaced_behind (hspan : e.start < e.stop) (hstop : e.stop ≤ i) :
    replaced (e :: es) c i = replaced es c i := by
  have hcover : e.covers i = false := by
    simp only [covers, Bool.and_eq_false_iff, decide_eq_false_iff_not]
    omega
  have hfind : (e :: es).find? (fun f => f.start = (i : Int)) =
      es.find? (fun f => f.start = (i : Int)) :=
    List.find?_cons_of_neg (by rw [decide_eq_true_eq]; omega)
  rw [replaced, replaced, hfind, isFree_cons, hcover, Bool.not_false, Bool.true_and]

end

section

variable {edits es : List Edit} {e : Edit} {n : Nat} {t : Text}

theorem substitutedFrom_cons (edits : List Edit) (n : Nat) (c : Char) (t : Text) :
    substitutedFrom edits n (c :: t) = replaced edits c n ++ substitutedFrom edits (n + 1) t := by
  rw [substitutedFrom, List.zipIdx_cons, List.flatMap_cons]
  rfl

theorem substitutedFrom_append (edits : List Edit) (n : Nat) (t u : Text) :
    substitutedFrom edits n (t ++ u) = substitutedFrom edits n t ++
      substitutedFrom edits (n + t.length) u := by
  rw [substitutedFrom, List.zipIdx_append, List.flatMap_append]
  rfl

theorem substitutedFrom_congr
    (h : ∀ c i, n ≤ i → i < n + t.length → replaced edits c i = replaced es c i) :
    substitutedFrom edits n t = substitutedFrom es n t := by
  refine List.flatMap_congr fun ci hci => ?_
  obtain ⟨hlo, hhi, -⟩ := List.mem_zipIdx hci
  exact h ci.1 ci.2 hlo hhi

theorem substitutedFrom_before (hspan : ∀ e ∈ es, e.start < e.stop)
    (hbefore : ∀ e ∈ es, ((n + t.length : Nat) : Int) ≤ e.start) : substitutedFrom es n t = t := by
  induction t generalizing n with
  | nil => rfl
  | cons c t ih =>
    have hfree : isFree es n := by
      rw [isFree, Bool.not_eq_true', List.any_eq_false]
      intro e he
      have := hbefore e he
      simp only [covers, List.length_cons, Bool.and_eq_true, decide_eq_true_eq] at this ⊢
      omega
    have hrest := ih (n := n + 1) fun e he => by
      have := hbefore e he
      rw [List.length_cons] at this
      omega
    rw [substitutedFrom_cons, replaced_of_free hspan hfree, hrest]
    rfl

theorem substitutedFrom_span {c : Char} (hstart : e.start = (n : Int))
    (hstop : ((n + 1 + t.length : Nat) : Int) ≤ e.stop) (hes : ∀ f ∈ es, e.stop ≤ f.start) :
    substitutedFrom (e :: es) n (c :: t) = e.text.getD [] := by
  have hgone : substitutedFrom (e :: es) (n + 1) t = [] := by
    rw [substitutedFrom, List.flatMap_eq_nil_iff]
    intro ci hci
    obtain ⟨hlo, hhi, -⟩ := List.mem_zipIdx hci
    exact replaced_inside (by omega) (by omega) hes
  rw [substitutedFrom_cons, replaced_start hstart, hgone, List.append_nil]

theorem substitutedFrom_behind (hspan : e.start < e.stop) (hstop : e.stop ≤ (n : Int)) :
    substitutedFrom (e :: es) n t = substitutedFrom es n t :=
  substitutedFrom_congr fun _ _ hlo _ => replaced_behind hspan (by omega)

end

section

variable {source : Text} {es : List Edit}

theorem weave_eq_substituted (hes : ∀ e ∈ es, Replaces source e)
    (hsorted : es.Pairwise fun e f => e.stop ≤ f.start) {n : Nat} (hn : ∀ e ∈ es, n ≤ e.start) :
    weave source n es = substitutedFrom es n (source.drop n) := by
  induction es generalizing n with
  | nil => exact (substitutedFrom_before (by simp) (by simp)).symm
  | cons e es ih =>
    obtain ⟨hnext, hrest⟩ := List.pairwise_cons.mp hsorted
    have he := hes e List.mem_cons_self
    have hlt := he.start_lt
    have hle := he.stop_le
    have hfirst := hn e List.mem_cons_self
    obtain ⟨a, ha⟩ : ∃ a : Nat, e.start = a := ⟨e.start.toNat, by omega⟩
    obtain ⟨b, hb⟩ : ∃ b : Nat, e.stop = b := ⟨e.stop.toNat, by omega⟩
    -- The source falls into what is before the span, the span, and what is behind it.
    have hbefore : substitutedFrom (e :: es) n (source.slice n a) = source.slice n a := by
      refine substitutedFrom_before (fun f hf => (hes f hf).start_lt) fun f hf => ?_
      rw [Text.length_slice (by omega)]
      rcases List.mem_cons.mp hf with rfl | hf
      · omega
      · have := hnext f hf
        omega
    have hspan : substitutedFrom (e :: es) a (source.slice a b) = e.text.getD [] := by
      rw [Text.slice_eq_cons (List.getElem?_eq_getElem (by omega)) (by omega)]
      exact substitutedFrom_span ha (by rw [Text.length_slice (by omega)]; omega) hnext
    have hbehind : substitutedFrom (e :: es) b (source.drop b) = weave source b es := by
      rw [substitutedFrom_behind hlt (by omega),
        ih (fun f hf => hes f (List.mem_cons_of_mem e hf)) hrest]
      intro f hf
      have := hnext f hf
      omega
    have hmax : max e.stop.toNat n = b := by omega
    have hstart : e.start.toNat = a := by omega
    rw [← Text.slice_append_drop source (show n ≤ a by omega),
      ← Text.slice_append_drop source (show a ≤ b by omega), substitutedFrom_append,
      substitutedFrom_append, Text.length_slice (by omega), Text.length_slice (by omega),
      Nat.add_sub_cancel' (by omega), Nat.add_sub_cancel' (by omega), hbefore, hspan, hbehind,
      weave, hmax, hstart, List.append_assoc]

end

section

variable {edits edits' : List Edit}

instance : Std.Symm Disjoint := ⟨fun _ _ h => Or.symm h⟩

section

variable (hspan : ∀ e ∈ edits, e.start < e.stop) (hdisjoint : edits.Pairwise Disjoint)
include hspan hdisjoint

theorem eq_of_start_eq {e f : Edit} (he : e ∈ edits) (hf : f ∈ edits)
    (hstart : e.start = f.start) : e = f := by
  by_contra hne
  have hapart := hdisjoint.forall he hf hne
  have := hspan e he
  have := hspan f hf
  unfold Disjoint at hapart
  omega

theorem mergeSort_of_perm (hperm : edits'.Perm edits) :
    edits'.mergeSort before = edits.mergeSort before := by
  have hsorted := List.pairwise_mergeSort before_trans before_total
  have hall := (List.mergeSort_perm edits' before).trans hperm
  refine List.Perm.eq_of_pairwise ?_ (hsorted edits') (hsorted edits)
    (hall.trans (List.mergeSort_perm edits before).symm)
  intro e f he hf hef hfe
  refine eq_of_start_eq hspan hdisjoint (hall.mem_iff.mp he)
    ((List.mergeSort_perm edits before).mem_iff.mp hf) ?_
  simp only [before, Bool.or_eq_true, Bool.and_eq_true, decide_eq_true_eq, beq_iff_eq] at hef hfe
  omega

theorem replaced_of_perm
    (hperm : edits'.Perm edits) (c : Char) (i : Nat) :
    replaced edits' c i = replaced edits c i := by
  have hfind : edits'.find? (fun e => e.start = (i : Int)) =
      edits.find? (fun e => e.start = (i : Int)) := by
    cases hfound : edits.find? (fun e => e.start = (i : Int)) with
    | none =>
      rw [List.find?_eq_none] at hfound ⊢
      exact fun e he => hfound e (hperm.mem_iff.mp he)
    | some e =>
      have he := List.mem_of_find?_eq_some hfound
      have hstart : e.start = i := by simpa using List.find?_some hfound
      cases hfound' : edits'.find? (fun e => e.start = (i : Int)) with
      | none =>
        exact absurd (decide_eq_true hstart)
          (List.find?_eq_none.mp hfound' e (hperm.mem_iff.mpr he))
      | some f =>
        have hf := hperm.mem_iff.mp (List.mem_of_find?_eq_some hfound')
        have hstart' : f.start = i := by simpa using List.find?_some hfound'
        rw [eq_of_start_eq hspan hdisjoint hf he (hstart'.trans hstart.symm)]
  rw [replaced, replaced, hfind, isFree_of_perm hperm]

end

end

/-- Replacements of spans apart from each other are one substitution, in whatever order they are
given. Only a final newline of the source is put back where the substitution takes it away. -/
theorem applyEdits_eq_substituted {source : Text} {edits : List Edit}
    (hedits : ∀ e ∈ edits, Replaces source e) (hdisjoint : edits.Pairwise Disjoint) :
    applyEdits source edits = substituted source edits ++
        (if source.getLast? = some '\n' ∧ (substituted source edits).getLast? ≠ some '\n' then
          ['\n'] else []) ∧
      ∀ edits', edits'.Perm edits → applyEdits source edits' = applyEdits source edits := by
  have hspan : ∀ e ∈ edits, e.start < e.stop := fun e he => (hedits e he).start_lt
  have hperm : (edits.mergeSort before).Perm edits := List.mergeSort_perm edits before
  have hes : ∀ e ∈ edits.mergeSort before, Replaces source e :=
    fun e he => hedits e (hperm.mem_iff.mp he)
  have hrun : ((edits.mergeSort before).foldl (step source) {}).out ++
      source.drop ((edits.mergeSort before).foldl (step source) {}).cursor =
        substituted source edits := by
    rw [foldl_step_replaces hes,
      weave_eq_substituted hes (pairwise_disjoint_mergeSort hspan hdisjoint) fun e he =>
      (hes e he).start_nonneg]
    exact substitutedFrom_congr fun c i _ _ => replaced_of_perm hspan hdisjoint hperm c i
  refine ⟨?_, fun edits' hperm' => ?_⟩
  · simp only [applyEdits, hrun, Bool.and_eq_true, beq_iff_eq, bne_iff_ne]
    split
    · rfl
    · rw [List.append_nil]
  · simp only [applyEdits, mergeSort_of_perm hspan hdisjoint hperm']

theorem applyEdits_eq_substituted_touching :
    (∀ e ∈ ([⟨6, 8, some "\nz".toList⟩, ⟨4, 5, some []⟩, ⟨0, 4, some "xy ".toList⟩] : List Edit),
        Replaces "fn a b;\n".toList e) ∧
      applyEdits "fn a b;\n".toList [⟨6, 8, some "\nz".toList⟩, ⟨4, 5, some []⟩,
        ⟨0, 4, some "xy ".toList⟩] =
        "xy b\nz\n".toList ∧
      applyEdits "fn a b;\n".toList [⟨0, 4, some "xy ".toList⟩, ⟨6, 8, some "\nz".toList⟩,
        ⟨4, 5, some []⟩] =
        "xy b\nz\n".toList := by
  have hedits :
      ∀ e ∈ ([⟨6, 8, some "\nz".toList⟩, ⟨4, 5, some []⟩, ⟨0, 4, some "xy ".toList⟩] : List Edit),
      Replaces "fn a b;\n".toList e := by
    simp only [List.forall_mem_cons, List.not_mem_nil, false_imp_iff, implies_true, and_true]
    exact ⟨⟨by decide, by decide, by decide, rfl⟩, ⟨by decide, by decide, by decide, rfl⟩,
      ⟨by decide, by decide, by decide, rfl⟩⟩
  obtain ⟨heq, hperm⟩ := applyEdits_eq_substituted hedits (by simp [Disjoint])
  have hfirst := heq.trans (show _ = "xy b\nz\n".toList by decide +kernel)
  exact ⟨hedits, hfirst, (hperm _ (by decide)).trans hfirst⟩

end Edit

end Graft
