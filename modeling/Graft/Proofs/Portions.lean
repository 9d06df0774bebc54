import Graft.Proofs.Kept

set_option autoImplicit false

/-!
What an edited text is made of, told offset by offset. In the order of the edits, each one first
lets those characters before it through that were neither let through nor taken away so far, then it
puts in its text; the characters behind all edits come last. Up to blanks this is the edited text. A
stretch that no edit meets stands in it as it was, with what the edits before it make of the source
before it, and likewise behind it.
-/

namespace Graft

namespace Text

theorem pick_between (t : Text) (a b : Nat) : t.pick (fun i => a ≤ i && i < b) = t.slice a b := by
  rcases Nat.le_total b a with hba | hab
  · rw [slice_of_le hba]
    refine pickFrom_false fun i _ _ => ?_
    simp only [Bool.and_eq_false_iff, decide_eq_false_iff_not]
    omega
  · have hbefore : pickFrom (fun i => a ≤ i && i < b) 0 (t.slice 0 a) = [] := by
      refine pickFrom_false fun i _ hi => ?_
      have := length_slice_le t 0 a
      simp only [Bool.and_eq_false_iff, decide_eq_false_iff_not]
      omega
    have hbetween : pickFrom (fun i => a ≤ i && i < b) a (t.slice a b) = t.slice a b := by
      refine pickFrom_true fun i hi hlt => ?_
      have := length_slice_le t a b
      simp only [Bool.and_eq_true, decide_eq_true_eq]
      omega
    have hbehind : pickFrom (fun i => a ≤ i && i < b) b (t.drop b) = [] := by
      refine pickFrom_false fun i hi _ => ?_
      simp only [Bool.and_eq_false_iff, decide_eq_false_iff_not]
      omega
    have hall := pickFrom_drop (fun i => a ≤ i && i < b) t (Nat.zero_le a)
    rwa [pickFrom_drop _ t hab, hbefore, hbetween, hbehind, List.append_nil,
      List.nil_append] at hall

theorem pick_from (t : Text) (a : Nat) : t.pick (fun i => a ≤ i) = t.drop a := by
  have hall : t.pick (fun i => a ≤ i) = t.pick (fun i => a ≤ i && i < t.length) :=
    pickFrom_congr fun i _ hi => by simp [show i < t.length by omega]
  rw [hall, pick_between, slice, List.take_length]

theorem slice_take (t : Text) {a b c : Nat} (h : c ≤ a) : slice (t.take a) b c = t.slice b c := by
  rw [slice, slice, List.take_take, Nat.min_eq_left h]

end Text

namespace Edit

/-- `es` is `edits` from left to right, by their starts and then by their stops. Edits of one span
keep the order in which they are given. -/
structure Ordered (edits es : List Edit) : Prop where
  perm : es.Perm edits
  sorted : es.Pairwise fun e f => e.start < f.start ∨ (e.start = f.start ∧ e.stop ≤ f.stop)
  stable : ∀ a b : Int,
    es.filter (fun e => e.start = a ∧ e.stop = b) = edits.filter (fun e => e.start = a ∧ e.stop = b)

theorem before_iff {e f : Edit} :
    before e f ↔ e.start < f.start ∨ (e.start = f.start ∧ e.stop ≤ f.stop) := by
  simp [before]

theorem ordered_mergeSort (edits : List Edit) : Ordered edits (edits.mergeSort before) where
  perm := List.mergeSort_perm edits before
  sorted := (List.pairwise_mergeSort before_trans before_total edits).imp before_iff.mp
  stable a b := by
    -- Edits of one span are in order as they are, and the sort keeps what is in order.
    have hsorted : (edits.filter fun e => e.start = a ∧ e.stop = b).Pairwise fun e f =>
        before e f := by
      refine List.Pairwise.imp_of_mem (R := fun _ _ => True) ?_
        (List.pairwise_of_forall fun _ _ => trivial)
      intro e f he hf _
      have he := of_decide_eq_true (List.mem_filter.mp he).2
      have hf := of_decide_eq_true (List.mem_filter.mp hf).2
      exact before_iff.mpr (by omega)
    have hsublist := List.sublist_mergeSort before_trans before_total hsorted List.filter_sublist
    have hfiltered := hsublist.filter fun e => e.start = a ∧ e.stop = b
    rw [List.filter_filter] at hfiltered
    simp only [Bool.and_self] at hfiltered
    exact (hfiltered.eq_of_length ((List.mergeSort_perm edits before).filter _).length_eq.symm).symm

/-- What edits write, one after the other. Those offsets are `left` that were neither written nor
taken away so far: an edit writes the ones before its start, then its text, and takes away those
that it covers. -/
def portions (source : Text) : (Nat → Bool) → List Edit → Text
  | _, [] => []
  | left, e :: es =>
    source.pick (fun i => left i && i < e.start.toNat) ++ e.text.getD [] ++
      portions source (fun i => left i && !decide (i < e.start.toNat) && !e.covers i) es

def pieced (source : Text) (left : Nat → Bool) (es : List Edit) : Text :=
  portions source left es ++ source.pick fun i => left i && es.all (·.stop.toNat ≤ i)

theorem weave_eq_pieced (source : Text) {es : List Edit} (hspan : ∀ e ∈ es, e.start ≤ e.stop)
    (cursor : Nat) :
    weave source cursor es = pieced source (fun i => cursor ≤ i) es := by
  induction es generalizing cursor with
  | nil => simp [weave, pieced, portions, Text.pick_from]
  | cons e es ih =>
    have he : e.start ≤ e.stop := hspan e List.mem_cons_self
    have hleft : (fun i => decide (cursor ≤ i) && !decide (i < e.start.toNat) && !e.covers i) =
        fun i => decide (max e.stop.toNat cursor ≤ i) := by
      funext i
      rw [Bool.eq_iff_iff]
      simp only [covers, Bool.and_eq_true, Bool.not_eq_true', Bool.and_eq_false_iff,
        decide_eq_true_eq, decide_eq_false_iff_not]
      omega
    have hlast : (fun i => decide (cursor ≤ i) && (e :: es).all (·.stop.toNat ≤ i)) =
        fun i => decide (max e.stop.toNat cursor ≤ i) && es.all (·.stop.toNat ≤ i) := by
      funext i
      simp only [List.all_cons, ← Bool.and_assoc, Nat.max_le, Bool.decide_and]
      rw [Bool.and_comm (decide (cursor ≤ i))]
    rw [weave, ih fun f hf => hspan f (List.mem_cons_of_mem e hf), pieced, pieced, portions,
      hleft, hlast, Text.pick_between]
    simp only [List.append_assoc]

/-- An edited text without its blanks: in the order of the edits, before each of them what is left
of the source, then its text, and in the end what is behind all of them. -/
theorem ink_applyEdits_eq_pieced (source : Text) (edits : List Edit)
    (hspan : ∀ e ∈ edits, e.start ≤ e.stop) :
    Ordered edits (edits.mergeSort before) ∧
      (applyEdits source edits).ink =
        (pieced source (fun _ => true) (edits.mergeSort before)).ink := by
  have hordered := ordered_mergeSort edits
  refine ⟨hordered, ?_⟩
  rw [ink_applyEdits, weave_eq_pieced source fun e he => hspan e (hordered.perm.mem_iff.mp he)]
  simp

/-- A replacement that a deletion and an insertion overlap, and a deletion behind the source. -/
theorem ink_applyEdits_eq_pieced_overlap :
    (applyEdits "ab cd\n\n ef gh\n".toList
      [⟨9, 11, none⟩, ⟨5, 5, some "X\n".toList⟩, ⟨3, 10, some "Y Z".toList⟩, ⟨20, 30, none⟩]).ink =
        "abYZXgh".toList := by
  have hpieced := (ink_applyEdits_eq_pieced "ab cd\n\n ef gh\n".toList
    [⟨9, 11, none⟩, ⟨5, 5, some "X\n".toList⟩, ⟨3, 10, some "Y Z".toList⟩, ⟨20, 30, none⟩]
      (by decide)).2
  have hsorted : [⟨9, 11, none⟩, ⟨5, 5, some "X\n".toList⟩, ⟨3, 10, some "Y Z".toList⟩,
      ⟨20, 30, none⟩].mergeSort before =
      [⟨3, 10, some "Y Z".toList⟩, ⟨5, 5, some "X\n".toList⟩, ⟨9, 11, none⟩, ⟨20, 30, none⟩] := by
    simp [List.mergeSort, List.MergeSort.Internal.splitInTwo, before]
  rw [hpieced, hsorted]
  decide +kernel

section

variable {source : Text} {a b : Nat}

theorem weave_append {es₁ es₂ : List Edit} (hab : a ≤ b)
    (h₁ : ∀ e ∈ es₁, e.start ≤ e.stop ∧ e.stop ≤ a) (h₂ : ∀ e ∈ es₂, e.start ≤ e.stop ∧ b ≤ e.start)
    {c : Nat} (hc : c ≤ a) :
    weave source c (es₁ ++ es₂) = weave (source.take a) c es₁ ++ source.slice a b ++
      weave source b es₂ := by
  induction es₁ generalizing c with
  | nil =>
    change weave source c es₂ = source.slice c a ++ source.slice a b ++ weave source b es₂
    rw [Text.slice_append_slice source hc hab]
    cases es₂ with
    | nil => exact (Text.slice_append_drop source (Nat.le_trans hc hab)).symm
    | cons e es₂ =>
      have he := h₂ e List.mem_cons_self
      have hstop : max e.stop.toNat c = max e.stop.toNat b := by omega
      rw [weave, weave, hstop,
        ← Text.slice_append_slice source (Nat.le_trans hc hab) (show b ≤ e.start.toNat by omega)]
      simp only [List.append_assoc]
  | cons e es₁ ih =>
    have he := h₁ e List.mem_cons_self
    rw [List.cons_append, weave, weave,
      ih (fun f hf => h₁ f (List.mem_cons_of_mem e hf)) (by omega),
      Text.slice_take source (show e.start.toNat ≤ a by omega)]
    simp only [List.append_assoc]

theorem Visible.cursor_foldl (h : Visible source a b) {es : List Edit} (hes : ∀ e ∈ es, e.stop ≤ a)
    {p : Progress} (hp : p.cursor ≤ a) : (es.foldl (step source) p).cursor ≤ a := by
  induction es generalizing p with
  | nil => exact hp
  | cons e es ih =>
    exact ih (fun f hf => hes f (List.mem_cons_of_mem e hf))
      (h.cursor_step (hes e List.mem_cons_self) hp)

theorem Visible.prefix_foldl (h : Visible source a b) {es : List Edit}
    (hes : ∀ e ∈ es, (b : Int) ≤ e.start) {p : Progress} (hp : p.cursor ≤ a) :
    p.out ++ source.slice p.cursor a ++ source.slice a b <+:
      (es.foldl (step source) p).out ++ source.drop (es.foldl (step source) p).cursor := by
  obtain ⟨i, -, hai, hib, -⟩ := h.first
  obtain ⟨u, c, heq, hc⟩ := h.last
  cases es with
  | nil =>
    rw [List.foldl_nil, List.append_assoc, Text.slice_append_slice source hp (by omega),
      ← Text.slice_append_drop source (show p.cursor ≤ b by omega), ← List.append_assoc]
    exact List.prefix_append _ _
  | cons e es =>
    have hstart := hes e List.mem_cons_self
    have hcopied : p.out ++ source.slice p.cursor a ++ source.slice a b <+:
        p.out ++ source.slice p.cursor (max e.start.toNat p.cursor) := by
      rw [← Text.slice_append_slice source (b := b) (by omega)
        (show b ≤ max e.start.toNat p.cursor by omega),
        ← Text.slice_append_slice source hp (show a ≤ b by omega)]
      simp only [← List.append_assoc]
      exact List.prefix_append _ _
    rw [heq, ← List.append_assoc] at hcopied ⊢
    exact (prefix_foldl_step hc es (prefix_step hc e hcopied)).trans (List.prefix_append _ _)

theorem Visible.of_ends (hab : a < b) (hfirst : ∃ c, source[a]? = some c ∧ Text.isBlank c = false)
    (hlast : ∃ c, source[b - 1]? = some c ∧ Text.isBlank c = false) : Visible source a b where
  first := by
    obtain ⟨c, hget, hc⟩ := hfirst
    exact ⟨a, c, Nat.le_refl a, hab, hget, hc, by simp⟩
  last := by
    obtain ⟨c, hget, hc⟩ := hlast
    refine ⟨source.slice a (b - 1), c, ?_, hc⟩
    rw [← Text.slice_eq_concat (by omega) hget, Nat.sub_add_cancel (by omega)]

theorem Spares.of_not_covers {e : Edit} (hab : a < b) (hspan : e.start ≤ e.stop)
    (hcover : e.start < e.stop → ∀ i, a ≤ i → i < b → e.covers i = false)
    (hinside : e.start = e.stop → ¬(a < e.start ∧ e.start < b)) : e.Spares a b := by
  rcases Int.lt_or_eq_of_le hspan with hlt | hpoint
  · -- If the span met the stretch, it would cover the first offset that both have.
    by_contra hmeets
    simp only [Spares, not_or, Int.not_le] at hmeets
    have := hcover hlt (max a e.start.toNat) (by omega) (by omega)
    simp only [covers, Bool.and_eq_false_iff, decide_eq_false_iff_not] at this
    omega
  · have := hinside hpoint
    simp only [Spares]
    omega

theorem filter_append_filter_of_spares {es : List Edit}
    (hsorted : es.Pairwise fun e f => e.start ≤ f.start)
    (hspares : ∀ e ∈ es, e.start ≤ e.stop ∧ e.Spares a b) (hab : a < b) :
    es.filter (fun e => e.stop ≤ (a : Int)) ++ es.filter (fun e => (b : Int) ≤ e.start) = es := by
  have hbefore : es.filter (fun e => e.stop ≤ (a : Int)) =
      es.filter (fun e => !decide ((b : Int) ≤ e.start)) := by
    refine List.filter_congr fun e he => ?_
    obtain ⟨hspan, hspared⟩ := hspares e he
    unfold Spares at hspared
    rw [← decide_not, decide_eq_decide]
    omega
  rw [hbefore]
  refine filter_not_append_filter (hsorted.imp fun {e f} hle hstart => ?_)
  rw [decide_eq_true_eq] at hstart ⊢
  omega

theorem Visible.exists_foldl (h : Visible source a b) (hab : a < b) {es : List Edit}
    (hsorted : es.Pairwise fun e f => e.start ≤ f.start)
    (hspares : ∀ e ∈ es, e.start ≤ e.stop ∧ e.Spares a b) :
    ∃ x y, (es.foldl (step source) {}).out ++ source.drop (es.foldl (step source) {}).cursor =
        x ++ source.slice a b ++ y ∧
      x.ink = (pieced (source.take a) (fun _ => true) (es.filter fun e => e.stop ≤ (a : Int))).ink ∧
      y.ink = (pieced source (fun i => b ≤ i) (es.filter fun e => (b : Int) ≤ e.start)).ink := by
  have hsplit := filter_append_filter_of_spares hsorted hspares hab
  have h₁ : ∀ e ∈ es.filter fun e => e.stop ≤ (a : Int),
      e.start ≤ e.stop ∧ e.stop ≤ a := fun e he =>
    ⟨(hspares e (List.mem_filter.mp he).1).1, of_decide_eq_true (List.mem_filter.mp he).2⟩
  have h₂ : ∀ e ∈ es.filter fun e => (b : Int) ≤ e.start,
      e.start ≤ e.stop ∧ (b : Int) ≤ e.start := fun e he =>
    ⟨(hspares e (List.mem_filter.mp he).1).1, of_decide_eq_true (List.mem_filter.mp he).2⟩
  generalize (es.filter fun e => e.stop ≤ (a : Int)) = es₁ at *
  generalize (es.filter fun e => (b : Int) ≤ e.start) = es₂ at *
  subst hsplit
  have hweave := foldl_step_weave source (es₁ ++ es₂) {}
  have hweave₁ := foldl_step_weave source es₁ {}
  have hcursor : (es₁.foldl (step source) {}).cursor ≤ a :=
    h.cursor_foldl (fun e he => (h₁ e he).2) (Nat.zero_le a)
  rw [weave_append (Nat.le_of_lt hab) h₁ h₂ (Nat.zero_le a)] at hweave
  rw [← List.append_nil es₁, weave_append (Nat.le_of_lt hab) h₁ (by simp) (Nat.zero_le a),
    List.append_nil] at hweave₁
  rw [List.foldl_append] at hweave ⊢
  generalize es₁.foldl (step source) {} = p at *
  obtain ⟨y, hy⟩ := h.prefix_foldl (fun e he => (h₂ e he).2) hcursor
  -- What is written when the stretch is copied is all that the edits before it make.
  have hx : (p.out ++ source.slice p.cursor a).ink = (weave (source.take a) 0 es₁).ink := by
    have hdrop : source.slice a b ++ weave source b [] = source.drop a :=
      Text.slice_append_drop source (Nat.le_of_lt hab)
    rw [List.append_assoc, hdrop, ← Text.slice_append_drop source hcursor, ← List.append_assoc,
      Text.ink_append _ (source.drop a), Text.ink_append _ (source.drop a)] at hweave₁
    exact List.append_cancel_right hweave₁
  refine ⟨p.out ++ source.slice p.cursor a, y, hy.symm, ?_, ?_⟩
  · rw [hx, weave_eq_pieced _ fun e he => (h₁ e he).1]
    simp
  · rw [← hy] at hweave
    rw [Text.ink_append, Text.ink_append, hx] at hweave
    rw [← weave_eq_pieced source fun e he => (h₂ e he).1]
    simpa using hweave

end

/-- A stretch whose ends show, which no edit covers a part of and none is put into, is in the edited
text as it was. Up to blanks, before it stands what the edits before it make of the source before
it, and likewise behind it. -/
theorem applyEdits_keeps_region (source : Text) (edits : List Edit) {a b : Nat}
    (hspan : ∀ e ∈ edits, e.start ≤ e.stop) (hab : a < b)
    (hfirst : ∃ c, source[a]? = some c ∧ Text.isBlank c = false)
    (hlast : ∃ c, source[b - 1]? = some c ∧ Text.isBlank c = false)
    (hcover : ∀ e ∈ edits, e.start < e.stop → ∀ i, a ≤ i → i < b → e.covers i = false)
    (hinside : ∀ e ∈ edits, e.start = e.stop → ¬(a < e.start ∧ e.start < b)) :
    ∃ x y, applyEdits source edits = x ++ source.slice a b ++ y ∧
      x.ink = (pieced (source.take a) (fun _ => true)
        ((edits.mergeSort before).filter fun e => e.stop ≤ (a : Int))).ink ∧
      y.ink = (pieced source (fun i => b ≤ i) ((edits.mergeSort before).filter fun e =>
        (b : Int) ≤ e.start)).ink := by
  have hspares : ∀ e ∈ edits.mergeSort before, e.start ≤ e.stop ∧ e.Spares a b := by
    intro e he
    have he := (List.mergeSort_perm edits before).mem_iff.mp he
    exact ⟨hspan e he, .of_not_covers hab (hspan e he) (hcover e he) (hinside e he)⟩
  obtain ⟨x, y, hrun, hx, hy⟩ := (Visible.of_ends hab hfirst hlast).exists_foldl hab
    (pairwise_start_mergeSort edits) hspares
  simp only [applyEdits, hrun]
  split
  · -- A final newline does not show.
    have hnewline : Text.ink ['\n'] = [] := by decide
    exact ⟨x, y ++ ['\n'], by simp, hx, by rw [Text.ink_append, hnewline, List.append_nil, hy]⟩
  · exact ⟨x, y, rfl, hx, hy⟩

theorem applyEdits_keeps_region_deletions :
    ∃ x y, applyEdits "x\n\n\nb\n\n c\n\nz\n".toList
        [⟨11, 12, none⟩, ⟨9, 9, some "Q\n".toList⟩, ⟨0, 1, none⟩, ⟨4, 4, none⟩] =
          x ++ "b\n\n c".toList ++ y ∧ x.ink = [] ∧ y.ink = "Q".toList := by
  have hsorted :
      [⟨11, 12, none⟩, ⟨9, 9, some "Q\n".toList⟩, ⟨0, 1, none⟩, ⟨4, 4, none⟩].mergeSort before =
      [⟨0, 1, none⟩, ⟨4, 4, none⟩, ⟨9, 9, some "Q\n".toList⟩, ⟨11, 12, none⟩] := by
    simp [List.mergeSort, List.MergeSort.Internal.splitInTwo, before]
  obtain ⟨x, y, heq, hx, hy⟩ := applyEdits_keeps_region "x\n\n\nb\n\n c\n\nz\n".toList
    [⟨11, 12, none⟩, ⟨9, 9, some "Q\n".toList⟩, ⟨0, 1, none⟩, ⟨4, 4, none⟩] (a := 4) (b := 9)
      (by decide) (by decide)
    ⟨'b', rfl, by decide⟩ ⟨'c', rfl, by decide⟩
      (by simp [covers]; constructor <;> omega) (by decide)
  rw [hsorted] at hx hy
  exact ⟨x, y, heq, hx.trans (by decide +kernel), hy.trans (by decide +kernel)⟩

end Edit

end Graft
