import Graft.Proofs.Splice

set_option autoImplicit false

/-!
What edits leave as it is. A stretch of the source that no edit meets is found again in the outcome,
blanks included, if its first line and its last character show. Replacements leave all blanks around
them alone, so those that put back what they take away change nothing.
-/

namespace Graft

theorem filter_not_append_filter {α : Type} {p : α → Bool} {l : List α}
    (h : l.Pairwise fun a b => p a → p b) :
    l.filter (!p ·) ++ l.filter p = l := by
  induction l with
  | nil => rfl
  | cons a l ih =>
    obtain ⟨ha, hl⟩ := List.pairwise_cons.mp h
    by_cases hp : p a
    · have hall : ∀ b ∈ l, p b := fun b hb => ha b hb hp
      rw [List.filter_eq_nil_iff.mpr, List.filter_eq_self.mpr, List.nil_append]
      · simpa [hp] using hall
      · simpa [hp] using hall
    · rw [List.filter_cons_of_pos (by simpa using hp), List.filter_cons_of_neg hp,
        List.cons_append, ih hl]

namespace Text

theorem prefix_dropLastWhile {p : Char → Bool} {u t : Text} {c : Char} (hc : p c = false)
    (h : u ++ [c] <+: t) : u ++ [c] <+: t.dropLastWhile p := by
  obtain ⟨y, rfl⟩ := h
  by_cases hy : dropLastWhile p y = []
  · obtain ⟨b, hb, hall⟩ := exists_dropLastWhile_append p y
    rw [hy, List.nil_append] at hb
    rw [hb, dropLastWhile_append_of_all _ hall, dropLastWhile_concat _ hc]
  · rw [dropLastWhile_append_of_ne_nil _ hy]
    exact List.prefix_append _ _

theorem infix_dropLastWhile {p : Char → Bool} {u t : Text} {c : Char} (hc : p c = false)
    (h : u ++ [c] <:+: t) : u ++ [c] <:+: t.dropLastWhile p := by
  obtain ⟨x, y, rfl⟩ := h
  have hpre : (x ++ u) ++ [c] <+: dropLastWhile p (x ++ (u ++ [c]) ++ y) :=
    prefix_dropLastWhile hc ⟨y, by simp⟩
  rw [List.append_assoc] at hpre
  exact (List.suffix_append x _).isInfix.trans hpre.isInfix

theorem slice_infix_slice (t : Text) {a b c d : Nat} (hac : a ≤ c) (hcd : c ≤ d) (hdb : d ≤ b) :
    t.slice c d <:+: t.slice a b := by
  rw [← slice_append_slice t (Nat.le_trans hac hcd) hdb, ← slice_append_slice t hac hcd]
  exact ⟨t.slice a c, t.slice d b, rfl⟩

theorem slice_infix_drop (t : Text) {a c d : Nat} (hac : a ≤ c) (hcd : c ≤ d) :
    t.slice c d <:+: t.drop a := by
  rw [← slice_append_drop t (Nat.le_trans hac hcd), ← slice_append_slice t hac hcd]
  exact ⟨t.slice a c, t.drop d, rfl⟩

theorem getElem?_slice {t : Text} {a b i : Nat} (hai : a ≤ i) (hib : i < b) :
    (t.slice a b)[i - a]? = t[i]? := by
  rw [slice_eq, List.getElem?_take_of_lt (by omega), List.getElem?_drop, Nat.add_sub_cancel' hai]

theorem mem_slice {t : Text} {a b i : Nat} {c : Char} (hai : a ≤ i) (hib : i < b)
    (hi : t[i]? = some c) :
    c ∈ t.slice a b :=
  List.mem_of_getElem? ((getElem?_slice hai hib).trans hi)

end Text

namespace Edit

section

variable {source u : Text} {c : Char} {p : Progress}

section

variable (hc : Text.isBlank c = false)
include hc

theorem prefix_closeGap (h : u ++ [c] <+: p.out) :
    u ++ [c] <+: (closeGap source p).out := by
  have htrim : u ++ [c] <+: p.out.dropLastWhile Text.isIndent := by
    refine Text.prefix_dropLastWhile (Bool.eq_false_iff.mpr fun hindent => ?_) h
    rw [Text.isBlank_of_isIndent hindent] at hc
    contradiction
  unfold closeGap
  split
  · exact h
  · dsimp only
    split
    · split <;> exact htrim
    · exact htrim

theorem prefix_delete (h : u ++ [c] <+: p.out) :
    u ++ [c] <+: (delete source p).out := by
  have hgap : u ++ [c] <+: (closeGap source p).out := prefix_closeGap hc h
  simp only [delete]
  split
  · exact Text.prefix_dropLastWhile hc hgap
  · exact hgap

theorem prefix_insert (h : u ++ [c] <+: p.out) (text : Text) :
    u ++ [c] <+: (insert source text p).out := by
  obtain ⟨tail, -, heq⟩ := insert_eq source text p
  have hhead : u ++ [c] <+: p.out.trimEnd := Text.prefix_dropLastWhile hc h
  have hne : p.out.trimEnd ≠ [] := by
    intro hnil
    rw [hnil] at hhead
    simpa using hhead.length_le
  have hlead : u ++ [c] <+: lead p.out := by
    simp only [lead, List.isEmpty_iff, hne, if_false]
    exact hhead.trans (List.prefix_append _ _)
  rw [heq, List.append_assoc]
  exact hlead.trans (List.prefix_append _ _)

theorem prefix_step (e : Edit)
    (h : u ++ [c] <+: p.out ++ source.slice p.cursor (max e.start.toNat p.cursor)) :
    u ++ [c] <+: (step source p e).out := by
  simp only [step]
  cases e.text with
  | none => exact prefix_delete hc h
  | some text =>
    dsimp only
    split
    · exact prefix_insert hc h text
    · exact h.trans (List.prefix_append _ _)

theorem prefix_foldl_step (es : List Edit) (h : u ++ [c] <+: p.out) :
    u ++ [c] <+: (es.foldl (step source) p).out := by
  induction es generalizing p with
  | nil => exact h
  | cons e es ih => exact ih (prefix_step hc e (h.trans (List.prefix_append _ _)))

theorem infix_step (e : Edit)
    (h : u ++ [c] <:+: p.out ++ source.slice p.cursor (max e.start.toNat p.cursor)) :
    u ++ [c] <:+: (step source p e).out := by
  obtain ⟨x, y, hxy⟩ := h
  have hpre : (x ++ u) ++ [c] <+: (step source p e).out :=
    prefix_step hc e ⟨y, by rw [← hxy]; simp⟩
  rw [List.append_assoc] at hpre
  exact (List.suffix_append x _).isInfix.trans hpre.isInfix

theorem infix_foldl_step (es : List Edit) (h : u ++ [c] <:+: p.out) :
    u ++ [c] <:+: (es.foldl (step source) p).out := by
  induction es generalizing p with
  | nil => exact h
  | cons e es ih => exact ih (infix_step hc e (h.trans (List.prefix_append _ _).isInfix))

end

end

/-- The edit neither takes anything away between two offsets nor puts anything in there. -/
def Spares (e : Edit) (a b : Nat) : Prop := e.stop ≤ a ∨ b ≤ e.start

/-- A stretch of the source whose first line and last character show. -/
structure Visible (source : Text) (a b : Nat) : Prop where
  first : ∃ i c, a ≤ i ∧ i < b ∧ source[i]? = some c ∧ Text.isBlank c = false ∧
    '\n' ∉ source.slice a i
  last : ∃ u c, source.slice a b = u ++ [c] ∧ Text.isBlank c = false

/-- The stretch is still to be read, or it is written. -/
def Keeps (source : Text) (a b : Nat) (p : Progress) : Prop :=
  p.cursor ≤ a ∨ source.slice a b <:+: p.out

section

variable {source : Text} {a b : Nat}

theorem newline_of_lineEnd {n k : Nat} (h : lineEnd? (source.drop n) = some k) :
    0 < k ∧ source[n + k - 1]? = some '\n' := by
  obtain ⟨stop, rest, hstop, heq, hk⟩ := eq_of_lineEnd h
  obtain ⟨pre, hpre⟩ : ∃ pre, Text.indentation (source.drop n) ++ stop = pre ++ ['\n'] := by
    rcases hstop with rfl | rfl
    · exact ⟨_, rfl⟩
    · exact ⟨Text.indentation (source.drop n) ++ ['\r'], by simp⟩
  have hlen := congrArg List.length hpre
  simp only [List.length_append, List.length_singleton] at hlen
  have hindex : n + k - 1 = n + pre.length := by omega
  refine ⟨by omega, ?_⟩
  rw [hindex, ← List.getElem?_drop, heq, hpre, List.append_assoc,
    List.getElem?_append_right (Nat.le_refl _), Nat.sub_self]
  rfl

section

variable (h : Visible source a b)
include h

theorem Visible.le_of_lineEnd {n k : Nat} (hn : n ≤ a) (hk : lineEnd? (source.drop n) = some k) :
    n + k ≤ a := by
  obtain ⟨i, c, hai, -, hi, hc, hline⟩ := h.first
  obtain ⟨hpos, hnewline⟩ := newline_of_lineEnd hk
  by_contra hlt
  rcases Nat.lt_or_ge i (n + k) with hik | hik
  · have hink : c ∈ (source.slice n (n + k)).ink := by
      rw [Text.ink, List.mem_filter]
      exact ⟨Text.mem_slice (by omega) hik hi, by simp [hc]⟩
    rw [ink_slice_of_lineEnd hk] at hink
    contradiction
  · exact hline (Text.mem_slice (by omega) (by omega) hnewline)

theorem Visible.not_blank_drop {n : Nat} (hn : n ≤ a) :
    Text.isBlankText (source.drop n) = false := by
  obtain ⟨i, c, hai, -, hi, hc, -⟩ := h.first
  rw [Text.isBlankText, List.all_eq_false]
  have hmem : c ∈ source.drop n := by
    refine List.mem_of_getElem? (i := i - n) ?_
    rwa [List.getElem?_drop, Nat.add_sub_cancel' (by omega)]
  exact ⟨c, hmem, by simp [hc]⟩

theorem Visible.cursor_closeGap {p : Progress} (hp : p.cursor ≤ a) :
    (closeGap source p).cursor ≤ a := by
  unfold closeGap
  split
  · exact hp
  · rename_i n hn
    have hfirst : p.cursor + n ≤ a := h.le_of_lineEnd hp hn
    dsimp only
    split
    · rename_i m hm
      split
      · exact h.le_of_lineEnd hfirst hm
      · exact hfirst
    · exact hfirst

theorem Visible.cursor_step {e : Edit} (hstop : e.stop ≤ a) {p : Progress}
    (hp : p.cursor ≤ a) : (step source p e).cursor ≤ a := by
  simp only [step]
  cases e.text with
  | none =>
    have hgap :=
      h.cursor_closeGap (p := ⟨p.out ++ source.slice p.cursor (max e.start.toNat p.cursor),
        max e.stop.toNat p.cursor⟩) (by simp only; omega)
    simp only [delete]
    rw [if_neg (by simp [h.not_blank_drop hgap])]
    exact hgap
  | some text =>
    dsimp only
    split
    · simp only [insert]
      omega
    · simp only
      omega

theorem Visible.keeps_step {e : Edit} (he : e.Spares a b) {p : Progress}
    (hp : Keeps source a b p) : Keeps source a b (step source p e) := by
  obtain ⟨i, -, hai, hib, -⟩ := h.first
  obtain ⟨u, c, heq, hc⟩ := h.last
  rcases hp with hcursor | hout
  · rcases he with hstop | hstart
    · exact Or.inl (h.cursor_step hstop hcursor)
    · -- The source is copied up to the edit, and the stretch with it.
      have hread := Text.slice_infix_slice source (b := max e.start.toNat p.cursor) hcursor
        (show a ≤ b by omega) (by omega)
      refine Or.inr ?_
      rw [heq] at hread ⊢
      exact infix_step hc e (hread.trans (List.suffix_append _ _).isInfix)
  · refine Or.inr ?_
    rw [heq] at hout ⊢
    exact infix_step hc e (hout.trans (List.prefix_append _ _).isInfix)

theorem Visible.keeps_foldl {es : List Edit} (hes : ∀ e ∈ es, e.Spares a b)
    {p : Progress} (hp : Keeps source a b p) : Keeps source a b (es.foldl (step source) p) := by
  induction es generalizing p with
  | nil => exact hp
  | cons e es ih => exact ih (fun x hx => hes x (by simp [hx])) (h.keeps_step (hes e (by simp)) hp)

theorem Visible.infix_applyEdits {edits : List Edit}
    (hedits : ∀ e ∈ edits, e.Spares a b) : source.slice a b <:+: applyEdits source edits := by
  obtain ⟨i, -, hai, hib, -⟩ := h.first
  have hsorted : ∀ e ∈ edits.mergeSort before, e.Spares a b := fun e he =>
    hedits e ((List.mergeSort_perm edits before).mem_iff.mp he)
  have hkept := h.keeps_foldl hsorted (p := {}) (Or.inl (Nat.zero_le a))
  have hout : source.slice a b <:+: ((edits.mergeSort before).foldl (step source) {}).out ++
      source.drop ((edits.mergeSort before).foldl (step source) {}).cursor := by
    rcases hkept with hc | hout
    · exact (Text.slice_infix_drop source hc (by omega)).trans (List.suffix_append _ _).isInfix
    · exact hout.trans (List.prefix_append _ _).isInfix
  simp only [applyEdits]
  split
  · exact hout.trans (List.prefix_append _ _).isInfix
  · exact hout

end

end

/-- The edit puts a text in the place of a part of the source that is not empty. -/
structure Replaces (source : Text) (e : Edit) : Prop where
  start_nonneg : 0 ≤ e.start
  start_lt : e.start < e.stop
  stop_le : e.stop ≤ source.length
  text : e.text.isSome

section

variable {source : Text} {es : List Edit}

theorem step_replaces {e : Edit} (he : Replaces source e) (p : Progress) :
    step source p e =
      ⟨p.out ++ source.slice p.cursor e.start.toNat ++ e.text.getD [],
        max e.stop.toNat p.cursor⟩ := by
  obtain ⟨text, htext⟩ := Option.isSome_iff_exists.mp he.text
  have hne : e.start ≠ e.stop := Int.ne_of_lt he.start_lt
  simp only [step, htext, hne, if_false, Text.slice_max, Option.getD_some]

theorem foldl_step_replaces (hes : ∀ e ∈ es, Replaces source e) (p : Progress) :
    (es.foldl (step source) p).out ++ source.drop (es.foldl (step source) p).cursor =
      p.out ++ weave source p.cursor es := by
  induction es generalizing p with
  | nil => rfl
  | cons e es ih =>
    rw [List.foldl_cons, ih fun f hf => hes f (List.mem_cons_of_mem e hf),
      step_replaces (hes e List.mem_cons_self), weave]
    simp only [List.append_assoc]

end

def Disjoint (e f : Edit) : Prop := e.stop ≤ f.start ∨ f.stop ≤ e.start

theorem pairwise_disjoint_mergeSort {edits : List Edit} (hspan : ∀ e ∈ edits, e.start < e.stop)
    (hdisjoint : edits.Pairwise Disjoint) :
    (edits.mergeSort before).Pairwise fun e f => e.stop ≤ f.start := by
  have hperm : (edits.mergeSort before).Perm edits := List.mergeSort_perm edits before
  have hsymm : ∀ {e f : Edit}, Disjoint e f → Disjoint f e := fun h => h.symm
  refine ((pairwise_start_mergeSort edits).and
    ((hperm.pairwise_iff hsymm).mpr hdisjoint)).imp_of_mem ?_
  rintro e f he hf ⟨hle, hdis⟩
  have := hspan e (hperm.mem_iff.mp he)
  have := hspan f (hperm.mem_iff.mp hf)
  unfold Disjoint at hdis
  omega

/-- The edit puts back what it takes away. -/
structure Restores (source : Text) (e : Edit) : Prop extends Replaces source e where
  restored : e.text = some (source.slice e.start.toNat e.stop.toNat)

theorem weave_restores {source : Text} {es : List Edit} (hes : ∀ e ∈ es, Restores source e)
    (hsorted : es.Pairwise fun e f => e.stop ≤ f.start) {n : Nat} (hn : ∀ e ∈ es, n ≤ e.start) :
    weave source n es = source.drop n := by
  induction es generalizing n with
  | nil => rfl
  | cons e es ih =>
    have he := hes e List.mem_cons_self
    obtain ⟨hfirst, hrest⟩ := List.pairwise_cons.mp hsorted
    have := he.start_lt
    have := hn e List.mem_cons_self
    have hmax : max e.stop.toNat n = e.stop.toNat := by omega
    have hbehind : weave source e.stop.toNat es = source.drop e.stop.toNat := by
      refine ih (fun f hf => hes f (List.mem_cons_of_mem e hf)) hrest fun f hf => ?_
      have := hfirst f hf
      omega
    rw [weave, he.restored, Option.getD_some, hmax, hbehind, List.append_assoc,
      Text.slice_append_drop source (show e.start.toNat ≤ e.stop.toNat by omega),
      Text.slice_append_drop source (show n ≤ e.start.toNat by omega)]

theorem applyEdits_restores {source : Text} {edits : List Edit}
    (hedits : ∀ e ∈ edits, Restores source e) (hdisjoint : edits.Pairwise Disjoint) :
    applyEdits source edits = source := by
  have hes : ∀ e ∈ edits.mergeSort before, Restores source e := fun e he =>
    hedits e ((List.mergeSort_perm edits before).mem_iff.mp he)
  have hsorted := pairwise_disjoint_mergeSort (fun e he => (hedits e he).start_lt) hdisjoint
  have hrun := foldl_step_replaces (fun e he => (hes e he).toReplaces) {}
  rw [weave_restores hes hsorted fun e he => (hes e he).start_nonneg] at hrun
  simp only [applyEdits, hrun]
  split
  · rename_i hlast
    simp at hlast
  · rfl

end Edit

end Graft
