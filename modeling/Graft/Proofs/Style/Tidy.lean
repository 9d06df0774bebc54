import Graft.Proofs.Item.Header
import Graft.Style.Merge

set_option autoImplicit false

/-!
Blanks that carry nothing: a run of them counts as one, and next to a comma or at either end they do
not count at all. The canonical form of a selector drops no more than that.
-/

namespace Graft.Style

/-- What are gaps and what are commas in a sequence, and what a gap is written as. -/
structure Spacing (α : Type) where
  isGap : α → Bool
  isComma : α → Bool
  space : α

namespace Spacing

variable {α β : Type}

/-- One gap for a run of them and one behind each comma, but none before a comma or at either end.
`after` is true where no gap is written, at the start and behind a comma with its gap; `gap` is true
where one was passed. -/
def tidy (σ : Spacing α) : Bool → Bool → List α → List α
  | _, _, [] => []
  | after, gap, x :: xs =>
    if σ.isGap x then σ.tidy after true xs
    else if σ.isComma x then x :: σ.space :: σ.tidy true false xs
    else if gap && !after then σ.space :: x :: σ.tidy false false xs
    else x :: σ.tidy false false xs

variable {σ : Spacing α} {a g : Bool} {x : α} {xs ys : List α}

theorem tidy_gap (hx : σ.isGap x) : σ.tidy a g (x :: xs) = σ.tidy a true xs := by
  rw [tidy, if_pos hx]

theorem tidy_comma (hx : σ.isGap x = false) (hcomma : σ.isComma x) :
    σ.tidy a g (x :: xs) = x :: σ.space :: σ.tidy true false xs := by
  rw [tidy, if_neg (by simp [hx]), if_pos hcomma]

theorem tidy_plain (hx : σ.isGap x = false) (hcomma : σ.isComma x = false) :
    σ.tidy a g (x :: xs) = (if g && !a then [σ.space] else []) ++ x :: σ.tidy false false xs := by
  rw [tidy, if_neg (by simp [hx]), if_neg (by simp [hcomma])]
  split <;> rfl

theorem tidy_after (g g' : Bool) (xs : List α) : σ.tidy true g xs = σ.tidy true g' xs := by
  cases xs with
  | nil => rfl
  | cons x xs => simp [tidy]

theorem tidy_gaps (hxs : ∀ x ∈ xs, σ.isGap x) (ys : List α) :
    σ.tidy a true (xs ++ ys) = σ.tidy a true ys := by
  induction xs with
  | nil => rfl
  | cons x xs ih =>
    obtain ⟨hx, hxs⟩ := List.forall_mem_cons.mp hxs
    rw [List.cons_append, tidy_gap hx, ih hxs]

theorem tidy_gaps_of_ne_nil (hne : xs ≠ []) (hxs : ∀ x ∈ xs, σ.isGap x) (ys : List α) :
    σ.tidy a g (xs ++ ys) = σ.tidy a true ys := by
  obtain ⟨x, xs, rfl⟩ := List.exists_cons_of_ne_nil hne
  obtain ⟨hx, hxs⟩ := List.forall_mem_cons.mp hxs
  rw [List.cons_append, tidy_gap hx, tidy_gaps hxs]

theorem tidy_skip (h : a = true ∨ g = true) (hxs : ∀ x ∈ xs, σ.isGap x) (ys : List α) :
    σ.tidy a g (xs ++ ys) = σ.tidy a g ys := by
  rcases h with rfl | rfl
  · by_cases hne : xs = []
    · rw [hne, List.nil_append]
    · rw [tidy_gaps_of_ne_nil hne hxs, tidy_after true g]
  · exact tidy_gaps hxs ys

theorem tidy_gaps_comma (hxs : ∀ x ∈ xs, σ.isGap x) (hx : σ.isGap x = false) (hcomma : σ.isComma x)
    (ys : List α) :
    σ.tidy a g (xs ++ x :: ys) = σ.tidy a g (x :: ys) := by
  by_cases hne : xs = []
  · rw [hne, List.nil_append]
  · rw [tidy_gaps_of_ne_nil hne hxs, tidy_comma hx hcomma, tidy_comma hx hcomma]

theorem tidy_append_congr (h : ∀ a g, σ.tidy a g xs = σ.tidy a g ys) (zs : List α) :
    σ.tidy a g (zs ++ xs) = σ.tidy a g (zs ++ ys) := by
  induction zs generalizing a g with
  | nil => exact h a g
  | cons z zs ih => simp only [List.cons_append, tidy, ih]

theorem exists_tidy_append (hne : xs ≠ []) (hxs : ∀ x ∈ xs, σ.isGap x = false) :
    ∃ zs after, ∀ ys, σ.tidy a g (xs ++ ys) = zs ++ σ.tidy after false ys := by
  induction xs generalizing a g with
  | nil => contradiction
  | cons x xs ih =>
    obtain ⟨hx, hxs⟩ := List.forall_mem_cons.mp hxs
    have hrest : ∀ a, ∃ zs after, ∀ ys,
        σ.tidy a false (xs ++ ys) = zs ++ σ.tidy after false ys := by
      intro a
      by_cases hnil : xs = []
      · exact ⟨[], a, fun ys => by rw [hnil]; rfl⟩
      · exact ih hnil hxs
    by_cases hcomma : σ.isComma x
    · obtain ⟨zs, after, hzs⟩ := hrest true
      exact ⟨x :: σ.space :: zs, after,
        fun ys => by rw [List.cons_append, tidy_comma hx hcomma, hzs]; rfl⟩
    · obtain ⟨zs, after, hzs⟩ := hrest false
      refine ⟨(if g && !a then [σ.space] else []) ++ x :: zs, after, fun ys => ?_⟩
      rw [List.cons_append, tidy_plain hx (by simpa using hcomma), hzs, List.append_assoc,
        List.cons_append]

theorem tidy_append_of_plain (hne : xs ≠ [])
    (hxs : ∀ x ∈ xs, σ.isGap x = false ∧ σ.isComma x = false) (ys : List α) :
    σ.tidy a g (xs ++ ys) = (if g && !a then [σ.space] else []) ++
      (xs ++ σ.tidy false false ys) := by
  induction xs generalizing a g with
  | nil => contradiction
  | cons x xs ih =>
    obtain ⟨hx, hxs⟩ := List.forall_mem_cons.mp hxs
    rw [List.cons_append, tidy_plain hx.1 hx.2]
    by_cases hnil : xs = []
    · rw [hnil]
      rfl
    · rw [ih hnil hxs]
      rfl

/-- Written with `f`, a gap is a run of gaps and a comma one comma. All else keeps its text in a
sequence, whatever stands before and behind it. -/
structure Writes (σ : Spacing α) (τ : Spacing β) (f : α → List β) (x : α) : Prop where
  gap : σ.isGap x → f x ≠ [] ∧ ∀ y ∈ f x, τ.isGap y
  comma : σ.isGap x = false → σ.isComma x → ∃ y, f x = [y] ∧ τ.isGap y = false ∧ τ.isComma y
  plain : σ.isGap x = false → σ.isComma x = false → ∀ a g ys,
    τ.tidy a g (f x ++ ys) = (if g && !a then [τ.space] else []) ++ (f x ++ τ.tidy false false ys)

theorem flatMap_tidy {τ : Spacing β} {f : α → List β} (hspace : f σ.space = [τ.space])
    (h : ∀ x ∈ xs, Writes σ τ f x) : (σ.tidy a g xs).flatMap f = τ.tidy a g (xs.flatMap f) := by
  induction xs generalizing a g with
  | nil => rfl
  | cons x xs ih =>
    obtain ⟨hx, hxs⟩ := List.forall_mem_cons.mp h
    rw [List.flatMap_cons]
    by_cases hgap : σ.isGap x
    · obtain ⟨hne, hgaps⟩ := hx.gap hgap
      rw [tidy_gap hgap, ih hxs, tidy_gaps_of_ne_nil hne hgaps]
    have hgap := Bool.eq_false_iff.mpr hgap
    by_cases hcomma : σ.isComma x
    · obtain ⟨y, hy, hink, hτ⟩ := hx.comma hgap hcomma
      rw [tidy_comma hgap hcomma, List.flatMap_cons, List.flatMap_cons, ih hxs, hy, hspace]
      exact (tidy_comma hink hτ).symm
    have hcomma := Bool.eq_false_iff.mpr hcomma
    rw [tidy_plain hgap hcomma, hx.plain hgap hcomma, List.flatMap_append,
      List.flatMap_cons, ih hxs]
    congr 1
    split
    · rw [List.flatMap_singleton, hspace]
    · rfl

end Spacing

open Text

def Spacing.ofChars : Spacing Char := ⟨isBlank, (· == ','), ' '⟩

def tidyText (t : Text) : Text := Spacing.ofChars.tidy true false t

open Spacing

variable {a g : Bool}

theorem tidy_squeeze (h : a = true ∨ g = true) (t : Text) :
    ofChars.tidy a g t.squeeze = ofChars.tidy a g t := by
  induction hlength : t.length using Nat.strongRecOn generalizing a g t with
  | ind n ih =>
    subst hlength
    cases t with
    | nil => rfl
    | cons c t =>
      by_cases hc : isBlank c
      · have hwords : words (c :: t) = words t := words_append_cons hc [] t
        have hskip : ofChars.tidy a g (c :: t) = ofChars.tidy a g t :=
          tidy_skip h (List.forall_mem_singleton.mpr hc) t
        rw [hskip, squeeze, hwords]
        exact ih t.length (by simp) h t rfl
      · -- the first word and what follows it
        have hsplit := List.takeWhile_append_dropWhile (p := (!isBlank ·)) (l := c :: t)
        have hw : (c :: t).takeWhile (!isBlank ·) ≠ [] := by simp [hc]
        have hink : ∀ d ∈ (c :: t).takeWhile (!isBlank ·), isBlank d = false := fun d hd => by
          simpa using List.mem_takeWhile_imp hd
        rcases hrest : (c :: t).dropWhile (!isBlank ·) with _ | ⟨d, (r : Text)⟩
        · rw [hrest, List.append_nil] at hsplit
          rw [hsplit] at hink
          rw [squeeze, words_of_ink (List.cons_ne_nil c t) hink, join, List.intercalate_singleton]
        · generalize (c :: t).takeWhile (!isBlank ·) = w at hsplit hw hink
          have hd : isBlank d := by
            have hhead := List.head?_dropWhile_not (!isBlank ·) (c :: t)
            rw [hrest] at hhead
            simpa using hhead
          rw [hrest] at hsplit
          have hr : r.length < (c :: t).length := by
            rw [← hsplit, List.length_append, List.length_cons]
            omega
          obtain ⟨zs, after, hzs⟩ : ∃ zs after, ∀ u,
              ofChars.tidy a g (w ++ u) = zs ++ ofChars.tidy after false u :=
            exists_tidy_append hw hink
          have hih : ofChars.tidy after true r.squeeze = ofChars.tidy after true r :=
            ih r.length hr (.inr rfl) r rfl
          have hwords : words (w ++ d :: r) = w :: words r := by
            rw [words_append_cons hd, words_of_ink hw hink]
            rfl
          rw [← hsplit, hzs, tidy_gap hd, ← hih, squeeze, hwords]
          by_cases hnil : words r = []
          · have hsqueeze : r.squeeze = [] := by rw [squeeze, hnil]; rfl
            have hend := hzs []
            rw [List.append_nil] at hend
            rw [hnil, hsqueeze, join, List.intercalate_singleton, hend]
            rfl
          · rw [join_cons [' '] w hnil, List.append_assoc, hzs, List.singleton_append,
              tidy_gap (by decide)]
            rfl

theorem tidy_trimEnd (t : Text) {u : Text} :
    ofChars.tidy a g (t.trimEnd ++ ',' :: u) = ofChars.tidy a g (t ++ ',' :: u) := by
  obtain ⟨b, hb, hblank⟩ := exists_dropLastWhile_append isBlank t
  conv_rhs => rw [hb, List.append_assoc]
  exact tidy_append_congr (fun a g => (tidy_gaps_comma hblank (by decide) (by decide) u).symm) _

theorem tidy_trimStart (t u : Text) :
    ofChars.tidy true g (t.trimStart ++ u) = ofChars.tidy true g (t ++ u) := by
  have hsplit := List.takeWhile_append_dropWhile (p := isBlank) (l := t)
  conv_rhs => rw [← hsplit, List.append_assoc]
  exact (tidy_skip (.inl rfl) (fun c hc => List.mem_takeWhile_imp hc) _).symm

theorem tidy_comma_append {u v : Text} (h : ∀ g, ofChars.tidy true g u = ofChars.tidy true g v) :
    ofChars.tidy a g (", ".toList ++ u) = ofChars.tidy a g ([','] ++ v) := by
  calc ofChars.tidy a g (", ".toList ++ u) = ',' :: ' ' :: ofChars.tidy true false (' ' :: u) :=
      tidy_comma (by decide) (by decide)
    _ = ',' :: ' ' :: ofChars.tidy true true u := by rw [tidy_gap (by decide)]
    _ = ',' :: ' ' :: ofChars.tidy true false v := by rw [h, tidy_after]
    _ = ofChars.tidy a g ([','] ++ v) := by
      rw [List.singleton_append, tidy_comma (by decide) (by decide)]
      rfl

theorem tidy_join (pieces : List Text) (last : Text) :
    ofChars.tidy true g (join ", ".toList (pieces.map trim ++ [last.trimStart])) =
      ofChars.tidy true g (join [','] (pieces ++ [last])) := by
  induction pieces generalizing g with
  | nil =>
    have htrim := tidy_trimStart (g := g) last []
    rw [List.append_nil, List.append_nil] at htrim
    simpa [join] using htrim
  | cons t pieces ih =>
    rw [List.map_cons, List.cons_append, List.cons_append, join_cons _ _ (by simp),
      join_cons _ _ (by simp), List.append_assoc, List.append_assoc, tidy_append_congr fun a g =>
        tidy_comma_append fun g => ih]
    rw [List.singleton_append, trim, tidy_trimEnd, tidy_trimStart]

theorem tidyText_spaceCommas (t : Text) : tidyText (spaceCommas t) = tidyText t := by
  have hjoin := join_splitOn ',' t
  unfold spaceCommas
  split
  · next heq => exact absurd heq (splitWhen_ne_nil _ t)
  · next only heq =>
    rw [heq, join, List.intercalate_singleton] at hjoin
    rw [hjoin]
  · next first rest hne heq =>
    obtain ⟨pieces, last, rfl⟩ : ∃ pieces last, rest = pieces ++ [last] := by
      have hrest : rest ≠ [] := by
        rintro rfl
        exact hne rfl
      exact ⟨_, _, (List.dropLast_append_getLast hrest).symm⟩
    rw [heq, join_cons _ _ (by simp), List.append_assoc] at hjoin
    rw [List.dropLast_concat, List.getLast?_concat, Option.map_some, Option.getD_some,
      join_cons _ _ (by simp), ← hjoin, List.append_assoc, tidyText, tidyText,
      tidy_append_congr fun a g => tidy_comma_append fun g => tidy_join pieces last]
    exact tidy_trimEnd first

theorem tidyText_of_canonical {vs ws : List Value} (h : canonical vs = canonical ws) :
    tidyText (Value.serialize vs) = tidyText (Value.serialize ws) := by
  have hform : ∀ vs, tidyText (canonical vs) = tidyText (Value.serialize vs) := by
    intro vs
    rw [canonical, tidyText_spaceCommas]
    exact tidy_squeeze (.inl rfl) _
  rw [← hform, ← hform, h]

def isInk (c : Char) : Bool := !isBlank c && c != ','

/-- Blanks are single spaces between two characters, and a comma has a space behind it, as in a
canonical form. -/
def isSpaced : Text → Bool
  | [] => true
  | [c] => isInk c
  | c :: d :: t =>
    (if isBlank c then c == ' ' && isInk d else if c == ',' then d == ' ' else true) &&
      isSpaced (d :: t)

/-- No blank and no comma at either end, and none inside that a canonical form would change. -/
def isSteady (t : Text) : Bool := t.head?.any isInk && isSpaced t

theorem isInk_iff {c : Char} : isInk c ↔ isBlank c = false ∧ c ≠ ',' := by
  simp [isInk]

theorem isSpaced_tail {c : Char} {t : Text} (h : isSpaced (c :: t)) : isSpaced t := by
  cases t with
  | nil => rfl
  | cons d t =>
    rw [isSpaced, Bool.and_eq_true] at h
    exact h.2

theorem exists_of_isSpaced {c : Char} {t : Text} (h : isSpaced (c :: t)) (hc : isInk c = false) :
    ∃ d u, t = d :: u ∧ (isBlank c → c = ' ' ∧ isInk d) ∧
      (isBlank c = false → c = ',' ∧ d = ' ') := by
  cases t with
  | nil =>
    rw [isSpaced, hc] at h
    contradiction
  | cons d t =>
    rw [isSpaced, Bool.and_eq_true] at h
    refine ⟨d, t, rfl, fun hblank => by simpa [hblank] using h.1, fun hblank => ?_⟩
    have hcomma : c = ',' := by simpa [isInk, hblank] using hc
    have hnext := h.1
    rw [if_neg (by simp [hblank]), if_pos (by simpa using hcomma)] at hnext
    exact ⟨hcomma, by simpa using hnext⟩

theorem tidy_ink {c : Char} (hc : isInk c) (t : Text) :
    ofChars.tidy a g (c :: t) = (if g && !a then [' '] else []) ++
      c :: ofChars.tidy false false t := by
  obtain ⟨hblank, hcomma⟩ := isInk_iff.mp hc
  exact tidy_plain hblank (beq_eq_false_iff_ne.mpr hcomma)

theorem tidy_append_of_isSpaced {t : Text} (h : isSpaced t) (u : Text) :
    ofChars.tidy false false (t ++ u) = t ++ ofChars.tidy false false u := by
  induction hlength : t.length using Nat.strongRecOn generalizing t with
  | ind n ih =>
    subst hlength
    cases t with
    | nil => rfl
    | cons c t =>
      have ht := isSpaced_tail h
      by_cases hc : isInk c
      · rw [List.cons_append, tidy_ink hc, ih _ (by simp) ht rfl]
        rfl
      obtain ⟨d, v, rfl, hblank, hcomma⟩ := exists_of_isSpaced h (by simpa using hc)
      have hv := isSpaced_tail ht
      by_cases hb : isBlank c
      · obtain ⟨rfl, hd⟩ := hblank hb
        rw [List.cons_append, tidy_gap hb, List.cons_append, tidy_ink hd,
          ih _ (by simp only [List.length_cons]; omega) hv rfl]
        rfl
      · obtain ⟨rfl, rfl⟩ := hcomma (by simpa using hb)
        -- behind the comma and its space stands a character
        obtain ⟨d, w, rfl, hblank, -⟩ := exists_of_isSpaced ht (by decide)
        rw [List.cons_append, tidy_comma (by decide) (by decide), List.cons_append,
          tidy_gap (by decide), List.cons_append, tidy_ink (hblank (by decide)).2,
          ih _ (by simp; omega) (isSpaced_tail hv) rfl]
        rfl

theorem tidy_append_of_isSteady {t : Text} (h : isSteady t) (u : Text) :
    ofChars.tidy a g (t ++ u) = (if g && !a then [' '] else []) ++
      (t ++ ofChars.tidy false false u) := by
  rw [isSteady, Bool.and_eq_true] at h
  cases t with
  | nil => simp at h
  | cons c t =>
    rw [List.cons_append, tidy_ink (by simpa using h.1),
      tidy_append_of_isSpaced (isSpaced_tail h.2), List.cons_append]

end Graft.Style
