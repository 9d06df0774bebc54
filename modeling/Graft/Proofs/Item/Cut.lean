import Graft.Proofs.Item.Document

set_option autoImplicit false

/-!
Where a source can be cut. At a cut no lexeme is broken, and the rest reads as a source of its own;
so what stands between two cuts has a shape of its own. The skeleton of a source, in which all but
its brackets and semicolons is blank, has these shapes at the offsets of the source.
-/

namespace Graft.Item

open Lexeme

/-- The source with all but its brackets and semicolons blanked out. -/
def skeleton (ls : List Lexeme) : Text :=
  ls.flatMap fun
    | .plain c => [if Document.isStructural c then c else ' ']
    | .masked t => List.replicate t.length ' '

@[simp] theorem skeleton_append (ls ls' : List Lexeme) :
    skeleton (ls ++ ls') = skeleton ls ++ skeleton ls' :=
  List.flatMap_append

theorem length_skeleton (ls : List Lexeme) :
    (skeleton ls).length = (ls.flatMap Lexeme.text).length := by
  induction ls with
  | nil => rfl
  | cons l ls ih =>
    rw [← List.singleton_append, skeleton_append, List.flatMap_append, List.length_append,
      List.length_append, ih]
    cases l <;> simp [skeleton, Lexeme.text]

theorem isBlank_of_isStructural {c : Char} (hc : Document.isStructural c) :
    Text.isBlank c = false := by
  by_contra h
  rw [isStructural_of_isBlank (by simpa using h)] at hc
  contradiction

theorem ink_pickFrom_skeleton (p : Nat → Bool) (n : Nat) (ls : List Lexeme) :
    (Text.pickFrom p n (skeleton ls)).ink =
      ((Document.tokensFrom n ls).filter (p ·.offset)).map (·.char) := by
  have hspace : Text.isBlank ' ' = true := by decide
  induction ls generalizing n with
  | nil => rfl
  | cons l ls ih =>
    rw [← List.singleton_append, skeleton_append, Text.pickFrom_append, Text.ink_append, ih]
    cases l with
    | plain c =>
      have hlen : (skeleton [.plain c]).length = 1 := rfl
      rw [hlen, List.singleton_append, Document.tokensFrom]
      by_cases hc : Document.isStructural c
      · by_cases hp : p n <;>
          simp [skeleton, Text.pickFrom, hc, hp, Text.ink_cons, isBlank_of_isStructural hc]
      · by_cases hp : p n <;> simp [skeleton, Text.pickFrom, hc, hp, Text.ink_cons, hspace]
    | masked t =>
      have hlen : (skeleton [.masked t]).length = t.length := by simp [skeleton]
      have hblank : (Text.pickFrom p n (skeleton [.masked t])).ink = [] := by
        rw [Text.ink_eq_nil_iff, Text.isBlankText, List.all_eq_true]
        intro c hc
        have hmem : c ∈ List.replicate t.length ' ' := by
          simpa [skeleton] using Text.mem_of_mem_pickFrom hc
        rw [List.eq_of_mem_replicate hmem]
        exact hspace
      rw [hlen, hblank, List.singleton_append, Document.tokensFrom]
      rfl

theorem ink_skeleton (ls : List Lexeme) : (skeleton ls).ink = shape ls := by
  have hpick := ink_pickFrom_skeleton (fun _ => true) 0 ls
  rw [Text.pickFrom_true (by simp)] at hpick
  rw [hpick, List.filter_true, Document.map_char_tokensFrom]

/-- No lexeme is broken at the offset, and what follows reads as a source of its own. -/
def Cut (source : Text) (ls : List Lexeme) (n : Nat) : Prop :=
  n ≤ source.length ∧ ∃ ls₁ ls₂, ls = ls₁ ++ ls₂ ∧
    Lexes none (source.take n) ls₁ (source.drop n) ∧ Lexes none (source.drop n) ls₂ []

section

variable {source : Text} {ls : List Lexeme}

theorem cut_length (h : Lexes none source ls []) : Cut source ls source.length := by
  refine ⟨Nat.le_refl _, ls, [], (List.append_nil ls).symm, ?_, ?_⟩
  · rwa [List.take_length, List.drop_length]
  · rw [List.drop_length]
    exact .nil _ _

theorem cut_zero (h : Lexes none source ls []) : Cut source ls 0 :=
  ⟨Nat.zero_le _, [], ls, rfl, .nil _ _, h⟩

theorem cut_of_append {ls₁ ls₂ : List Lexeme} (h : Lexes none source (ls₁ ++ ls₂) [])
    (hmid : midWord (lastOr none (ls₁.flatMap Lexeme.text)) = false ∨
      ∃ c ls₃, ls₂ = .plain c :: ls₃ ∧ c ≠ 'r' ∧ c ≠ 'b') :
    Cut source (ls₁ ++ ls₂) (ls₁.flatMap Lexeme.text).length := by
  obtain ⟨x, y, rfl, h₁, h₂⟩ := h.split
  rw [h₁.text_eq] at hmid ⊢
  refine ⟨by simp, ls₁, ls₂, rfl, ?_, ?_⟩
  · rw [List.take_left, List.drop_left]
    rwa [List.append_nil] at h₁
  · rw [List.drop_left]
    rcases hmid with hmid | ⟨c, ls₃, rfl, hr, hb⟩
    · exact h₂.restart hmid
    · cases h₂ with
      | plain hc h => exact Lexes.restart_of_head (.plain hc h) hr hb none

theorem Cut.skip {a b : Nat} (h : Cut source ls a) (hab : a ≤ b) (hb : b ≤ source.length)
    (hblank : Text.isBlankText (source.slice a b)) : Cut source ls b := by
  obtain ⟨-, ls₁, ls₂, rfl, h₁, h₂⟩ := h
  have hdrop : source.drop a = source.slice a b ++ source.drop b :=
    (Text.slice_append_drop source hab).symm
  rw [hdrop] at h₂
  obtain ⟨ls₃, rfl, h₃⟩ := h₂.of_blanks hblank
  refine ⟨hb, ls₁ ++ (source.slice a b).map .plain, ls₃, by simp, ?_, ?_⟩
  · rw [← Text.take_append_slice source hab]
    refine Lexes.append ?_ (.blanks hblank _ _)
    rwa [← hdrop]
  · exact h₃.restart (midWord_blanks hblank)

theorem Cut.slice {a b : Nat} (ha : Cut source ls a) (hb : Cut source ls b) (hab : a ≤ b) :
    ∃ ls', Lexes none (source.slice a b) ls' (source.drop b) ∧
      shape ls' = ((skeleton ls).slice a b).ink := by
  obtain ⟨hal, ls₁, ls₂, rfl, ha₁, ha₂⟩ := ha
  obtain ⟨hbl, ms₁, ms₂, heq, hb₁, hb₂⟩ := hb
  have hlen₁ : (ls₁.flatMap Lexeme.text).length = a := by
    rw [ha₁.text_eq, List.length_take]
    omega
  have hlen₂ : (ms₁.flatMap Lexeme.text).length = b := by
    rw [hb₁.text_eq, List.length_take]
    omega
  have hmid : ∃ mid, ms₁ = ls₁ ++ mid ∧ ls₂ = mid ++ ms₂ := by
    rcases List.append_eq_append_iff.mp heq with ⟨mid, h₁, h₂⟩ | ⟨mid, h₁, h₂⟩
    · exact ⟨mid, h₁, h₂⟩
    · -- The cuts are the same, since no lexeme is empty.
      subst h₁ h₂
      obtain ⟨x, y, -, hx, -⟩ := hb₂.split
      have hempty : mid.flatMap Lexeme.text = [] := by
        rw [List.flatMap_append, List.length_append] at hlen₁
        exact List.length_eq_zero_iff.mp (by omega)
      rw [hx.text_eq] at hempty
      subst hempty
      obtain rfl := hx.eq_nil
      exact ⟨[], by simp, rfl⟩
  obtain ⟨mid, rfl, rfl⟩ := hmid
  rw [← Text.slice_append_drop source hab] at ha₂
  obtain ⟨x, y, hxy, hx, -⟩ := ha₂.split
  have hlen : (source.slice a b).length = x.length := by
    rw [List.flatMap_append, List.length_append] at hlen₂
    rw [← hx.text_eq, Text.slice_eq, List.length_take, List.length_drop]
    omega
  obtain ⟨rfl, rfl⟩ := List.append_inj hxy hlen
  refine ⟨mid, by rwa [List.append_nil] at hx, ?_⟩
  have hskeleton : (skeleton (ls₁ ++ (mid ++ ms₂))).slice a b = skeleton mid := by
    rw [List.flatMap_append, List.length_append] at hlen₂
    have hcount : b - a = (skeleton mid).length := by
      rw [length_skeleton]
      omega
    have ha : a = (skeleton ls₁).length := by
      rw [length_skeleton]
      omega
    rw [Text.slice_eq, hcount, skeleton_append, skeleton_append, ha, List.drop_left, List.take_left]
  rw [hskeleton, ink_skeleton]

theorem exists_of_mem_tokensFrom {n : Nat} {t : Token} (h : t ∈ Document.tokensFrom n ls) :
    ∃ ls₁ ls₂, ls = ls₁ ++ .plain t.char :: ls₂ ∧
      t.offset = n + (ls₁.flatMap Lexeme.text).length ∧ Document.isStructural t.char := by
  fun_induction Document.tokensFrom n ls with
  | case1 => simp at h
  | case2 n c ls hc ih =>
    rcases List.mem_cons.mp h with rfl | h
    · exact ⟨[], ls, rfl, rfl, hc⟩
    · obtain ⟨ls₁, ls₂, rfl, hoffset, hs⟩ := ih h
      refine ⟨.plain c :: ls₁, ls₂, rfl, ?_, hs⟩
      simp only [List.flatMap_cons, Lexeme.text, List.length_append, List.length_cons,
        List.length_nil]
      omega
  | case3 n c ls hc ih =>
    obtain ⟨ls₁, ls₂, rfl, hoffset, hs⟩ := ih h
    refine ⟨.plain c :: ls₁, ls₂, rfl, ?_, hs⟩
    simp only [List.flatMap_cons, Lexeme.text, List.length_append, List.length_cons,
      List.length_nil]
    omega
  | case4 n u ls ih =>
    obtain ⟨ls₁, ls₂, rfl, hoffset, hs⟩ := ih h
    refine ⟨.masked u :: ls₁, ls₂, rfl, ?_, hs⟩
    simp only [List.flatMap_cons, Lexeme.text, List.length_append]
    omega

theorem isStructural_spec {c : Char} (hc : Document.isStructural c) :
    c ≠ 'r' ∧ c ≠ 'b' ∧ Text.isWord c = false ∧ isOpening c = false ∧ Text.isIndent c = false := by
  simp only [Document.isStructural, Bool.or_eq_true, beq_iff_eq] at hc
  rcases hc with (((rfl | rfl) | rfl) | rfl) | rfl <;> decide

theorem cut_token (h : Lexes none source ls []) {t : Token} (ht : t ∈ Document.tokensFrom 0 ls) :
    Cut source ls t.offset ∧ Cut source ls (t.offset + 1) ∧ source[t.offset]? = some t.char := by
  obtain ⟨ls₁, ls₂, rfl, hoffset, hs⟩ := exists_of_mem_tokensFrom ht
  obtain ⟨hr, hb, hword, -, -⟩ := isStructural_spec hs
  rw [Nat.zero_add] at hoffset
  have htext : source = ls₁.flatMap Lexeme.text ++ t.char :: ls₂.flatMap Lexeme.text := by
    rw [← h.text_eq]
    simp [Lexeme.text]
  refine ⟨?_, ?_, ?_⟩
  · rw [hoffset]
    exact cut_of_append h (Or.inr ⟨t.char, ls₂, rfl, hr, hb⟩)
  · have hsplit : ls₁ ++ .plain t.char :: ls₂ = (ls₁ ++ [.plain t.char]) ++ ls₂ := by simp
    have hlen : t.offset + 1 = ((ls₁ ++ [Lexeme.plain t.char]).flatMap Lexeme.text).length := by
      simp [hoffset, Lexeme.text]
    rw [hsplit] at h ⊢
    rw [hlen]
    refine cut_of_append h (Or.inl (midWord_lastOr rfl ?_))
    simp [Lexeme.text, hword]
  · rw [htext, hoffset]
    simp

theorem boundary_cases {n : Nat} (hn : n ≤ (ls.flatMap Lexeme.text).length) :
    (∃ ls₁ ls₂, ls = ls₁ ++ ls₂ ∧ (ls₁.flatMap Lexeme.text).length = n) ∨
      ∃ ls₁ u ls₂, ls = ls₁ ++ .masked u :: ls₂ ∧ (ls₁.flatMap Lexeme.text).length < n ∧
        n < (ls₁.flatMap Lexeme.text).length + u.length := by
  induction ls generalizing n with
  | nil =>
    refine Or.inl ⟨[], [], rfl, ?_⟩
    simp only [List.flatMap_nil, List.length_nil] at hn ⊢
    omega
  | cons l ls ih =>
    by_cases hzero : n = 0
    · exact Or.inl ⟨[], l :: ls, rfl, by simp [hzero]⟩
    by_cases hinside : n < l.text.length
    · cases l with
      | plain c =>
        simp only [Lexeme.text, List.length_cons, List.length_nil] at hinside
        omega
      | masked u =>
        exact Or.inr ⟨[], u, ls, rfl, by simp only [List.flatMap_nil, List.length_nil]; omega,
          by simpa [Lexeme.text] using hinside⟩
    · rw [List.flatMap_cons, List.length_append] at hn
      have hrest : n - l.text.length ≤ (ls.flatMap Lexeme.text).length := by omega
      rcases ih hrest with ⟨ls₁, ls₂, rfl, hlen⟩ | ⟨ls₁, u, ls₂, rfl, hlo, hhi⟩
      · refine Or.inl ⟨l :: ls₁, ls₂, rfl, ?_⟩
        rw [List.flatMap_cons, List.length_append]
        omega
      · refine Or.inr ⟨l :: ls₁, u, ls₂, rfl, ?_, ?_⟩ <;> rw [List.flatMap_cons,
          List.length_append] <;> omega

end

theorem cut_of_masks {source : Text} {d : Document} (hd : Document.scan source = .ok d) {n : Nat}
    (hn : n ≤ source.length) (hmasks : ∀ m ∈ d.masks.toList, ¬(m.start < n ∧ n < m.stop))
    (hword : ∀ c ∈ (source.take n).getLast?, Text.isWord c = false) :
    Cut source (Lexeme.read none source).1 n := by
  obtain ⟨ls, hlexes, -, -, hd, -⟩ := Document.lexes_of_scan hd
  have htext := hlexes.text_eq
  rw [hlexes.read_eq]
  rcases boundary_cases (show n ≤ (ls.flatMap Lexeme.text).length by rwa [htext]) with
    ⟨ls₁, ls₂, rfl, rfl⟩ | ⟨ls₁, u, ls₂, rfl, hlo, hhi⟩
  · refine cut_of_append hlexes (Or.inl (midWord_lastOr rfl ?_))
    rwa [← htext, List.flatMap_append, List.take_left] at hword
  · have hmask := Document.mask_mem_masksFrom 0 ls₁ u ls₂
    rw [← hd] at hmask
    have := hmasks _ hmask
    simp only at this
    omega

theorem cut_of_maskAt {source : Text} {d : Document} (hd : Document.scan source = .ok d) {n : Nat}
    (hn : n ≤ source.length) (hmask : ∀ m, d.maskAt? n = some m → m.start = n)
    (hword : ∀ c ∈ (source.take n).getLast?, Text.isWord c = false) :
    Cut source (Lexeme.read none source).1 n := by
  refine cut_of_masks hd hn ?_ hword
  rintro m hm ⟨hlo, hhi⟩
  have := hmask m (Document.maskAt_of_mem hd hm (by omega) (by omega))
  omega

end Graft.Item
