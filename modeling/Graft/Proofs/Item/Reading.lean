import Graft.Item.Document
import Graft.Proofs.Item.Lexeme
import Graft.Proofs.Splice

set_option autoImplicit false

/-!
Readings of a stretch of source, with what follows it. Readings of neighbouring stretches make up a
reading of both; a reading can be cut between any two lexemes; and what follows can be exchanged
where the stretch ends with its line or is settled.
-/

namespace Graft.Item

open Lexeme

def lastOr (prev : Option Char) (t : Text) : Option Char := t.getLast?.or prev

@[simp] theorem lastOr_nil (prev : Option Char) : lastOr prev [] = prev := rfl

theorem lastOr_append (prev : Option Char) (a b : Text) :
    lastOr prev (a ++ b) = lastOr (lastOr prev a) b := by
  simp [lastOr, List.getLast?_append, Option.or_assoc]

theorem lastOr_of_ne_nil {t : Text} (h : t ≠ []) (prev : Option Char) :
    lastOr prev t = t.getLast? := by
  rw [lastOr, List.getLast?_eq_some_getLast h, Option.some_or]

theorem lastOr_cons (prev : Option Char) (c : Char) (t : Text) :
    lastOr prev (c :: t) = lastOr (some c) t := by
  rw [← List.singleton_append, lastOr_append]
  rfl

theorem midWord_lastOr {prev : Option Char} {t : Text} (hprev : midWord prev = false)
    (ht : ∀ c ∈ t.getLast?, Text.isWord c = false) : midWord (lastOr prev t) = false := by
  unfold lastOr
  cases hlast : t.getLast? with
  | none => exact hprev
  | some c => exact ht c hlast

theorem midWord_blanks {b : Text} (hb : b.isBlankText) : midWord (lastOr none b) = false :=
  midWord_lastOr rfl fun c hc =>
    isWord_of_isBlank (List.all_eq_true.mp hb c (List.mem_of_getLast? hc))

/-- `Lexes prev t ls z`: with `prev` before it and `z` after it, `t` is made of the lexemes `ls`. -/
inductive Lexes : Option Char → Text → List Lexeme → Text → Prop
  | nil (prev : Option Char) (z : Text) : Lexes prev [] [] z
  | plain {prev : Option Char} {c : Char} {t : Text} {ls : List Lexeme} {z : Text} :
    afterMask prev (c :: (t ++ z)) = .ok none → Lexes (some c) t ls z →
      Lexes prev (c :: t) (.plain c :: ls) z
  | masked {prev : Option Char} {u t : Text} {ls : List Lexeme} {z : Text} :
    u ≠ [] → afterMask prev (u ++ (t ++ z)) = .ok (some (t ++ z)) → Lexes u.getLast? t ls z →
      Lexes prev (u ++ t) (.masked u :: ls) z

namespace Lexes

variable {prev : Option Char} {t x y z : Text} {ls ls₁ ls₂ : List Lexeme}

theorem text_eq (h : Lexes prev t ls z) : ls.flatMap Lexeme.text = t := by
  induction h with
  | nil => rfl
  | plain _ _ ih => rw [List.flatMap_cons, ih]; rfl
  | masked _ _ _ ih => rw [List.flatMap_cons, ih]; rfl

theorem append (h₁ : Lexes prev x ls₁ (y ++ z)) (h₂ : Lexes (lastOr prev x) y ls₂ z) :
    Lexes prev (x ++ y) (ls₁ ++ ls₂) z := by
  generalize hw : y ++ z = w at h₁
  induction h₁ with
  | nil => exact h₂
  | plain hc _ ih =>
    subst hw
    rw [lastOr_cons] at h₂
    rw [List.cons_append]
    exact .plain (by rwa [List.append_assoc]) (ih h₂ rfl)
  | masked hu hmask _ ih =>
    subst hw
    rw [lastOr_append, lastOr_of_ne_nil hu] at h₂
    rw [List.append_assoc]
    exact .masked hu (by rwa [List.append_assoc]) (ih h₂ rfl)

theorem split (h : Lexes prev t (ls₁ ++ ls₂) z) :
    ∃ x y, t = x ++ y ∧ Lexes prev x ls₁ (y ++ z) ∧ Lexes (lastOr prev x) y ls₂ z := by
  induction ls₁ generalizing prev t with
  | nil => exact ⟨[], t, rfl, .nil _ _, h⟩
  | cons l ls₁ ih =>
    cases h with
    | plain hc h =>
      obtain ⟨x, y, rfl, h₁, h₂⟩ := ih h
      refine ⟨_ :: x, y, rfl, .plain (by rwa [List.append_assoc] at hc) h₁, ?_⟩
      rwa [lastOr_cons]
    | masked hu hmask h =>
      obtain ⟨x, y, rfl, h₁, h₂⟩ := ih h
      refine ⟨_ ++ x, y, (List.append_assoc ..).symm,
        .masked hu (by rwa [List.append_assoc] at hmask) h₁, ?_⟩
      rwa [lastOr_append, lastOr_of_ne_nil hu]

theorem read_append (h : Lexes prev t ls z) :
    Lexeme.read prev (t ++ z) =
      (ls ++ (Lexeme.read (lastOr prev t) z).1, (Lexeme.read (lastOr prev t) z).2) := by
  induction h with
  | nil => rfl
  | plain hc _ ih =>
    rw [List.cons_append, Lexeme.read, hc, lastOr_cons]
    simp only [ih, List.cons_append]
  | @masked prev u t ls z hu hmask _ ih =>
    obtain ⟨c, u, rfl⟩ := List.exists_cons_of_ne_nil hu
    rw [List.append_assoc, List.cons_append, Lexeme.read]
    rw [List.cons_append] at hmask
    rw [hmask, lastOr_append, lastOr_of_ne_nil hu]
    have hlen : (u ++ (t ++ z)).length - (t ++ z).length = u.length := by
      rw [List.length_append]
      omega
    simp only [hlen, List.take_left, List.drop_left, ih, List.cons_append]

theorem read_eq (h : Lexes prev t ls []) : Lexeme.read prev t = (ls, none) := by
  have hread := h.read_append
  rwa [List.append_nil, Lexeme.read, List.append_nil] at hread

theorem exists_of_read {stop : Option Cause} (h : Lexeme.read prev t = (ls, stop)) :
    ∃ x z, t = x ++ z ∧ Lexes prev x ls z ∧
      stop.elim (z = []) fun cause => afterMask (lastOr prev x) z = .error cause := by
  fun_induction Lexeme.read prev t generalizing ls stop with
  | case1 prev =>
    obtain ⟨rfl, rfl⟩ := Prod.mk.inj h
    exact ⟨[], [], rfl, .nil _ _, rfl⟩
  | case2 prev c cs cause hmask =>
    obtain ⟨rfl, rfl⟩ := Prod.mk.inj h
    exact ⟨[], c :: cs, rfl, .nil _ _, hmask⟩
  | case3 prev c cs hmask ls' stop' hread ih =>
    obtain ⟨rfl, rfl⟩ := Prod.mk.inj h
    obtain ⟨x, z, rfl, hlexes, hstop⟩ := ih hread
    exact ⟨c :: x, z, rfl, .plain hmask hlexes, by rwa [lastOr_cons]⟩
  | case4 prev c cs rest hmask tail mask ls' stop' =>
    rename_i hread ih
    obtain ⟨rfl, rfl⟩ := Prod.mk.inj h
    obtain ⟨u, heq, hu⟩ := afterMask_eq_some_iff.mp hmask
    obtain ⟨e, u, rfl⟩ := List.exists_cons_of_ne_nil (ne_nil_of_mask hu)
    obtain ⟨rfl, rfl⟩ := List.cons.inj heq
    have htail : tail = u.length := by
      simp only [tail, List.append_eq, List.length_append]
      omega
    have hmask' : mask = c :: u := by simp [mask, htail]
    have hdrop : (u ++ rest).drop tail = rest := by rw [htail, List.drop_left]
    obtain ⟨x, z, hrest, hlexes, hstop⟩ := ih hread
    rw [List.append_eq, hdrop] at hrest
    rw [hmask'] at hlexes hstop ⊢
    subst hrest
    refine ⟨c :: u ++ x, z, by simp, .masked (ne_nil_of_mask hu) hmask hlexes, ?_⟩
    rwa [lastOr_append, lastOr_of_ne_nil (List.cons_ne_nil c u)]

theorem of_read (h : Lexeme.read prev t = (ls, none)) : Lexes prev t ls [] := by
  obtain ⟨x, z, rfl, hlexes, rfl⟩ := exists_of_read h
  rwa [List.append_nil]

theorem eq_nil (h : Lexes prev [] ls z) : ls = [] := by
  generalize ht : ([] : Text) = t at h
  cases h with
  | nil => rfl
  | plain => contradiction
  | masked hu =>
    have := (List.append_eq_nil_iff.mp ht.symm).1
    exact absurd this hu

theorem transfer (h : Lexes prev x ls z) (hagrees : ∀ v, v ≠ [] → v <:+ x → Agrees v z y)
    (hline : ∀ u, ls.getLast? = some (.masked u) → Breaks z → Breaks y) : Lexes prev x ls y := by
  induction h with
  | nil => exact .nil _ _
  | @plain prev c t ls z hc _ ih =>
    refine .plain (afterMask_none (v := c :: t) (by simp) hc
      (hagrees _ (by simp) (List.suffix_refl _))) (ih ?_ ?_)
    · exact fun v hv hsuffix => hagrees v hv (hsuffix.trans (List.suffix_cons c t))
    · intro u hu
      exact hline u (by rw [List.getLast?_cons, hu]; rfl)
  | @masked prev u t ls z hu hmask h ih =>
    refine .masked hu ?_ (ih ?_ ?_)
    · obtain ⟨u', heq, hu'⟩ := afterMask_eq_some_iff.mp hmask
      obtain rfl := List.append_cancel_right heq
      refine afterMask_eq_some_iff.mpr ⟨u, rfl, hu'.imp_left (And.imp_right fun hbreaks => ?_)⟩
      -- A comment that ends with its line stands before a newline, which is in `t` or comes after
      -- it.
      cases t with
      | cons c t => exact hbreaks
      | nil =>
        obtain rfl := h.eq_nil
        exact hline u rfl hbreaks
    · exact fun v hv hsuffix => hagrees v hv (hsuffix.trans (List.suffix_append u t))
    · intro u' hu'
      exact hline u' (by rw [List.getLast?_cons, hu']; rfl)

theorem exchange (h : Lexes prev x ls z)
    (hy : Breaks y ∨ ((∃ rest, z = '/' :: '/' :: rest) ∧ ∃ rest, y = '/' :: '/' :: rest) ∨
      (Settled x ∧ ∀ u, ls.getLast? ≠ some (.masked u))) :
    Lexes prev x ls y := by
  refine h.transfer (fun v hv hsuffix => Exchange.agrees hv ?_) fun u hu hbreaks => ?_
  · obtain ⟨a, rfl⟩ := hsuffix
    exact hy.imp_right (Or.imp_right fun hset => hset.1.of_append)
  · rcases hy with hy | ⟨⟨rest, rfl⟩, -⟩ | ⟨-, hlast⟩
    · exact hy
    · exact absurd (hbreaks '/' rfl) (by decide)
    · exact absurd hu (hlast u)

theorem restart {prev' : Option Char} (h : Lexes prev t ls z)
    (hprev : midWord prev = midWord prev') :
    Lexes prev' t ls z := by
  cases h with
  | nil => exact .nil _ _
  | plain hc h => exact .plain (by rwa [← afterMask_congr hprev]) h
  | masked hu hmask h => exact .masked hu (by rwa [← afterMask_congr hprev]) h

theorem restart_of_head {c : Char} (h : Lexes prev (c :: t) ls z) (hr : c ≠ 'r') (hb : c ≠ 'b')
    (prev' : Option Char) : Lexes prev' (c :: t) ls z := by
  generalize hs : c :: t = s at h
  cases h with
  | nil => exact .nil _ _
  | plain hc h =>
    obtain ⟨rfl, rfl⟩ := List.cons.inj hs
    exact .plain (by rwa [← afterMask_congr_head hr hb prev]) h
  | masked hu hmask h =>
    obtain ⟨e, u, rfl⟩ := List.exists_cons_of_ne_nil hu
    obtain ⟨rfl, -⟩ := List.cons.inj hs
    rw [List.cons_append, afterMask_congr_head hr hb prev prev'] at hmask
    exact .masked hu hmask h

theorem blanks {b : Text} (hb : b.isBlankText) (prev : Option Char) (z : Text) :
    Lexes prev b (b.map .plain) z := by
  induction b generalizing prev with
  | nil => exact .nil _ _
  | cons c b ih =>
    simp only [Text.isBlankText, List.all_cons, Bool.and_eq_true] at hb
    exact .plain (afterMask_blank hb.1 _ _) (ih hb.2 _)

/-- The last character of a stretch stands for itself or ends a comment that ends with its line,
unless it is one of those that end other comments and literals. -/
theorem last_cases {c : Char} (h : Lexes prev (x ++ [c]) ls z) (hc : isClosing c = false) :
    (∃ ls₀, ls = ls₀ ++ [.plain c] ∧ Lexes prev x ls₀ (c :: z)) ∨
      (Breaks z ∧ ∃ ls₀ x₀ u, ls = ls₀ ++ [.masked u] ∧ x ++ [c] = x₀ ++ u ∧ IsLineComment u ∧
        Lexes prev x₀ ls₀ (u ++ z)) := by
  cases ls using List.reverseRecOn with
  | nil =>
    have := h.text_eq
    simp at this
  | append_singleton ls₀ l =>
    obtain ⟨x₀, y₀, heq, h₀, hl⟩ := h.split
    generalize hls : [l] = ls at hl
    cases hl with
    | nil => contradiction
    | plain hplain hnil =>
      obtain ⟨rfl, rfl⟩ := List.cons.inj hls
      obtain rfl := hnil.text_eq
      obtain ⟨rfl, hce⟩ := List.append_inj' heq rfl
      obtain rfl : c = _ := by simpa using hce
      exact Or.inl ⟨ls₀, rfl, h₀⟩
    | @masked _ u _ _ _ hu hmask hnil =>
      obtain ⟨rfl, rfl⟩ := List.cons.inj hls
      obtain rfl := hnil.text_eq
      simp only [List.flatMap_nil, List.append_nil, List.nil_append] at heq hmask h₀
      obtain ⟨u', hu', hcases⟩ := afterMask_eq_some_iff.mp hmask
      obtain rfl := List.append_cancel_right hu'
      rcases hcases with ⟨hline, hbreaks⟩ | hmasks
      · exact Or.inr ⟨hbreaks, ls₀, x₀, u, rfl, heq, hline, h₀⟩
      · obtain ⟨v, e, rfl, he⟩ := hmasks.closing
        rw [← List.append_assoc] at heq
        obtain rfl : c = e := by simpa using (List.append_inj' heq rfl).2
        rw [hc] at he
        contradiction

theorem of_blanks {b : Text} (hb : b.isBlankText) (h : Lexes prev (b ++ t) ls z) :
    ∃ ls', ls = b.map .plain ++ ls' ∧ Lexes (lastOr prev b) t ls' z := by
  induction b generalizing prev ls with
  | nil => exact ⟨ls, rfl, h⟩
  | cons c b ih =>
    simp only [Text.isBlankText, List.all_cons, Bool.and_eq_true] at hb
    generalize hs : c :: b ++ t = s at h
    cases h with
    | nil => simp at hs
    | plain hc h =>
      obtain ⟨rfl, rfl⟩ := List.cons.inj hs
      obtain ⟨ls', rfl, h'⟩ := ih hb.2 h
      exact ⟨ls', rfl, by rwa [lastOr_cons]⟩
    | masked hu hmask h =>
      obtain ⟨e, u, rfl⟩ := List.exists_cons_of_ne_nil hu
      obtain ⟨rfl, -⟩ := List.cons.inj hs
      rw [List.cons_append, afterMask_blank hb.1] at hmask
      simp at hmask

end Lexes

/-- The brackets and semicolons outside comments and literals. -/
def shape (ls : List Lexeme) : Text :=
  ls.filterMap fun
    | .plain c => if Document.isStructural c then some c else none
    | .masked _ => none

@[simp] theorem shape_nil : shape [] = [] := rfl

@[simp] theorem shape_append (ls ls' : List Lexeme) : shape (ls ++ ls') = shape ls ++ shape ls' :=
  List.filterMap_append

theorem shape_cons (l : Lexeme) (ls : List Lexeme) : shape (l :: ls) = shape [l] ++ shape ls :=
  shape_append [l] ls

@[simp] theorem shape_masked (u : Text) : shape [.masked u] = [] := rfl

theorem isStructural_of_isBlank {c : Char} (hc : Text.isBlank c) :
    Document.isStructural c = false := by
  simp [Document.isStructural, ne_of_isBlank hc (e := '\x7b') rfl,
    ne_of_isBlank hc (e := '\x7d') rfl,
    ne_of_isBlank hc (e := '(') rfl,
    ne_of_isBlank hc (e := ')') rfl,
    ne_of_isBlank hc (e := ';') rfl]

theorem shape_blanks {b : Text} (hb : b.isBlankText) : shape (b.map .plain) = [] := by
  rw [shape, List.filterMap_map, List.filterMap_eq_nil_iff]
  intro c hc
  simp [isStructural_of_isBlank (List.all_eq_true.mp hb c hc)]

/-- A text of the given shape that reads the same whatever follows it. -/
def Solid (x σ : Text) : Prop := ∃ ls, shape ls = σ ∧ ∀ y, Lexes none x ls y

/-- A text of the given shape that reads the same if its line ends with it. -/
def Firm (x σ : Text) : Prop := ∃ ls, shape ls = σ ∧ ∀ y, Breaks y → Lexes none x ls y

section

variable {x y b σ τ : Text}

theorem Solid.firm (h : Solid x σ) : Firm x σ := by
  obtain ⟨ls, hls, h⟩ := h
  exact ⟨ls, hls, fun y _ => h y⟩

theorem solid_nil : Solid [] [] := ⟨[], rfl, fun _ => .nil _ _⟩

theorem Solid.append (hx : Solid x σ) (hmid : midWord (lastOr none x) = false) (hy : Solid y τ) :
    Solid (x ++ y) (σ ++ τ) := by
  obtain ⟨ls, rfl, hx⟩ := hx
  obtain ⟨ls', rfl, hy⟩ := hy
  exact ⟨ls ++ ls', shape_append _ _, fun z => (hx _).append ((hy z).restart hmid.symm)⟩

theorem Solid.append_firm (hx : Solid x σ) (hmid : midWord (lastOr none x) = false)
    (hy : Firm y τ) :
    Firm (x ++ y) (σ ++ τ) := by
  obtain ⟨ls, rfl, hx⟩ := hx
  obtain ⟨ls', rfl, hy⟩ := hy
  exact ⟨ls ++ ls', shape_append _ _, fun z hz => (hx _).append ((hy z hz).restart hmid.symm)⟩

theorem Solid.append_blanks (hx : Solid x σ) (hb : b.isBlankText) : Solid (x ++ b) σ := by
  obtain ⟨ls, rfl, hx⟩ := hx
  refine ⟨ls ++ b.map .plain, by simp [shape_blanks hb], ?_⟩
  intro z
  exact (hx _).append (.blanks hb _ _)

theorem Firm.append_newline (hx : Firm x σ) : Solid (x ++ ['\n']) σ := by
  obtain ⟨ls, rfl, hx⟩ := hx
  refine ⟨ls ++ [.plain '\n'], by simp [shape, Document.isStructural], ?_⟩
  intro z
  have hbreaks : Breaks ('\n' :: z) := by simp [Breaks]
  exact (hx _ hbreaks).append (.blanks (b := ['\n']) (by decide) _ _)

theorem Firm.of_concat_blank {c : Char} (hc : Text.isBlank c) (h : Firm (x ++ [c]) σ) :
    Firm x σ := by
  obtain ⟨ls, rfl, h⟩ := h
  rcases (h [] (by simp [Breaks])).last_cases (isClosing_of_isBlank hc) with
    ⟨ls₀, rfl, h₀⟩ | ⟨-, ls₀, x₀, u, rfl, heq, ⟨v, rfl, hv⟩, h₀⟩
  · refine ⟨ls₀, ?_, fun y hy => h₀.exchange (Or.inl hy)⟩
    simp [shape, isStructural_of_isBlank hc]
  · cases v using List.reverseRecOn with
    | nil =>
      have hslash : c = '/' := by simpa using (List.append_inj' (heq.trans
        (List.append_assoc x₀ ['/'] ['/']).symm) rfl).2
      exact absurd hslash (ne_of_isBlank hc (by decide))
    | append_singleton v e =>
      have hcut : x ++ [c] = (x₀ ++ '/' :: '/' :: v) ++ [e] := by simpa using heq
      obtain ⟨rfl, -⟩ := List.append_inj' hcut rfl
      refine ⟨ls₀ ++ [.masked ('/' :: '/' :: v)], by simp, ?_⟩
      intro y hy
      have hline : IsLineComment ('/' :: '/' :: v) := ⟨v, rfl, fun hmem => hv (by simp [hmem])⟩
      have hfirst : Lexes none x₀ ls₀ ('/' :: '/' :: v ++ y) :=
        h₀.exchange (Or.inr (Or.inl ⟨⟨_, rfl⟩, ⟨_, rfl⟩⟩))
      have hsecond : Lexes (lastOr none x₀) ('/' :: '/' :: v ++ []) [.masked ('/' :: '/' :: v)] y :=
        .masked hline.ne_nil (afterMask_eq_some_iff.mpr ⟨_, rfl, Or.inl ⟨hline, hy⟩⟩) (.nil _ _)
      rw [List.append_nil] at hsecond
      exact hfirst.append hsecond

theorem Firm.trimEnd (h : Firm x σ) : Firm x.trimEnd σ := by
  induction x using List.reverseRecOn with
  | nil => exact h
  | append_singleton x c ih =>
    by_cases hc : Text.isBlank c
    · have htrim : Text.trimEnd (x ++ [c]) = Text.trimEnd x := List.rdropWhile_concat_pos _ _ _ hc
      rw [htrim]
      exact ih (h.of_concat_blank hc)
    · have htrim : Text.trimEnd (x ++ [c]) = x ++ [c] := List.rdropWhile_concat_neg _ _ _ hc
      rwa [htrim]

end

def isSteady (c : Char) : Bool :=
  Text.isBlank c || c == '\x7b' || c == '\x7d' || c == ';' || c == ']'

theorem isSteady_spec {c : Char} (hc : isSteady c) :
    isClosing c = false ∧ isOpening c = false ∧ Text.isWord c = false := by
  simp only [isSteady, Bool.or_eq_true, beq_iff_eq] at hc
  rcases hc with (((hc | rfl) | rfl) | rfl) | rfl
  · refine ⟨isClosing_of_isBlank hc, ?_, isWord_of_isBlank hc⟩
    simp [isOpening, ne_of_isBlank hc (e := '/') rfl,
      ne_of_isBlank hc (e := 'b') rfl,
      ne_of_isBlank hc (e := 'r') rfl,
      ne_of_isBlank hc (e := '#') rfl]
  all_goals exact ⟨by decide, by decide, by decide⟩

theorem Lexes.solid {x z : Text} {c : Char} {ls : List Lexeme}
    (h : Lexes none (x ++ [c]) (ls ++ [.plain c]) z) (hopening : isOpening c = false)
    (hquotes : ¬Hangs (x ++ [c])) : Solid (x ++ [c]) (shape (ls ++ [.plain c])) := by
  refine ⟨_, rfl, fun y => h.exchange (Or.inr (Or.inr ⟨⟨?_, hquotes⟩, ?_⟩))⟩
  · intro e he
    rw [List.getLast?_concat, Option.mem_some_iff] at he
    rwa [← he]
  · intro u
    rw [List.getLast?_concat]
    simp

theorem Lexes.solid_dropIndent {x z : Text} {ls : List Lexeme} (h : Lexes none x ls z)
    (hlast : ∀ c ∈ (x.dropLastWhile Text.isIndent).getLast?, isSteady c)
    (hquotes : ¬Hangs (x.dropLastWhile Text.isIndent))
    (hline : x.getLast? = some '\n' ∨ ¬Breaks z) :
    Solid (x.dropLastWhile Text.isIndent) (shape ls) := by
  induction x using List.reverseRecOn generalizing ls z with
  | nil =>
    obtain rfl := h.eq_nil
    exact solid_nil
  | append_singleton x c ih =>
    by_cases hc : Text.isIndent c
    · have hdrop : Text.dropLastWhile Text.isIndent (x ++ [c]) =
          Text.dropLastWhile Text.isIndent x :=
        List.rdropWhile_concat_pos _ _ _ hc
      have hnewline : c ≠ '\n' := by
        rintro rfl
        revert hc
        decide
      rw [hdrop] at hlast hquotes ⊢
      have hz : ¬Breaks z := by
        rcases hline with hline | hline
        · rw [List.getLast?_concat, Option.some.injEq] at hline
          exact absurd hline hnewline
        · exact hline
      rcases h.last_cases (isClosing_of_isBlank (Text.isBlank_of_isIndent hc)) with
        ⟨ls₀, rfl, h₀⟩ | ⟨hbreaks, -⟩
      · have hsolid := ih h₀ hlast hquotes (Or.inr fun hbreaks => hnewline (hbreaks c rfl))
        simpa [shape, isStructural_of_isBlank (Text.isBlank_of_isIndent hc)] using hsolid
      · exact absurd hbreaks hz
    · have hdrop : Text.dropLastWhile Text.isIndent (x ++ [c]) = x ++ [c] :=
        List.rdropWhile_concat_neg _ _ _ hc
      rw [hdrop] at hlast hquotes ⊢
      obtain ⟨hclosing, hopening, -⟩ := isSteady_spec (hlast c (by simp))
      rcases h.last_cases hclosing with ⟨ls₀, rfl, h₀⟩ | ⟨hbreaks, ls₀, x₀, u, rfl, heq, hu, h₀⟩
      · exact h.solid hopening hquotes
      · -- A newline does not end a comment, and no other line is over here.
        rcases hline with hline | hline
        · rw [List.getLast?_concat, Option.some.injEq] at hline
          exact absurd hline (hu.last_ne_newline heq)
        · exact absurd hbreaks hline

end Graft.Item
