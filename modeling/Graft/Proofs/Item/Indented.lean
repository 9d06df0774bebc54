import Graft.Proofs.Item.Spliced
import Graft.Proofs.Padding

set_option autoImplicit false

/-!
Reading a text that is moved to the right. No comment or literal starts or ends with the blanks put
in at the start of a line, so the brackets stay as they are: the text can be read as before, and is
whole if it was.
-/

namespace Graft.Item

namespace Lexeme

variable {t t' b : Text}

theorem afterComment_blanks (hb : b.isBlankText) (depth : Nat) (t : Text) :
    afterComment? depth (b ++ t) = afterComment? depth t := by
  induction b with
  | nil => rfl
  | cons c b ih =>
    simp only [Text.isBlankText, List.all_cons, Bool.and_eq_true] at hb
    have hslash : c ≠ '/' := ne_of_isBlank hb.1 (by decide)
    have hstar : c ≠ '*' := ne_of_isBlank hb.1 (by decide)
    rw [List.cons_append, afterComment_skip (fun h => hslash h.1) (fun h => hstar h.1)]
    exact ih hb.2

theorem afterComment_padded {depth : Nat} {r : Text} (h : Text.Padded t t')
    (ht : afterComment? depth t = some r) :
    ∃ r', afterComment? depth t' = some r' ∧ Text.Padded r r' := by
  fun_induction afterComment? depth t generalizing t' with
  | case1 depth rest ih =>
    obtain ⟨s, rfl, hs⟩ := h.of_append (u := ['/', '*']) (by decide)
    exact ih hs ht
  | case2 rest =>
    obtain ⟨s, rfl, hs⟩ := h.of_append (u := ['*', '/']) (by decide)
    obtain rfl := Option.some.inj ht
    exact ⟨s, by simp [afterComment?], hs⟩
  | case3 depth rest ih =>
    obtain ⟨s, rfl, hs⟩ := h.of_append (u := ['*', '/']) (by decide)
    obtain ⟨r', hr', hpadded⟩ := ih hs ht
    exact ⟨r', by simpa [afterComment?] using hr', hpadded⟩
  | case4 depth c rest hopen hclose₀ hclose₁ ih =>
    cases h with
    | char _ h =>
      obtain ⟨r', hr', hpadded⟩ := ih h ht
      exact ⟨r', by rw [afterComment_cons hopen hclose₀ hclose₁ h.head_eq, hr'], hpadded⟩
    | line hb h =>
      obtain ⟨r', hr', hpadded⟩ := ih h ht
      refine ⟨r', ?_, hpadded⟩
      rw [afterComment_skip (by simp) (by simp), afterComment_blanks hb, hr']
  | case5 => contradiction

theorem afterString_blanks (hb : b.isBlankText) (t : Text) :
    afterString? (b ++ t) = afterString? t := by
  induction b with
  | nil => rfl
  | cons c b ih =>
    simp only [Text.isBlankText, List.all_cons, Bool.and_eq_true] at hb
    have hbackslash : c ≠ '\\' := ne_of_isBlank hb.1 (by decide)
    have hquote : c ≠ '"' := ne_of_isBlank hb.1 (by decide)
    rw [List.cons_append, afterString?]
    · exact ih hb.2
    · exact hquote
    · exact fun _ _ h => absurd h hbackslash
    · exact fun h => absurd h hbackslash

theorem afterString_padded {r : Text} (h : Text.Padded t t') (ht : afterString? t = some r) :
    ∃ r', afterString? t' = some r' ∧ Text.Padded r r' := by
  fun_induction afterString? t generalizing t' with
  | case1 rest =>
    obtain ⟨s, rfl, hs⟩ := h.of_append (u := ['"']) (by decide)
    obtain rfl := Option.some.inj ht
    exact ⟨s, by simp [afterString?], hs⟩
  | case2 c rest ih =>
    obtain ⟨s, rfl, hs⟩ := h.of_append (u := ['\\']) (by decide)
    -- The escaped character may be a newline, with blanks put in after it.
    cases hs with
    | char _ hrest =>
      obtain ⟨r', hr', hpadded⟩ := ih hrest ht
      exact ⟨r', by simpa [afterString?] using hr', hpadded⟩
    | line hb hrest =>
      obtain ⟨r', hr', hpadded⟩ := ih hrest ht
      exact ⟨r', by simpa [afterString?, afterString_blanks hb] using hr', hpadded⟩
  | case3 => contradiction
  | case4 c rest hquote hescape hend ih =>
    have hbackslash : c ≠ '\\' := by
      rintro rfl
      cases rest with
      | nil => exact hend rfl rfl
      | cons e rest => exact hescape e rest rfl rfl
    cases h with
    | char _ h =>
      obtain ⟨r', hr', hpadded⟩ := ih h ht
      refine ⟨r', ?_, hpadded⟩
      rw [afterString?.eq_def]
      simp [hbackslash, hr']
    | line hb h =>
      obtain ⟨r', hr', hpadded⟩ := ih h ht
      refine ⟨r', ?_, hpadded⟩
      rw [afterString?.eq_def]
      simp [afterString_blanks hb, hr']
  | case5 => contradiction

theorem newline_not_mem_rawEnd (marks : Nat) : '\n' ∉ rawEnd marks := by
  simp [rawEnd, List.mem_replicate]

theorem afterRaw_cons (marks : Nat) (c : Char) (t : Text) :
    afterRaw? marks (c :: t) =
      if rawEnd marks <+: c :: t then some ((c :: t).drop (rawEnd marks).length)
        else afterRaw? marks t := by
  rw [afterRaw_eq, afterRaw_eq, Text.find?]
  by_cases hpre : rawEnd marks <+: c :: t
  · rw [if_pos (List.isPrefixOf_iff_prefix.mpr hpre), if_pos hpre]
    simp
  · rw [if_neg (mt List.isPrefixOf_iff_prefix.mp hpre), if_neg hpre, Option.map_map]
    congr 1
    funext n
    simp [Nat.add_right_comm n 1]

theorem afterRaw_blanks (marks : Nat) (hb : b.isBlankText) (t : Text) :
    afterRaw? marks (b ++ t) = afterRaw? marks t := by
  induction b with
  | nil => rfl
  | cons c b ih =>
    simp only [Text.isBlankText, List.all_cons, Bool.and_eq_true] at hb
    have hquote : c ≠ '"' := ne_of_isBlank hb.1 (by decide)
    rw [List.cons_append, afterRaw_cons, if_neg, ih hb.2]
    rw [rawEnd, List.cons_prefix_cons]
    exact fun h => hquote h.1.symm

theorem afterRaw_padded {marks : Nat} {r : Text} (h : Text.Padded t t')
    (ht : afterRaw? marks t = some r) :
    ∃ r', afterRaw? marks t' = some r' ∧ Text.Padded r r' := by
  induction h with
  | nil => simp [afterRaw_eq, Text.find?, rawEnd] at ht
  | char c h ih =>
    rw [afterRaw_cons] at ht ⊢
    split at ht
    · rename_i hpre
      obtain ⟨s, hs⟩ := hpre
      have hpadded := h.char c
      rw [← hs] at hpadded ht
      obtain ⟨s', hs', hss'⟩ := hpadded.of_append (newline_not_mem_rawEnd marks)
      rw [List.drop_left, Option.some.injEq] at ht
      subst ht
      rw [hs', if_pos (List.prefix_append _ _), List.drop_left]
      exact ⟨s', rfl, hss'⟩
    · rename_i hpre
      rw [if_neg]
      · exact ih ht
      · rintro ⟨s', hs'⟩
        have hpadded := h.char c
        rw [← hs'] at hpadded
        obtain ⟨s, hs, -⟩ := hpadded.of_append_padded (newline_not_mem_rawEnd marks)
        exact hpre ⟨s, hs.symm⟩
  | line hb h ih =>
    have hnewline : ∀ s : Text, ¬rawEnd marks <+: '\n' :: s := by
      intro s
      rw [rawEnd, List.cons_prefix_cons]
      exact fun h => absurd h.1 (by decide)
    rw [afterRaw_cons, if_neg (hnewline _)] at ht ⊢
    rw [afterRaw_blanks marks hb]
    exact ih ht

/-- What an outcome becomes: nothing stays nothing, and what is left is padded. Of faults nothing is
said. -/
inductive Carried : Except Cause (Option Text) → Except Cause (Option Text) → Prop
  | fault (cause : Cause) (x : Except Cause (Option Text)) : Carried (.error cause) x
  | plain : Carried (.ok none) (.ok none)
  | mask {r r' : Text} : Text.Padded r r' → Carried (.ok (some r)) (.ok (some r'))

theorem Carried.eq_plain {x : Except Cause (Option Text)} (h : Carried (.ok none) x) :
    x = .ok none := by
  cases h
  rfl

theorem Carried.exists_mask {r : Text} {x : Except Cause (Option Text)}
    (h : Carried (.ok (some r)) x) :
    ∃ r', x = .ok (some r') ∧ Text.Padded r r' := by
  cases h with
  | mask hr => exact ⟨_, rfl, hr⟩

theorem afterChar_padded (h : Text.Padded t t') :
    Carried (.ok (afterChar? t)) (.ok (afterChar? t')) := by
  cases ht : afterChar? t with
  | some r =>
    obtain ⟨u, hu, rfl⟩ := afterChar_eq_some_iff.mp ht
    obtain ⟨r', rfl, hr⟩ := h.of_append hu.newline_not_mem
    rw [afterChar_eq_some_iff.mpr ⟨u, hu, rfl⟩]
    exact .mask hr
  | none =>
    have hnone : afterChar? t' = none := by
      rw [Option.eq_none_iff_forall_ne_some]
      intro r' hr'
      obtain ⟨u, hu, rfl⟩ := afterChar_eq_some_iff.mp hr'
      obtain ⟨r, rfl, -⟩ := h.of_append_padded hu.newline_not_mem
      rw [afterChar_eq_some_iff.mpr ⟨u, hu, rfl⟩] at ht
      contradiction
    rw [hnone]
    exact .plain

theorem RawOpening.newline_not_mem {marks : Nat} {u : Text} (h : RawOpening marks u) :
    '\n' ∉ u := by
  cases h <;> simp [List.mem_replicate]

theorem afterLetter_padded (h : Text.Padded t t') : Carried (afterLetter t) (afterLetter t') := by
  cases ht : rawOpening? t with
  | some raw =>
    obtain ⟨marks, body⟩ := raw
    obtain ⟨u, hu, rfl⟩ := rawOpening_eq_some_iff.mp ht
    obtain ⟨body', rfl, hbody⟩ := h.of_append hu.newline_not_mem
    simp only [afterLetter, ht, rawOpening_eq_some_iff.mpr ⟨u, hu, rfl⟩]
    cases hr : afterRaw? marks body with
    | none => exact .fault _ _
    | some r =>
      obtain ⟨r', hr', hpadded⟩ := afterRaw_padded hbody hr
      simp only [hr']
      exact .mask hpadded
  | none =>
    have hnone : rawOpening? t' = none := by
      rw [Option.eq_none_iff_forall_ne_some]
      rintro ⟨marks, body'⟩ hr'
      obtain ⟨u, hu, rfl⟩ := rawOpening_eq_some_iff.mp hr'
      obtain ⟨body, rfl, -⟩ := h.of_append_padded hu.newline_not_mem
      rw [rawOpening_eq_some_iff.mpr ⟨u, hu, rfl⟩] at ht
      contradiction
    by_cases hbyte : ∃ rest, t = 'b' :: '\'' :: rest
    · obtain ⟨rest, rfl⟩ := hbyte
      obtain ⟨rest', rfl, hrest⟩ := h.of_append (u := ['b', '\'']) (by decide)
      simp only [afterLetter, ht, hnone]
      exact afterChar_padded hrest
    · have hbyte' : ¬∃ rest', t' = 'b' :: '\'' :: rest' := by
        rintro ⟨rest', rfl⟩
        obtain ⟨rest, rfl, -⟩ := h.of_append_padded (u := ['b', '\'']) (by decide)
        exact hbyte ⟨rest, rfl⟩
      have hplain : ∀ s : Text, rawOpening? s = none → (¬∃ rest, s = 'b' :: '\'' :: rest) →
          afterLetter s = .ok none := by
        intro s hraw hs
        simp only [afterLetter, hraw]
        split
        · exact absurd ⟨_, rfl⟩ hs
        · rfl
      rw [hplain t ht hbyte, hplain t' hnone hbyte']
      exact .plain

theorem dropWhile_padded (h : Text.Padded t t') :
    Text.Padded (t.dropWhile (· != '\n')) (t'.dropWhile (· != '\n')) := by
  induction h with
  | nil => exact .nil
  | char c h ih =>
    by_cases hc : c = '\n'
    · rw [List.dropWhile_cons_of_neg (by simp [hc]), List.dropWhile_cons_of_neg (by simp [hc])]
      exact h.char c
    · rw [List.dropWhile_cons_of_pos (by simp [hc]), List.dropWhile_cons_of_pos (by simp [hc])]
      exact ih
  | line hb h _ => exact h.line hb

theorem afterMask_padded (prev : Option Char) (h : Text.Padded t t') :
    Carried (afterMask prev t) (afterMask prev t') := by
  cases t with
  | nil =>
    rw [h.eq_nil]
    simp [afterMask, rawOpening?, Carried.plain]
  | cons c cs =>
    by_cases hnewline : c = '\n'
    · subst hnewline
      obtain ⟨rest, hrest⟩ := List.head?_eq_some_iff.mp h.head_eq
      rw [hrest, afterMask_blank (by decide), afterMask_blank (by decide)]
      exact .plain
    obtain ⟨cs', rfl, hcs⟩ := Text.Padded.of_append (u := [c]) (by simpa using Ne.symm hnewline) h
    rw [List.singleton_append]
    cases front c cs with
    | string =>
      simp only [afterMask]
      cases hr : afterString? cs with
      | none => exact .fault _ _
      | some r =>
        obtain ⟨r', hr', hpadded⟩ := afterString_padded hcs hr
        simp only [hr']
        exact .mask hpadded
    | quote =>
      simp only [afterMask]
      exact afterChar_padded hcs
    | line rest =>
      obtain ⟨rest', rfl, hrest⟩ := Text.Padded.of_append (u := ['/']) (by decide) hcs
      simp only [afterMask, List.singleton_append]
      exact .mask (dropWhile_padded hrest)
    | block rest =>
      obtain ⟨rest', rfl, hrest⟩ := Text.Padded.of_append (u := ['*']) (by decide) hcs
      simp only [afterMask, List.singleton_append]
      cases hr : afterComment? 0 rest with
      | none => exact .fault _ _
      | some r =>
        obtain ⟨r', hr', hpadded⟩ := afterComment_padded hrest hr
        simp only [hr']
        exact .mask hpadded
    | other hstring hquote hline hblock =>
      have hhead := hcs.head_eq
      rw [afterMask_other prev hstring hquote hline hblock,
        afterMask_other prev hstring hquote (by rwa [hhead]) (by rwa [hhead])]
      split
      · exact .plain
      · exact afterLetter_padded h

end Lexeme

open Lexeme

theorem Lexes.restart_mask {prev prev' : Option Char} {u u' t : Text} {ls : List Lexeme}
    (h : Lexes u.getLast? t ls [])
    (hu : (IsLineComment u ∧ Breaks t) ∨ Masks prev u)
    (hu' : (IsLineComment u' ∧ Breaks t) ∨ Masks prev' u') : Lexes u'.getLast? t ls [] := by
  have hcalm : ∀ {p : Option Char} {v : Text}, Masks p v → midWord v.getLast? = false := by
    intro p v hv
    obtain ⟨w, c, rfl, hc⟩ := hv.closing
    rw [List.getLast?_concat]
    simp only [isClosing, Bool.or_eq_true, beq_iff_eq] at hc
    rcases hc with ((rfl | rfl) | rfl) | rfl <;> decide +kernel
  have hbreaks : Breaks t → Lexes u'.getLast? t ls [] := by
    intro hbreaks
    cases t with
    | nil =>
      rw [h.eq_nil]
      exact .nil _ _
    | cons c t =>
      obtain rfl : c = '\n' := hbreaks c rfl
      exact h.restart_of_head (by decide) (by decide) _
  rcases hu with ⟨-, ht⟩ | hu
  · exact hbreaks ht
  · rcases hu' with ⟨-, ht⟩ | hu'
    · exact hbreaks ht
    · exact h.restart ((hcalm hu).trans (hcalm hu').symm)

theorem getLast?_cons_append {l l' : Lexeme} {ls bs ls' : List Lexeme} {c : Char}
    (h : (l :: ls).getLast? = some (.plain c))
    (hlast : ls.getLast? = some (.plain c) → ls'.getLast? = some (.plain c))
    (hnil : ls = [] → l' = l ∧ bs ++ ls' = []) :
    (l' :: (bs ++ ls')).getLast? = some (.plain c) := by
  rw [List.getLast?_cons] at h ⊢
  cases hls : ls.getLast? with
  | none =>
    obtain ⟨rfl, hrest⟩ := hnil (List.getLast?_eq_none_iff.mp hls)
    rw [hls] at h
    rw [hrest]
    exact h
  | some e =>
    rw [hls] at h
    rw [List.getLast?_append, hlast (hls.trans h)]
    rfl

theorem Lexes.padded {prev : Option Char} {t t' : Text} {ls : List Lexeme} (h : Lexes prev t ls [])
    (hpadded : Text.Padded t t') :
    ∃ ls', Lexes prev t' ls' [] ∧ shape ls' = shape ls ∧
      ∀ c, c ≠ '\n' → ls.getLast? = some (.plain c) → ls'.getLast? = some (.plain c) := by
  generalize hz : ([] : Text) = z at h
  induction h generalizing t' with
  | nil =>
    rw [hpadded.eq_nil]
    exact ⟨[], .nil _ _, rfl, fun c _ h => h⟩
  | @plain prev c t ls z hc h ih =>
    subst hz
    rw [List.append_nil] at hc
    have hcarried := afterMask_padded prev hpadded
    rw [hc] at hcarried
    cases hpadded with
    | char _ hrest =>
      obtain ⟨ls', h', hshape, hlast⟩ := ih hrest rfl
      refine ⟨.plain c :: ([] ++ ls'), .plain ?_ h', ?_, ?_⟩
      · rw [List.append_nil]
        exact hcarried.eq_plain
      · rw [shape_cons, shape_cons _ ls, List.nil_append, hshape]
      · intro e he hend
        refine getLast?_cons_append hend (hlast e he) ?_
        rintro rfl
        obtain rfl := h.text_eq
        rw [hrest.eq_nil] at h'
        exact ⟨rfl, h'.eq_nil⟩
    | @line b _ _ hb hrest =>
      obtain ⟨ls', h', hshape, hlast⟩ := ih hrest rfl
      have hcalm : midWord (lastOr (some '\n') b) = midWord (some '\n') :=
        midWord_lastOr rfl fun c hc =>
          isWord_of_isBlank (List.all_eq_true.mp hb c (List.mem_of_getLast? hc))
      refine ⟨.plain '\n' :: (b.map .plain ++ ls'),
        .plain (afterMask_blank (by decide) _ _) ?_, ?_, ?_⟩
      · exact (Lexes.blanks hb _ _).append (h'.restart hcalm.symm)
      · rw [shape_cons, shape_cons _ ls, shape_append, shape_blanks hb, List.nil_append, hshape]
      · intro e he hend
        refine getLast?_cons_append hend (hlast e he) ?_
        rintro rfl
        obtain rfl : '\n' = e := by simpa using hend
        exact absurd rfl he
  | @masked prev u t ls z hu hmask h ih =>
    subst hz
    rw [List.append_nil] at hmask
    have hcarried := afterMask_padded prev hpadded
    rw [hmask] at hcarried
    obtain ⟨r', hmask', hrest⟩ := hcarried.exists_mask
    obtain ⟨ls', h', hshape, hlast⟩ := ih hrest rfl
    obtain ⟨v, heq, hv⟩ := afterMask_eq_some_iff.mp hmask
    obtain rfl := List.append_cancel_right heq
    obtain ⟨u', rfl, hu'⟩ := afterMask_eq_some_iff.mp hmask'
    have hbreaks : Breaks t → Breaks r' := fun hbreaks c hc => hbreaks c (hrest.head_eq ▸ hc)
    refine ⟨.masked u' :: ([] ++ ls'), .masked (ne_nil_of_mask hu') ?_ ?_, ?_, ?_⟩
    · rwa [List.append_nil]
    · exact h'.restart_mask (hv.imp_left (And.imp_right hbreaks)) hu'
    · exact hshape
    · intro e he hend
      refine getLast?_cons_append hend (hlast e he) ?_
      rintro rfl
      simp at hend

theorem Padded.exists_suffix {t u s : Text} {c : Char} (hc : Text.isBlank c = false)
    (h : Text.Padded t (u ++ c :: s)) : ∃ v r, t = v ++ r ∧ Text.Padded r (c :: s) := by
  generalize hw : u ++ c :: s = w at h
  induction h generalizing u with
  | nil => simp at hw
  | @char e t t' h ih =>
    cases u with
    | nil =>
      obtain ⟨rfl, rfl⟩ := List.cons.inj hw
      exact ⟨[], c :: t, rfl, h.char c⟩
    | cons e' u =>
      obtain ⟨rfl, hrest⟩ := List.cons.inj hw
      obtain ⟨v, r, rfl, hr⟩ := ih hrest
      exact ⟨e' :: v, r, rfl, hr⟩
  | @line b t t' hb h ih =>
    cases u with
    | nil =>
      obtain ⟨rfl, -⟩ := List.cons.inj hw
      contradiction
    | cons e' u =>
      -- The character is not among the blanks put in.
      have hrest : u ++ c :: s = b ++ t' := (List.cons.inj hw).2
      rcases List.append_eq_append_iff.mp hrest with ⟨b', rfl, hb'⟩ | ⟨u', rfl, hu'⟩
      · cases b' with
        | nil =>
          obtain ⟨v, r, rfl, hr⟩ := ih (u := []) (by simpa using hb')
          exact ⟨'\n' :: v, r, rfl, hr⟩
        | cons e b' =>
          obtain ⟨rfl, -⟩ := List.cons.inj hb'
          have := List.all_eq_true.mp hb c (by simp)
          rw [hc] at this
          contradiction
      · obtain ⟨v, r, rfl, hr⟩ := ih hu'.symm
        exact ⟨'\n' :: v, r, rfl, hr⟩

theorem not_hangs_of_padded {t t' : Text} (h : Text.Padded t t') (ht : ¬Hangs t) : ¬Hangs t' := by
  rintro ⟨u, v, w, rfl, hw, htail⟩
  have hline : '\n' ∉ '\'' :: v := by
    have := htail.newline_not_mem
    simp only [List.mem_append, not_or] at this
    simp [this.1]
  obtain ⟨u₀, r, rfl, hr⟩ := Padded.exists_suffix (by decide) h
  rw [← List.append_nil ('\'' :: v)] at hr
  obtain ⟨r', rfl, hnil⟩ := hr.of_append_padded hline
  cases hnil
  exact ht ⟨u₀, v, w, by simp, hw, htail⟩

theorem Whole.indent {t by_ : Text} (h : Whole t) (hblank : by_.isBlankText) :
    Whole (Indentation.indent t by_ []) := by
  obtain ⟨b, t', hb, hpadded, heq⟩ := Indentation.exists_padded_of_indent hblank t
  obtain ⟨c, hlast, hc⟩ := h.bracket
  obtain ⟨ls', h', hshape, hend⟩ := h.lexes.padded hpadded
  have hreading : Lexes none (b ++ t') (b.map .plain ++ ls') [] :=
    (Lexes.blanks hb none _).append (h'.restart (midWord_blanks hb).symm)
  have hread := hreading.read_eq
  rw [heq]
  refine ⟨?_, ⟨c, ?_, hc⟩, ?_⟩
  · rw [Document.scan_isOk_iff, hread, shape_append, shape_blanks hb, List.nil_append, hshape]
    exact ⟨rfl, h.nest_outline⟩
  · have hnewline : c ≠ '\n' := by
      rintro rfl
      contradiction
    rw [hread, List.getLast?_append, hend c hnewline hlast]
    rfl
  · have hline : ¬Hangs ('\n' :: t) := by
      rintro ⟨u, v, w, hsplit, hw, htail⟩
      cases u with
      | nil => exact absurd (List.cons.inj hsplit).1 (by decide)
      | cons e u => exact h.quotes ⟨u, v, w, (List.cons.inj hsplit).2, hw, htail⟩
    intro hangs
    exact not_hangs_of_padded (hpadded.line hb) hline (hangs.append ['\n'])

end Graft.Item
