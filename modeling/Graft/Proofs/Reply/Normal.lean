import Graft.Proofs.Shown
import Graft.Reply

set_option autoImplicit false

/-!
What is left of a reply is in normal form: it starts and ends with a line that holds something,
blank lines are empty, no indentation is shared by all other lines, and no typographic character is
left. So cleaning up once more changes nothing.
-/

namespace Graft

namespace Text

variable {ls : List Text}

def Bounded (ls : List Text) : Prop := (∃ l ∈ ls.head?, l ≠ []) ∧ ∃ l ∈ ls.getLast?, l ≠ []

theorem mem_unlines {c : Char} (h : c ∈ unlines ls) : c = '\n' ∨ ∃ l ∈ ls, c ∈ l := by
  induction ls with
  | nil => simp [unlines, join] at h
  | cons l ls ih =>
    cases ls with
    | nil =>
      have hl : unlines [l] = l := by simp [unlines, join]
      exact .inr ⟨l, by simp, by rwa [hl] at h⟩
    | cons m ls =>
      rw [unlines_cons_cons, List.mem_append, List.mem_cons] at h
      rcases h with h | h | h
      · exact .inr ⟨l, by simp, h⟩
      · exact .inl h
      · rcases ih h with h | ⟨k, hk, hc⟩
        · exact .inl h
        · exact .inr ⟨k, List.mem_cons_of_mem _ hk, hc⟩

theorem eq_newline_of_mem_unlines (h : ∀ l ∈ ls, l = []) : ∀ c ∈ unlines ls, c = '\n' := by
  intro c hc
  rcases mem_unlines hc with hc | ⟨l, hl, hc⟩
  · exact hc
  · simp [h l hl] at hc

theorem exists_unlines_append {pre : List Text} (hpre : ∀ l ∈ pre, l = []) (l : Text)
    (ls : List Text) :
    ∃ feeds : Text,
      (∀ c ∈ feeds, c = '\n') ∧ unlines (pre ++ l :: ls) = feeds ++ unlines (l :: ls) := by
  cases pre with
  | nil => exact ⟨[], by simp, rfl⟩
  | cons m pre =>
    refine ⟨unlines (m :: pre) ++ ['\n'], ?_, ?_⟩
    · intro c hc
      rcases List.mem_append.mp hc with hc | hc
      · exact eq_newline_of_mem_unlines hpre c hc
      · simpa using hc
    · rw [List.cons_append, unlines_append_unlines]
      simp

theorem exists_append_unlines {post : List Text} (hpost : ∀ l ∈ post, l = []) (l : Text)
    (ls : List Text) :
    ∃ feeds : Text,
      (∀ c ∈ feeds, c = '\n') ∧ unlines (l :: ls ++ post) = unlines (l :: ls) ++ feeds := by
  cases post with
  | nil => exact ⟨[], by simp, by simp⟩
  | cons m post =>
    refine ⟨'\n' :: unlines (m :: post), ?_, ?_⟩
    · exact List.forall_mem_cons.mpr ⟨rfl, eq_newline_of_mem_unlines hpost⟩
    · rw [List.cons_append, unlines_append_unlines]

theorem exists_bounded (ls : List Text) : (∀ l ∈ ls, l = []) ∨
    ∃ pre core post, ls = pre ++ core ++ post ∧ (∀ l ∈ pre, l = []) ∧ (∀ l ∈ post, l = []) ∧
      Bounded core := by
  -- the lines behind one that holds something, up to the last one that does
  have hlast : ∀ (l : Text) (ls : List Text), l ≠ [] → ∃ mid post,
      ls = mid ++ post ∧ (∀ m ∈ post, m = []) ∧
      ∃ m ∈ (l :: mid).getLast?, m ≠ [] := by
    intro l ls hl
    induction ls using List.reverseRecOn with
    | nil => exact ⟨[], [], rfl, by simp, l, rfl, hl⟩
    | append_singleton ls m ih =>
      by_cases hm : m = []
      · obtain ⟨mid, post, rfl, hpost, hmid⟩ := ih
        refine ⟨mid, post ++ [m], by simp, ?_, hmid⟩
        intro k hk
        rcases List.mem_append.mp hk with hk | hk
        · exact hpost k hk
        · rw [List.mem_singleton.mp hk, hm]
      · exact ⟨ls ++ [m], [], by simp, by simp, m, by simp [List.getLast?_cons], hm⟩
  induction ls with
  | nil => exact .inl (by simp)
  | cons l ls ih =>
    by_cases hl : l = []
    · rcases ih with ih | ⟨pre, core, post, rfl, hpre, hpost, hcore⟩
      · exact .inl (List.forall_mem_cons.mpr ⟨hl, ih⟩)
      · exact .inr ⟨l :: pre, core, post, rfl, List.forall_mem_cons.mpr ⟨hl, hpre⟩, hpost, hcore⟩
    · obtain ⟨mid, post, rfl, hpost, hmid⟩ := hlast l ls hl
      exact .inr ⟨[], l :: mid, post, rfl, by simp, hpost, ⟨l, rfl, hl⟩, hmid⟩

theorem Bounded.ends (h : Bounded ls) (hls : ∀ l ∈ ls, '\n' ∉ l) :
    (∃ c u, unlines ls = c :: u ∧ c ≠ '\n') ∧ ∃ u c, unlines ls = u ++ [c] ∧ c ≠ '\n' := by
  obtain ⟨⟨first, hfirst, hne⟩, last, hlast, hne'⟩ := h
  constructor
  · obtain ⟨rest, rfl⟩ := List.head?_eq_some_iff.mp hfirst
    obtain ⟨c, first, rfl⟩ := List.exists_cons_of_ne_nil hne
    refine ⟨c, unlines (first :: rest), unlines_append [c] first rest, ?_⟩
    rintro rfl
    exact hls _ List.mem_cons_self List.mem_cons_self
  · obtain ⟨init, rfl⟩ := List.getLast?_eq_some_iff.mp hlast
    obtain ⟨last, c, rfl⟩ := (List.eq_nil_or_concat last).resolve_left hne'
    rw [List.concat_eq_append] at hls ⊢
    refine ⟨init.flatMap (· ++ ['\n']) ++ last, c, by rw [unlines_concat, List.append_assoc], ?_⟩
    rintro rfl
    exact hls (last ++ ['\n']) (by simp) (by simp)

end Text

namespace Indentation

open Text

variable {l p : Text} {ls : List Text}

theorem prefix_commonPrefix_iff {a b : Text} : p <+: commonPrefix a b ↔ p <+: a ∧ p <+: b := by
  induction a generalizing p b with
  | nil => simp +contextual [commonPrefix]
  | cons x a ih =>
    cases b with
    | nil => simp +contextual [commonPrefix]
    | cons y b =>
      cases p with
      | nil => simp
      | cons z p =>
        unfold commonPrefix
        split
        · rename_i hxy
          rw [← beq_iff_eq.mp hxy, List.cons_prefix_cons, List.cons_prefix_cons,
            List.cons_prefix_cons, ih]
          tauto
        · rename_i hxy
          have hne : x ≠ y := by simpa using hxy
          rw [List.cons_prefix_cons, List.cons_prefix_cons]
          constructor
          · simp
          · rintro ⟨⟨rfl, -⟩, rfl, -⟩
            contradiction

theorem prefix_foldl_iff {first : Text} {rest : List Text} :
    p <+: rest.foldl commonPrefix first ↔ p <+: first ∧ ∀ l ∈ rest, p <+: l := by
  induction rest generalizing first with
  | nil => simp
  | cons l rest ih =>
    rw [List.foldl_cons, ih, prefix_commonPrefix_iff, List.forall_mem_cons, and_assoc]

theorem prefix_indentation_iff : p <+: l.indentation ↔ (∀ c ∈ p, isIndent c) ∧ p <+: l := by
  constructor
  · intro h
    exact ⟨fun c hc => List.mem_takeWhile_imp (h.subset hc), h.trans (List.takeWhile_prefix _)⟩
  · rintro ⟨hp, r, rfl⟩
    rw [indentation, List.takeWhile_append_of_pos hp]
    exact List.prefix_append _ _

theorem prefix_shared_iff (h : ∃ l ∈ ls, l ≠ []) :
    p <+: shared ls ↔ ∀ l ∈ ls, l ≠ [] → p <+: l.indentation := by
  unfold shared
  split
  · rename_i hnil
    obtain ⟨l, hl, hne⟩ := h
    have hmem : l.indentation ∈ (ls.filter (!·.isEmpty)).map indentation :=
      List.mem_map_of_mem (List.mem_filter.mpr ⟨hl, by simpa using hne⟩)
    simp [hnil] at hmem
  · rename_i first rest hcons
    rw [prefix_foldl_iff, ← List.forall_mem_cons (p := (p <+: ·)), ← hcons, List.forall_mem_map]
    simp

/-- Spaces and tabs that all lines with something on them start with. -/
def IsMargin (p : Text) (ls : List Text) : Prop :=
  (∀ c ∈ p, isIndent c) ∧ ∀ l ∈ ls, l.isBlankText = false → p <+: l

/-- Blank lines are empty, and the others share no margin. -/
structure Even (ls : List Text) : Prop where
  blank : ∀ l ∈ ls, l.isBlankText → l = []
  margin : ∀ p, IsMargin p ls → p = []

def emptied (ls : List Text) : List Text := ls.map fun line => if line.isBlankText then [] else line

theorem emptied_spec (h : l ∈ emptied ls) : l = [] ∨ (l.isBlankText = false ∧ l ∈ ls) := by
  obtain ⟨k, hk, rfl⟩ := List.mem_map.mp h
  split
  · exact .inl rfl
  · rename_i hblank
    exact .inr ⟨by simpa using hblank, hk⟩

theorem flushLeft_eq (ls : List Text) :
    flushLeft isBlankText ls = (emptied ls).map (·.drop (shared (emptied ls)).length) := rfl

theorem exists_shared_append (h : l ∈ emptied ls) (hne : l ≠ []) :
    ∃ d : Text, l = shared (emptied ls) ++ d ∧ d.isBlankText = false := by
  have hshared := prefix_indentation_iff.mp
    ((prefix_shared_iff ⟨l, h, hne⟩).mp (List.prefix_refl _) l h hne)
  obtain ⟨hindent, d, hd⟩ := hshared
  refine ⟨d, hd.symm, ?_⟩
  have hink := ((emptied_spec h).resolve_left hne).1
  rw [← hd, isBlankText, List.all_append,
    List.all_eq_true.mpr fun c hc => isBlank_of_isIndent (hindent c hc), Bool.true_and] at hink
  exact hink

theorem flushLeft_spec (h : l ∈ flushLeft isBlankText ls) :
    (l = [] ∨ l.isBlankText = false) ∧ (l = [] ∨ ∃ k ∈ ls, l <:+ k) := by
  rw [flushLeft_eq] at h
  obtain ⟨k, hk, rfl⟩ := List.mem_map.mp h
  by_cases hne : k = []
  · simp [hne]
  · obtain ⟨d, hd, hink⟩ := exists_shared_append hk hne
    refine ⟨.inr ?_, .inr ⟨k, ((emptied_spec hk).resolve_left hne).2, List.drop_suffix _ _⟩⟩
    rw [hd, List.drop_left]
    exact hink

theorem even_flushLeft (h : ∃ l ∈ flushLeft isBlankText ls, l ≠ []) :
    Even (flushLeft isBlankText ls) := by
  constructor
  · intro l hl hblank
    exact (flushLeft_spec hl).1.resolve_right (by simp [hblank])
  · rintro p ⟨hindent, hp⟩
    obtain ⟨l, hl, hne⟩ := h
    rw [flushLeft_eq] at hl hp
    obtain ⟨k, hk, rfl⟩ := List.mem_map.mp hl
    have hsome : ∃ l ∈ emptied ls, l ≠ [] := ⟨k, hk, fun hnil => hne (by simp [hnil])⟩
    have hlonger : shared (emptied ls) ++ p <+: shared (emptied ls) := by
      rw [prefix_shared_iff hsome]
      intro m hm hm'
      obtain ⟨d, hd, hink⟩ := exists_shared_append hm hm'
      have hd' : p <+: d := by
        refine hp d (List.mem_map.mpr ⟨m, hm, ?_⟩) hink
        conv_lhs => rw [hd]
        exact List.drop_left
      rw [prefix_indentation_iff]
      constructor
      · intro c hc
        rcases List.mem_append.mp hc with hc | hc
        · have hfirst := (prefix_shared_iff hsome).mp (List.prefix_refl _) m hm hm'
          exact (prefix_indentation_iff.mp hfirst).1 c hc
        · exact hindent c hc
      · conv_rhs => rw [hd]
        exact (List.prefix_append_right_inj _).mpr hd'
    have hle := hlonger.length_le
    rw [List.length_append] at hle
    exact List.eq_nil_of_length_eq_zero (by omega)

theorem Even.flushLeft_eq (h : Even ls) : flushLeft isBlankText ls = ls := by
  have hemptied : emptied ls = ls := by
    refine (map_eq_self_iff).mpr fun l hl => ?_
    split
    · rename_i hblank
      exact (h.blank l hl hblank).symm
    · rfl
  have hshared : shared ls = [] := by
    by_cases hsome : ∃ l ∈ ls, l ≠ []
    · have hall := (prefix_shared_iff hsome).mp (List.prefix_refl _)
      obtain ⟨l, hl, hne⟩ := hsome
      refine h.margin _ ⟨(prefix_indentation_iff.mp (hall l hl hne)).1, fun m hm hink => ?_⟩
      exact (prefix_indentation_iff.mp (hall m hm fun hnil =>
        by simp [hnil, isBlankText] at hink)).2
    · have hnone : ls.filter (!·.isEmpty) = [] := List.filter_eq_nil_iff.mpr fun l hl => by
        simpa using not_not.mp fun hne => hsome ⟨l, hl, hne⟩
      simp [shared, hnone]
  rw [Indentation.flushLeft_eq, hemptied, hshared]
  simp

end Indentation

namespace Reply

open Text Indentation

variable {t : Text} {c : Char}

theorem dropBlankEnds_of_ends (hfirst : ∃ c u, t = c :: u ∧ c ≠ '\n')
    (hlast : ∃ u c, t = u ++ [c] ∧ c ≠ '\n') {a b : Text} (ha : ∀ c ∈ a, c = '\n')
    (hb : ∀ c ∈ b, c = '\n') : dropBlankEnds (a ++ (t ++ b)) = t := by
  have hstart : (a ++ (t ++ b)).dropWhile (· == '\n') = t ++ b := by
    obtain ⟨c, u, rfl, hc⟩ := hfirst
    rw [List.dropWhile_append_of_pos fun c hc => by simpa using ha c hc]
    exact List.dropWhile_cons_of_neg (by simpa using hc)
  rw [dropBlankEnds, hstart, dropLastWhile_append_of_all _ fun c hc => by simpa using hb c hc]
  obtain ⟨u, c, rfl, hc⟩ := hlast
  exact dropLastWhile_concat u (by simpa using hc)

theorem unindent_cases (t : Text) :
    unindent t = [] ∨ ∃ ls, unindent t = unlines ls ∧ Bounded ls ∧ Even ls ∧
    ∀ l ∈ ls, '\n' ∉ l ∧ l ⊆ t := by
  have hlines : ∀ l ∈ flushLeft isBlankText (t.splitOn '\n'), '\n' ∉ l ∧ l ⊆ t := by
    intro l hl
    rcases (flushLeft_spec hl).2 with rfl | ⟨k, hk, hsuffix⟩
    · simp
    · refine ⟨fun hmem => newline_not_mem_of_splitOn t k hk (hsuffix.subset hmem), ?_⟩
      exact List.Subset.trans hsuffix.subset (subset_of_mem_splitOn hk)
  rcases exists_bounded (flushLeft isBlankText (t.splitOn '\n')) with
    hempty | ⟨pre, core, post, heq, hpre, hpost, hcore⟩
  · refine .inl ?_
    have hfeeds : ∀ c ∈ unlines (flushLeft isBlankText (t.splitOn '\n')),
        (c == '\n') = true := fun c hc =>
      beq_iff_eq.mpr (eq_newline_of_mem_unlines hempty c hc)
    rw [unindent, dropBlankEnds, List.dropWhile_eq_nil_iff.mpr hfeeds]
    rfl
  · obtain ⟨⟨first, hfirst, hne⟩, -⟩ := id hcore
    have hmem : first ∈ flushLeft isBlankText (t.splitOn '\n') := by
      simp [heq, List.mem_of_mem_head? hfirst]
    have heven := even_flushLeft ⟨first, hmem, hne⟩
    refine .inr ⟨core, ?_, hcore, ⟨?_, ?_⟩, fun l hl => hlines l (by simp [heq, hl])⟩
    · have hends := hcore.ends fun l hl => (hlines l (by simp [heq, hl])).1
      obtain ⟨rest, rfl⟩ := List.head?_eq_some_iff.mp hfirst
      obtain ⟨a, ha, hbefore⟩ := exists_unlines_append hpre first (rest ++ post)
      obtain ⟨b, hb, hbehind⟩ := exists_append_unlines hpost first rest
      rw [List.cons_append] at hbehind
      rw [unindent, heq, List.append_assoc, List.cons_append, hbefore, hbehind]
      exact dropBlankEnds_of_ends hends.1 hends.2 ha hb
    · exact fun l hl => heven.blank l (by simp [heq, hl])
    · rintro p ⟨hindent, hp⟩
      refine heven.margin p ⟨hindent, fun l hl hink => ?_⟩
      have hne : l ≠ [] := by
        rintro rfl
        contradiction
      rw [heq, List.mem_append, List.mem_append] at hl
      rcases hl with (hl | hl) | hl
      · exact absurd (hpre l hl) hne
      · exact hp l hl hink
      · exact absurd (hpost l hl) hne

/-- The quotes, dashes and other characters for which plain ones are put. -/
def typographic : Text := "“”‘’…–—\u00a0".toList

theorem plainChar_of_not_mem (h : c ∉ typographic) : plainChar c = [c] := by
  unfold plainChar
  split
  case h_8 =>
    have hspace : c.toNat ≠ 0xa0 := fun hc => by
      obtain rfl : c = '\u00a0' := Char.toNat_inj.mp hc
      exact h (by decide)
    simp [hspace]
  all_goals exact absurd (by decide) h

theorem not_mem_of_plainChar {x : Char} (h : x ∈ plainChar c) : x ∉ typographic := by
  have hplain : typographic.all fun c => (plainChar c).all fun x => !typographic.contains x := by
    decide
  by_cases hc : c ∈ typographic
  · have hx := List.all_eq_true.mp (List.all_eq_true.mp hplain c hc) x h
    simpa using hx
  · rw [plainChar_of_not_mem hc, List.mem_singleton] at h
    rwa [h]

theorem not_mem_of_plainCharacters : ∀ x ∈ plainCharacters t, x ∉ typographic := by
  intro x hx
  obtain ⟨c, -, hc⟩ := List.mem_flatMap.mp hx
  exact not_mem_of_plainChar hc

theorem plainCharacters_of_not_mem (h : ∀ x ∈ t, x ∉ typographic) : plainCharacters t = t := by
  unfold plainCharacters expand
  induction t with
  | nil => rfl
  | cons c t ih =>
    rw [List.forall_mem_cons] at h
    rw [List.flatMap_cons, plainChar_of_not_mem h.1, ih h.2]
    rfl

/-- Code as it is left by cleaning up. -/
structure Normal (c : Text) : Prop where
  ne_nil : c ≠ []
  first : ∀ l ∈ (c.splitOn '\n').head?, l.isBlankText = false
  last : ∀ l ∈ (c.splitOn '\n').getLast?, l.isBlankText = false
  /-- No line is made of blanks. -/
  blank : ∀ l ∈ c.splitOn '\n', l.isBlankText → l = []
  /-- The longest indentation that all lines with something on them share is none. -/
  margin : ∀ p, IsMargin p (c.splitOn '\n') → p = []
  plain : ∀ x ∈ c, x ∉ typographic
  plainCharacters_eq : plainCharacters c = c
  unindent_eq : unindent c = c

theorem normal_unindent (ht : ∀ x ∈ t, x ∉ typographic) (hne : unindent t ≠ []) :
    Normal (unindent t) := by
  obtain ⟨ls, heq, hbounded, heven, hls⟩ := (unindent_cases t).resolve_left hne
  have hends := hbounded.ends fun l hl => (hls l hl).1
  have hplain : ∀ x ∈ unlines ls, x ∉ typographic := by
    intro x hx
    rcases mem_unlines hx with rfl | ⟨l, hl, hxl⟩
    · decide
    · exact ht x ((hls l hl).2 hxl)
  have hink : ∀ l ∈ ls, l ≠ [] → l.isBlankText = false := fun l hl hl' => by
    by_contra hblank
    exact hl' (heven.blank l hl (by simpa using hblank))
  obtain ⟨⟨first, hfirst, hfirst'⟩, last, hlast, hlast'⟩ := hbounded
  have hsplit : (unlines ls).splitOn '\n' = ls := by
    obtain ⟨rest, rfl⟩ := List.head?_eq_some_iff.mp hfirst
    exact splitOn_unlines fun l hl => (hls l hl).1
  rw [heq] at hne ⊢
  constructor
  case ne_nil => exact hne
  case first =>
    rw [hsplit, hfirst]
    rintro l ⟨rfl⟩
    exact hink first (List.mem_of_mem_head? hfirst) hfirst'
  case last =>
    rw [hsplit, hlast]
    rintro l ⟨rfl⟩
    exact hink last (List.mem_of_mem_getLast? hlast) hlast'
  case blank =>
    rw [hsplit]
    exact heven.blank
  case margin =>
    rw [hsplit]
    exact heven.margin
  case plain => exact hplain
  case plainCharacters_eq => exact plainCharacters_of_not_mem hplain
  case unindent_eq =>
    rw [unindent, hsplit, heven.flushLeft_eq]
    simpa using dropBlankEnds_of_ends (a := []) (b := []) hends.1 hends.2 (by simp) (by simp)

/-- Whatever the reply and the language, cleaning up gives nothing or code in normal form with one
newline behind it. -/
theorem clean_normal (t : Text) (language : Option Text) :
    ∃ out, (clean t language).result = .ok out ∧
      (out = [] ∨ ∃ c, out = c ++ ['\n'] ∧ Normal c) := by
  obtain ⟨code, hresult⟩ : ∃ code, (clean t language).result =
      .ok (if (unindent (plainCharacters code)).isEmpty then []
        else unindent (plainCharacters code) ++ ['\n']) := by
    unfold clean
    cases extract? t language with
    | none => exact ⟨_, rfl⟩
    | some code => exact ⟨code, rfl⟩
  refine ⟨_, hresult, ?_⟩
  split
  · exact .inl rfl
  · rename_i hne
    refine .inr ⟨_, rfl, normal_unindent not_mem_of_plainCharacters ?_⟩
    simpa using hne

/-- A character put for another can indent a line or leave it blank. -/
example : unindent (plainCharacters "\u00a0\ta…\n\u00a0\n \t b\n".toList) =
      "a...\n\n b".toList := by decide

end Reply

end Graft
