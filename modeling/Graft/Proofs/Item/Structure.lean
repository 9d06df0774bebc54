import Graft.Proofs.Item.Cut
import Mathlib.Data.List.Nodup
import Mathlib.Data.List.Pairwise

set_option autoImplicit false

/-!
The structure of a scanned source. Its comments and literals lie apart, its tokens are the brackets
and semicolons outside of them, and its brackets are matched: each one once, with one of its kind,
so that any two pairs lie apart or one within the other.
-/

namespace Graft.Item

theorem Lexes.masked_ne_nil {prev : Option Char} {t u z : Text} {ls : List Lexeme}
    (h : Lexes prev t ls z) (hu : .masked u ∈ ls) : u ≠ [] := by
  induction h with
  | nil => simp at hu
  | plain _ _ ih => exact ih (by simpa using hu)
  | masked hne _ _ ih =>
    rcases List.mem_cons.mp hu with heq | hu
    · obtain rfl := Lexeme.masked.inj heq
      exact hne
    · exact ih hu

namespace Document

theorem mem_masksFrom {n : Nat} {ls : List Lexeme} {m : Span}
    (hls : ∀ u, .masked u ∈ ls → u ≠ []) (hm : m ∈ masksFrom n ls) :
    m.start < m.stop ∧ m.stop ≤ n + (ls.flatMap Lexeme.text).length := by
  fun_induction masksFrom n ls with
  | case1 => simp at hm
  | case2 n c ls ih =>
    have := ih (fun u hu => hls u (by simp [hu])) hm
    simp only [List.flatMap_cons, Lexeme.text, List.length_append, List.length_singleton]
    omega
  | case3 n t ls ih =>
    have hpos : 0 < t.length := List.length_pos_iff.mpr (hls t (by simp))
    simp only [List.flatMap_cons, Lexeme.text, List.length_append]
    rcases List.mem_cons.mp hm with rfl | hm
    · simp only
      omega
    · have := ih (fun u hu => hls u (by simp [hu])) hm
      omega

theorem mem_tokensFrom_iff {n : Nat} {ls : List Lexeme} (hls : ∀ u, .masked u ∈ ls → u ≠ [])
    {t : Token} :
    t ∈ tokensFrom n ls ↔
      n ≤ t.offset ∧ (ls.flatMap Lexeme.text)[t.offset - n]? = some t.char ∧ isStructural t.char ∧
        ∀ m ∈ masksFrom n ls, ¬(m.start ≤ t.offset ∧ t.offset < m.stop) := by
  constructor
  · intro h
    obtain ⟨ls₁, ls₂, rfl, hoffset, hs⟩ := exists_of_mem_tokensFrom h
    refine ⟨by omega, ?_, hs, ?_⟩
    · have hindex : t.offset - n = (ls₁.flatMap Lexeme.text).length := by omega
      rw [hindex, List.flatMap_append, List.getElem?_append_right (Nat.le_refl _), Nat.sub_self]
      rfl
    · intro m hm
      rw [masksFrom_append, masksFrom, List.mem_append] at hm
      rcases hm with hm | hm
      · have := (mem_masksFrom (fun u hu => hls u (by simp [hu])) hm).2
        omega
      · have := (le_of_mem_masksFrom hm).1
        omega
  · rintro ⟨hn, hget, hs, hmasks⟩
    have hlt : t.offset - n < (ls.flatMap Lexeme.text).length :=
      (List.getElem?_eq_some_iff.mp hget).1
    rcases boundary_cases (Nat.le_of_lt hlt) with
      ⟨ls₁, ls₂, rfl, hlen⟩ | ⟨ls₁, u, ls₂, rfl, hlo, hhi⟩
    · cases ls₂ with
      | nil =>
        rw [List.append_nil] at hlt
        omega
      | cons l ls₂ =>
        cases l with
        | plain c =>
          rw [List.flatMap_append, ← hlen, List.getElem?_append_right (Nat.le_refl _),
            Nat.sub_self] at hget
          obtain rfl : c = t.char := Option.some.inj hget
          have hoffset : t = ⟨t.char, n + (ls₁.flatMap Lexeme.text).length⟩ := by
            rw [hlen, Nat.add_sub_cancel' hn]
          rw [tokensFrom_append, tokensFrom, if_pos hs, ← hoffset]
          simp
        | masked u =>
          have hpos : 0 < u.length := List.length_pos_iff.mpr (hls u (by simp))
          have := hmasks _ (mask_mem_masksFrom n ls₁ u ls₂)
          simp only at this
          omega
    · have := hmasks _ (mask_mem_masksFrom n ls₁ u ls₂)
      simp only at this
      omega

def openers (ts : List Token) : List Token := ts.filter fun t => t.char == '\x7b' || t.char == '('

def closers (ts : List Token) : List Token := ts.filter fun t => t.char == '\x7d' || t.char == ')'

theorem opener_cases {c o : Char} (h : opener? c = some o) :
    (c = '\x7d' ∧ o = '\x7b') ∨ (c = ')' ∧ o = '(') := by
  unfold opener? at h
  split at h
  · exact Or.inl ⟨rfl, (Option.some.inj h).symm⟩
  · exact Or.inr ⟨rfl, (Option.some.inj h).symm⟩
  · contradiction

theorem opens_of_structural {c : Char} (hc : isStructural c) (ho : opener? c = none)
    (hs : c ≠ ';') :
    c = '\x7b' ∨ c = '(' := by
  simp only [isStructural, Bool.or_eq_true, beq_iff_eq] at hc
  rcases hc with (((rfl | rfl) | rfl) | rfl) | rfl
  · exact Or.inl rfl
  · contradiction
  · exact Or.inr rfl
  · contradiction
  · contradiction

namespace Pairing

variable {stack ts left : List Token} {pairs : List (Nat × Nat)}

theorem sides (h : Pairing stack ts pairs left) (hts : ∀ t ∈ ts, isStructural t.char) :
    (pairs.map (·.1) ++ left.map (·.offset)).Perm ((stack ++ openers ts).map (·.offset)) ∧
      pairs.map (·.2) = (closers ts).map (·.offset) := by
  induction h with
  | done => exact ⟨by simp [openers], rfl⟩
  | @pass stack ts left pairs t hc _ ih =>
    have hsame : openers (t :: ts) = openers ts ∧ closers (t :: ts) = closers ts := by
      simp [openers, closers, hc]
    rw [hsame.1, hsame.2]
    exact ih (List.forall_mem_cons.mp hts).2
  | @push stack ts left pairs t ho hc _ ih =>
    obtain ⟨ht, hts⟩ := List.forall_mem_cons.mp hts
    have hopen : openers (t :: ts) = t :: openers ts ∧ closers (t :: ts) = closers ts := by
      rcases opens_of_structural ht ho hc with heq | heq <;> simp [openers, closers, heq]
    have hmiddle : (t :: stack ++ openers ts).Perm (stack ++ t :: openers ts) :=
      List.perm_middle.symm
    rw [hopen.1, hopen.2]
    exact ⟨(ih hts).1.trans (hmiddle.map _), (ih hts).2⟩
  | @pop stack ts left pairs top t ho _ ih =>
    have hclose : openers (t :: ts) = openers ts ∧ closers (t :: ts) = t :: closers ts := by
      rcases opener_cases ho with ⟨heq, -⟩ | ⟨heq, -⟩ <;> simp [openers, closers, heq]
    obtain ⟨hopened, hclosed⟩ := ih (List.forall_mem_cons.mp hts).2
    rw [hclose.1, hclose.2]
    exact ⟨hopened.cons _, congrArg (t.offset :: ·) hclosed⟩

theorem nested (h : Pairing stack ts pairs left) (hs : Stacked stack ts) :
    pairs.Pairwise fun ab cd => ab.2 < cd.2 ∧ (cd.1 < ab.1 ∨ ab.2 < cd.1) := by
  induction h with
  | done => exact List.Pairwise.nil
  | pass _ _ ih => exact ih hs.pass
  | push _ _ _ ih => exact ih hs.push
  | pop _ hrest ih =>
    obtain ⟨hstacked, -, hbelow, habove⟩ := hs.pop
    refine List.pairwise_cons.mpr ⟨?_, ih hstacked⟩
    intro cd hcd
    obtain ⟨s, hs, u, hu, hopen, hclose, -⟩ := hrest.brackets cd hcd
    rw [← hopen, ← hclose]
    refine ⟨habove u hu, ?_⟩
    rcases List.mem_append.mp hs with hs | hs
    · exact Or.inl (hbelow s hs)
    · exact Or.inr (habove s hs)

end Pairing

/-- Two stretches lie apart or one within the other. -/
def Uncrossed (ab cd : Nat × Nat) : Prop :=
  ab.2 < cd.1 ∨ cd.2 < ab.1 ∨ (ab.1 < cd.1 ∧ cd.2 < ab.2) ∨ (cd.1 < ab.1 ∧ ab.2 < cd.2)

instance : Std.Symm Uncrossed where
  symm ab cd h := by
    unfold Uncrossed at h ⊢
    omega

/-- The matching of the brackets among some tokens, given by their offsets. -/
structure Matching (ts : List Token) (pairs : List (Nat × Nat)) : Prop where
  /-- Every opening bracket has its pair, and nothing else has one. -/
  opens : (pairs.map (·.1)).Perm ((openers ts).map (·.offset))
  /-- Every closing bracket ends a pair, and nothing else does. -/
  closes : (pairs.map (·.2)).Perm ((closers ts).map (·.offset))
  /-- No bracket opens two pairs. -/
  functional : ∀ ab ∈ pairs, ∀ cd ∈ pairs, ab.1 = cd.1 → ab = cd
  /-- No bracket closes two pairs. -/
  injective : ∀ ab ∈ pairs, ∀ cd ∈ pairs, ab.2 = cd.2 → ab = cd
  /-- Both brackets of a pair are of one kind. -/
  kind : ∀ ab ∈ pairs, ∃ s ∈ ts, ∃ t ∈ ts, s.offset = ab.1 ∧ t.offset = ab.2 ∧
    ((s.char = '\x7b' ∧ t.char = '\x7d') ∨ (s.char = '(' ∧ t.char = ')'))
  lt : ∀ ab ∈ pairs, ab.1 < ab.2
  nested : ∀ ab ∈ pairs, ∀ cd ∈ pairs, ab ≠ cd → Uncrossed ab cd

theorem matching_of_pair {ts : List Token} {pairs : List (Nat × Nat)}
    (h : pair [] ts = .ok (pairs, [])) (hsorted : ts.Pairwise fun a b => a.offset < b.offset)
    (hts : ∀ t ∈ ts, isStructural t.char) : Matching ts pairs := by
  have hpairing := pairing_of_pair h
  obtain ⟨hopened, hclosed⟩ := hpairing.sides hts
  rw [List.map_nil, List.append_nil, List.nil_append] at hopened
  have hlt := hpairing.lt hsorted
  have hoffsets : (ts.map (·.offset)).Nodup := List.pairwise_map.mpr (hsorted.imp Nat.ne_of_lt)
  have hfirst : (pairs.map (·.1)).Nodup :=
    hopened.nodup_iff.mpr (hoffsets.sublist (List.filter_sublist.map _))
  have hsecond : (pairs.map (·.2)).Nodup := by
    rw [hclosed]
    exact hoffsets.sublist (List.filter_sublist.map _)
  refine ⟨hopened, hclosed ▸ List.Perm.refl _, ?_, ?_, ?_, hlt, ?_⟩
  · exact fun ab hab cd hcd heq => List.inj_on_of_nodup_map hfirst hab hcd heq
  · exact fun ab hab cd hcd heq => List.inj_on_of_nodup_map hsecond hab hcd heq
  · intro ab hab
    obtain ⟨s, hs, t, ht, hopen, hclose, ho⟩ := hpairing.brackets ab hab
    refine ⟨s, hs, t, ht, hopen, hclose, ?_⟩
    rcases opener_cases ho with ⟨htc, hsc⟩ | ⟨htc, hsc⟩
    · exact Or.inl ⟨hsc, htc⟩
    · exact Or.inr ⟨hsc, htc⟩
  · have hpairs : pairs.Pairwise Uncrossed := by
      refine (hpairing.nested hsorted).imp_of_mem ?_
      intro ab cd hab hcd h
      have := hlt ab hab
      have := hlt cd hcd
      unfold Uncrossed
      omega
    exact fun ab hab cd hcd hne => hpairs.forall hab hcd hne

/-- What a scan says of a source. -/
structure Scanned (source : Text) (d : Document) : Prop where
  /-- Comments and literals are not empty and lie within the source. -/
  masks_inside : ∀ m ∈ d.masks.toList, m.start < m.stop ∧ m.stop ≤ source.length
  /-- They come from left to right, each after the end of the one before. -/
  masks_apart : d.masks.toList.Pairwise fun a b => a.stop ≤ b.start
  tokens_sorted : d.tokens.toList.Pairwise fun a b => a.offset < b.offset
  /-- The tokens are the brackets and semicolons outside of comments and literals. -/
  mem_tokens : ∀ t, t ∈ d.tokens.toList ↔
    source[t.offset]? = some t.char ∧ isStructural t.char ∧
      ∀ m ∈ d.masks.toList, ¬(m.start ≤ t.offset ∧ t.offset < m.stop)
  matching : Matching d.tokens.toList d.partners

/-- What a scan that succeeds finds is what there is: its masks lie apart, its tokens are all
brackets and semicolons that no mask covers, and its partners are the matching of these brackets. -/
theorem scan_structure {source : Text} {d : Document} (h : scan source = .ok d) :
    Scanned source d := by
  obtain ⟨ls, hlexes, -, htokens, hmasks, hpair⟩ := lexes_of_scan h
  have htext := hlexes.text_eq
  have hls : ∀ u, .masked u ∈ ls → u ≠ [] := fun u hu => hlexes.masked_ne_nil hu
  have hmem : ∀ t, t ∈ tokensFrom 0 ls ↔ source[t.offset]? = some t.char ∧ isStructural t.char ∧
      ∀ m ∈ masksFrom 0 ls, ¬(m.start ≤ t.offset ∧ t.offset < m.stop) := by
    intro t
    rw [mem_tokensFrom_iff hls, htext, Nat.sub_zero]
    simp
  refine ⟨?_, ?_, ?_, ?_, ?_⟩
  · rw [hmasks]
    intro m hm
    have := mem_masksFrom hls hm
    rwa [htext, Nat.zero_add] at this
  · rw [hmasks]
    exact masksFrom_sorted 0 ls
  · rw [htokens]
    exact tokensFrom_sorted 0 ls
  · rw [htokens, hmasks]
    exact hmem
  · rw [htokens]
    exact matching_of_pair hpair (tokensFrom_sorted 0 ls) fun t ht => ((hmem t).mp ht).2.1

theorem scan_structure_call :
    ∃ d, scan "f(g(\"\x7b\")); // )".toList = .ok d ∧ d.masks.toList = [⟨4, 7⟩, ⟨11, 15⟩] ∧
      d.partners = [(3, 7), (1, 8)] ∧ Scanned "f(g(\"\x7b\")); // )".toList d := by
  have hfound : (scan "f(g(\"\x7b\")); // )".toList).toOption.map
      (fun d => (d.masks.toList, d.partners)) = some ([⟨4, 7⟩, ⟨11, 15⟩], [(3, 7), (1, 8)]) := by
    decide +kernel
  obtain ⟨d, hd, heq⟩ := Option.map_eq_some_iff.mp hfound
  obtain ⟨hmasks, hpartners⟩ := Prod.mk.inj heq
  have hscan := scan_of_toOption hd
  exact ⟨d, hscan, hmasks, hpartners, scan_structure hscan⟩

end Document

end Graft.Item
