import Graft.Proofs.Item.Reading
import Mathlib.Data.List.Find

set_option autoImplicit false

/-!
Scanned sources: tokens stand in the order of the source, every bracket is closed further right, and
the binary searches find what a search from the left would find. A source can be read if its
comments and literals are closed and its brackets match; for that only their kinds count.
-/

namespace Graft

theorem bisect_spec {p : Nat → Bool} {lo hi : Nat} (h : lo ≤ hi)
    (hmono : ∀ i j, i ≤ j → j < hi → p j → p i) :
    lo ≤ bisect p lo hi ∧ bisect p lo hi ≤ hi ∧
      (∀ i, lo ≤ i → i < bisect p lo hi → p i) ∧
      (∀ i, bisect p lo hi ≤ i → i < hi → p i = false) := by
  fun_induction bisect p lo hi with
  | case1 lo hi hlt mid hmid ih =>
    obtain ⟨hlo, hhi, hbelow, habove⟩ := ih (by omega) hmono
    refine ⟨by omega, hhi, ?_, habove⟩
    intro i hi₁ hi₂
    rcases Nat.lt_or_ge mid i with hm | hm
    · exact hbelow i hm hi₂
    · exact hmono i mid hm (by omega) hmid
  | case2 lo hi hlt mid hmid ih =>
    obtain ⟨hlo, hhi, hbelow, habove⟩ :=
      ih (by omega) fun i j hij hj => hmono i j hij (by omega)
    refine ⟨hlo, by omega, hbelow, ?_⟩
    intro i hi₁ hi₂
    rcases Nat.lt_or_ge i mid with hm | hm
    · exact habove i hi₁ hm
    · by_contra hpi
      exact hmid (hmono mid i hm hi₂ (by simpa using hpi))
  | case3 lo hi hlt => exact ⟨Nat.le_refl _, h, by omega, by omega⟩

theorem getD_toList {α : Type} [Inhabited α] (a : Array α) {i : Nat} (hi : i < a.toList.length) :
    a.getD i default = a.toList[i] := by
  simp [Array.getD, show i < a.size by simpa using hi]

theorem bisect_sorted {α : Type} [Inhabited α] {a : Array α} {q : α → Bool}
    (hmono : a.toList.Pairwise fun x y => q y → q x) :
    ∃ n ≤ a.toList.length, bisect (fun i => q (a.getD i default)) 0 a.size = n ∧
      ∀ i (hi : i < a.toList.length), q a.toList[i] = decide (i < n) := by
  have hsize : a.toList.length = a.size := Array.length_toList
  obtain ⟨-, hle, hbelow, habove⟩ := bisect_spec (p := fun i => q (a.getD i default))
    (Nat.zero_le a.size) (by
    intro i j hij hj hpj
    rcases Nat.eq_or_lt_of_le hij with rfl | hlt
    · exact hpj
    · rw [getD_toList _ (by omega)] at hpj ⊢
      exact List.pairwise_iff_getElem.mp hmono i j (by omega) (by omega) hlt hpj)
  refine ⟨_, by omega, rfl, fun i hi => ?_⟩
  rw [← getD_toList]
  rcases Nat.lt_or_ge i (bisect (fun i => q (a.getD i default)) 0 a.size) with hlt | hge
  · rw [hbelow i (Nat.zero_le i) hlt, decide_eq_true hlt]
  · rw [habove i hge (by omega), decide_eq_false (by omega)]

namespace Item.Document

variable {n : Nat} {ls : List Lexeme}

theorem le_of_mem_tokensFrom {t : Token} (h : t ∈ tokensFrom n ls) : n ≤ t.offset := by
  fun_induction tokensFrom n ls with
  | case1 => simp at h
  | case2 n c ls hc ih =>
    rcases List.mem_cons.mp h with rfl | h
    · exact Nat.le_refl _
    · have := ih h
      omega
  | case3 n c ls hc ih =>
    have := ih h
    omega
  | case4 n t ls ih =>
    have := ih h
    omega

theorem tokensFrom_sorted (n : Nat) (ls : List Lexeme) :
    (tokensFrom n ls).Pairwise fun a b => a.offset < b.offset := by
  fun_induction tokensFrom n ls with
  | case1 => exact List.Pairwise.nil
  | case2 n c ls hc ih =>
    refine List.pairwise_cons.mpr ⟨?_, ih⟩
    intro t ht
    have := le_of_mem_tokensFrom ht
    exact this
  | case3 n c ls hc ih => exact ih
  | case4 n t ls ih => exact ih

theorem tokensFrom_append (n : Nat) (ls ls' : List Lexeme) :
    tokensFrom n (ls ++ ls') =
      tokensFrom n ls ++ tokensFrom (n + (ls.flatMap Lexeme.text).length) ls' := by
  induction ls generalizing n with
  | nil => rfl
  | cons l ls ih =>
    rw [List.flatMap_cons, List.length_append, ← Nat.add_assoc, List.cons_append]
    cases l with
    | plain c =>
      rw [tokensFrom, tokensFrom, ih]
      split <;> rfl
    | masked u =>
      rw [tokensFrom, tokensFrom, ih]
      rfl

/-- How brackets are paired: a semicolon changes nothing, an opening bracket is put on the stack of
open ones, a closing one takes its opener from there. -/
inductive Pairing : List Token → List Token → List (Nat × Nat) → List Token → Prop
  | done (stack : List Token) : Pairing stack [] [] stack
  | pass {stack ts left : List Token} {pairs : List (Nat × Nat)} {t : Token} :
    t.char = ';' → Pairing stack ts pairs left → Pairing stack (t :: ts) pairs left
  | push {stack ts left : List Token} {pairs : List (Nat × Nat)} {t : Token} :
    opener? t.char = none → t.char ≠ ';' → Pairing (t :: stack) ts pairs left →
      Pairing stack (t :: ts) pairs left
  | pop {stack ts left : List Token} {pairs : List (Nat × Nat)} {top t : Token} :
    opener? t.char = some top.char → Pairing stack ts pairs left →
      Pairing (top :: stack) (t :: ts) ((top.offset, t.offset) :: pairs) left

theorem pairing_of_pair {stack ts left : List Token} {pairs : List (Nat × Nat)}
    (h : pair stack ts = .ok (pairs, left)) : Pairing stack ts pairs left := by
  induction ts generalizing stack pairs with
  | nil =>
    simp only [pair, Except.ok.injEq, Prod.mk.injEq] at h
    rw [← h.1, ← h.2]
    exact .done stack
  | cons t ts ih =>
    unfold pair at h
    split at h
    · rename_i ho
      split at h
      · rename_i hc
        exact .pass (by simpa using hc) (ih h)
      · rename_i hc
        exact .push ho (by simpa using hc) (ih h)
    · rename_i c ho
      split at h
      · contradiction
      · rename_i top rest
        split at h
        · rename_i htop
          cases hp : pair rest ts with
          | error e => simp [hp, Bind.bind, Except.bind] at h
          | ok result =>
            obtain ⟨pairs', left'⟩ := result
            simp only [hp, Bind.bind, Except.bind, pure, Except.pure, Except.ok.injEq,
              Prod.mk.injEq] at h
            obtain ⟨rfl, rfl⟩ := h
            have htop : top.char = c := by simpa using htop
            exact .pop (htop ▸ ho) (ih hp)
        · contradiction

section

variable {stack ts left : List Token} {pairs : List (Nat × Nat)} {t : Token}

theorem Pairing.brackets (h : Pairing stack ts pairs left) :
    ∀ ab ∈ pairs, ∃ s ∈ stack ++ ts, ∃ t ∈ ts, s.offset = ab.1 ∧ t.offset = ab.2 ∧
      opener? t.char = some s.char := by
  induction h with
  | done => simp
  | pass _ _ ih =>
    intro ab hab
    obtain ⟨s, hs, u, hu, hsu⟩ := ih ab hab
    exact ⟨s, by grind, u, by grind, hsu⟩
  | push _ _ _ ih =>
    intro ab hab
    obtain ⟨s, hs, u, hu, hsu⟩ := ih ab hab
    exact ⟨s, by grind, u, by grind, hsu⟩
  | pop ho _ ih =>
    intro ab hab
    rcases List.mem_cons.mp hab with rfl | hab
    · exact ⟨_, by simp, _, by simp, rfl, rfl, ho⟩
    · obtain ⟨s, hs, u, hu, hsu⟩ := ih ab hab
      exact ⟨s, by grind, u, by grind, hsu⟩

def Stacked (stack ts : List Token) : Prop :=
  (stack.reverse ++ ts).Pairwise fun a b => a.offset < b.offset

theorem Stacked.pass (h : Stacked stack (t :: ts)) : Stacked stack ts :=
  h.sublist ((List.Sublist.refl _).append (List.sublist_cons_self t ts))

theorem Stacked.push (h : Stacked stack (t :: ts)) : Stacked (t :: stack) ts := by
  rw [Stacked, List.reverse_cons, List.append_assoc]
  exact h

theorem Stacked.pop {top : Token} (h : Stacked (top :: stack) (t :: ts)) :
    Stacked stack ts ∧ top.offset < t.offset ∧ (∀ s ∈ stack, s.offset < top.offset) ∧
      ∀ u ∈ ts, t.offset < u.offset := by
  rw [Stacked, List.reverse_cons, List.append_assoc, List.pairwise_append, List.singleton_append,
    List.pairwise_cons, List.pairwise_cons] at h
  obtain ⟨hstack, ⟨htop, ht, hts⟩, hbelow⟩ := h
  refine ⟨?_, htop t (by simp), fun s hs => hbelow s (by simpa using hs) top (by simp), ht⟩
  exact List.pairwise_append.mpr ⟨hstack, hts, fun s hs u hu => hbelow s hs u (by simp [hu])⟩

theorem Pairing.lt (h : Pairing stack ts pairs left) (hs : Stacked stack ts) :
    ∀ ab ∈ pairs, ab.1 < ab.2 := by
  induction h with
  | done => simp
  | pass _ _ ih => exact ih hs.pass
  | push _ _ _ ih => exact ih hs.push
  | pop _ _ ih =>
    obtain ⟨hrest, hlt, -, -⟩ := hs.pop
    intro ab hab
    rcases List.mem_cons.mp hab with rfl | hab
    · exact hlt
    · exact ih hrest ab hab

end

theorem le_of_mem_masksFrom {s : Span} (h : s ∈ masksFrom n ls) :
    n ≤ s.start ∧ s.start ≤ s.stop := by
  fun_induction masksFrom n ls with
  | case1 => simp at h
  | case2 n c ls ih =>
    have := ih h
    omega
  | case3 n t ls ih =>
    rcases List.mem_cons.mp h with rfl | h
    · simp only
      omega
    · have := ih h
      omega

theorem masksFrom_sorted (n : Nat) (ls : List Lexeme) :
    (masksFrom n ls).Pairwise fun a b => a.stop ≤ b.start := by
  fun_induction masksFrom n ls with
  | case1 => exact List.Pairwise.nil
  | case2 n c ls ih => exact ih
  | case3 n t ls ih => exact List.pairwise_cons.mpr ⟨fun s hs => (le_of_mem_masksFrom hs).1, ih⟩

theorem masksFrom_append (n : Nat) (ls ls' : List Lexeme) :
    masksFrom n (ls ++ ls') =
      masksFrom n ls ++ masksFrom (n + (ls.flatMap Lexeme.text).length) ls' := by
  induction ls generalizing n with
  | nil => rfl
  | cons l ls ih =>
    cases l with
    | plain c =>
      rw [List.cons_append, masksFrom, masksFrom, ih, List.flatMap_cons, List.length_append,
        Nat.add_assoc]
      rfl
    | masked t =>
      rw [List.cons_append, masksFrom, masksFrom, ih, List.flatMap_cons, List.length_append,
        Nat.add_assoc]
      rfl

theorem mask_mem_masksFrom (n : Nat) (ls₁ : List Lexeme) (u : Text) (ls₂ : List Lexeme) :
    (⟨n + (ls₁.flatMap Lexeme.text).length, n + (ls₁.flatMap Lexeme.text).length + u.length⟩ :
      Span) ∈
      masksFrom n (ls₁ ++ .masked u :: ls₂) := by
  rw [masksFrom_append, masksFrom]
  simp

theorem exists_of_mem_masksFrom {m : Span} (hm : m ∈ masksFrom n ls) :
    ∃ ls₁ u ls₂, ls = ls₁ ++ .masked u :: ls₂ ∧ m = ⟨n + (ls₁.flatMap Lexeme.text).length,
      n + (ls₁.flatMap Lexeme.text).length + u.length⟩ := by
  fun_induction masksFrom n ls with
  | case1 => simp at hm
  | case2 n c ls ih =>
    obtain ⟨ls₁, u, ls₂, rfl, rfl⟩ := ih hm
    refine ⟨.plain c :: ls₁, u, ls₂, rfl, ?_⟩
    simp only [List.flatMap_cons, Lexeme.text, List.length_append, List.length_singleton,
      Nat.add_assoc]
  | case3 n t ls ih =>
    rcases List.mem_cons.mp hm with rfl | hm
    · exact ⟨[], t, ls, rfl, by simp⟩
    · obtain ⟨ls₁, u, ls₂, rfl, rfl⟩ := ih hm
      refine ⟨.masked t :: ls₁, u, ls₂, rfl, ?_⟩
      simp only [List.flatMap_cons, Lexeme.text, List.length_append, Nat.add_assoc]

theorem of_scan {source : Text} {d : Document} (h : scan source = .ok d) :
    d.source = source ∧ (Lexeme.read none source).2 = none ∧
      d.tokens = (tokensFrom 0 (Lexeme.read none source).1).toArray ∧
      d.masks = (masksFrom 0 (Lexeme.read none source).1).toArray ∧
      pair [] (tokensFrom 0 (Lexeme.read none source).1) = .ok (d.partners, []) := by
  unfold scan at h
  generalize Lexeme.read none source = r at h ⊢
  obtain ⟨ls, stop⟩ := r
  simp only at h ⊢
  cases hp : pair [] (tokensFrom 0 ls) with
  | error t => simp [hp] at h
  | ok r =>
    obtain ⟨partners, left⟩ := r
    simp only [hp] at h
    cases stop with
    | some cause => simp at h
    | none =>
      cases left with
      | cons t left => simp at h
      | nil =>
        simp only [Except.ok.injEq] at h
        subst h
        exact ⟨rfl, rfl, rfl, rfl, rfl⟩

theorem exists_of_isOk {source : Text} (h : (scan source).isOk) : ∃ d, scan source = .ok d := by
  cases hscan : scan source with
  | error fault => simp [hscan, Except.isOk, Except.toBool] at h
  | ok d => exact ⟨d, rfl⟩

theorem scan_of_toOption {source : Text} {d : Document} (h : (scan source).toOption = some d) :
    scan source = .ok d := by
  cases hscan : scan source with
  | error fault => simp [hscan, Except.toOption] at h
  | ok d' => simpa [hscan, Except.toOption] using h

section

variable {source : Text} {d : Document} {a b : Nat} {kinds : Text} {t : Token} {s : Span}

theorem tokens_sorted (h : scan source = .ok d) :
    d.tokens.toList.Pairwise fun a b => a.offset < b.offset := by
  obtain ⟨-, -, ht, -, -⟩ := of_scan h
  rw [ht]
  exact tokensFrom_sorted 0 _

theorem mem_partners (hp : d.partner? a = some b) : (a, b) ∈ d.partners := by
  obtain ⟨pre, post, he, -⟩ := List.lookup_eq_some_iff.mp hp
  rw [he]
  simp

theorem partner_spec (h : scan source = .ok d) (hp : d.partner? a = some b) :
    a < b ∧ ∃ t ∈ d.tokens.toList, t.offset = b := by
  obtain ⟨-, -, htokens, -, hpair⟩ := of_scan h
  have hmem := mem_partners hp
  have hpairing := pairing_of_pair hpair
  obtain ⟨-, -, t, ht, -, hoffset, -⟩ := hpairing.brackets (a, b) hmem
  rw [htokens]
  exact ⟨hpairing.lt (tokensFrom_sorted 0 _) (a, b) hmem, t, ht, hoffset⟩

theorem nextToken_eq_find (h : scan source = .ok d) (offset : Int) (kinds : Text) :
    d.nextToken? offset kinds =
      d.tokens.toList.find? fun t => decide (offset ≤ t.offset) && kinds.contains t.char := by
  obtain ⟨n, -, hn, hnear⟩ :=
    bisect_sorted (a := d.tokens) (q := fun t => decide ((t.offset : Int) < offset))
    ((tokens_sorted h).imp fun hlt hnear => by rw [decide_eq_true_eq] at hnear ⊢; omega)
  simp only [nextToken?, hn]
  have htake : (d.tokens.toList.take n).find?
      (fun t => decide (offset ≤ t.offset) && kinds.contains t.char) = none := by
    rw [List.find?_eq_none]
    intro t ht
    obtain ⟨i, hi, rfl⟩ := List.getElem_of_mem ht
    rw [List.length_take] at hi
    have := hnear i (by omega)
    rw [decide_eq_true (show i < n by omega), decide_eq_true_eq] at this
    rw [List.getElem_take, Bool.and_eq_true, decide_eq_true_eq]
    omega
  have hdrop : ∀ t ∈ d.tokens.toList.drop n, (offset : Int) ≤ t.offset := by
    intro t ht
    obtain ⟨i, hi, rfl⟩ := List.getElem_of_mem ht
    rw [List.length_drop] at hi
    have := hnear (n + i) (by omega)
    rw [decide_eq_false (show ¬n + i < n by omega), decide_eq_false_iff_not] at this
    rw [List.getElem_drop]
    omega
  conv_rhs => rw [← List.take_append_drop n d.tokens.toList, List.find?_append, htake,
    Option.none_or]
  exact List.find?_congr fun t ht => by simp [hdrop t ht]

theorem nextToken_spec (h : scan source = .ok d) {offset : Int}
    (ht : d.nextToken? offset kinds = some t) :
    t ∈ d.tokens.toList ∧ offset ≤ t.offset ∧ t.char ∈ kinds := by
  rw [nextToken_eq_find h] at ht
  have hsome := List.find?_some ht
  rw [Bool.and_eq_true, decide_eq_true_eq] at hsome
  exact ⟨List.mem_of_find?_eq_some ht, hsome.1, by simpa using hsome.2⟩

theorem nextToken_eq_some (h : scan source = .ok d) {offset : Int} (ht : t ∈ d.tokens.toList)
    (hoffset : offset ≤ t.offset) (hkind : t.char ∈ kinds)
    (hfirst : ∀ u ∈ d.tokens.toList, offset ≤ u.offset → u.offset < t.offset → u.char ∉ kinds) :
    d.nextToken? offset kinds = some t := by
  obtain ⟨pre, post, hsplit⟩ := List.append_of_mem ht
  have hsorted := tokens_sorted h
  rw [nextToken_eq_find h, List.find?_eq_some_iff_append]
  refine ⟨by simp [hoffset, hkind], pre, post, hsplit, fun u hu => ?_⟩
  rw [hsplit] at hsorted
  have hmem : u ∈ d.tokens.toList := by simp [hsplit, hu]
  have hlt := (List.pairwise_append.mp hsorted).2.2 u hu t (by simp)
  by_cases hfar : offset ≤ u.offset
  · simpa [hfar] using hfirst u hmem hfar hlt
  · simp [hfar]

theorem nextToken_le (hd : scan source = .ok d) {offset : Int} {u : Token}
    (ht : d.nextToken? offset kinds = some t) (hu : u ∈ d.tokens.toList)
    (hoffset : offset ≤ u.offset) (hkind : u.char ∈ kinds) : t.offset ≤ u.offset := by
  rw [nextToken_eq_find hd] at ht
  obtain ⟨-, pre, post, hsplit, hpre⟩ := List.find?_eq_some_iff_append.mp ht
  have hsorted := tokens_sorted hd
  rw [hsplit] at hu hsorted
  rcases List.mem_append.mp hu with hu | hu
  · have := hpre u hu
    simp [hoffset, hkind] at this
  · rcases List.mem_cons.mp hu with rfl | hu
    · exact Nat.le_refl _
    · have hlt := (List.pairwise_cons.mp (List.pairwise_append.mp hsorted).2.1).1 u hu
      omega

theorem masks_sorted (h : scan source = .ok d) :
    d.masks.toList.Pairwise fun a b => a.stop ≤ b.start := by
  obtain ⟨-, -, -, hmasks, -⟩ := of_scan h
  rw [hmasks]
  exact masksFrom_sorted 0 _

theorem exists_masks_split (h : scan source = .ok d) (offset : Int) :
    ∃ n ≤ d.masks.toList.length,
      bisect (fun i => (d.masks.getD i default).start ≤ offset) 0 d.masks.size = n ∧
      ∀ i (hi : i < d.masks.toList.length), (d.masks.toList[i].start : Int) ≤ offset ↔ i < n := by
  have hspan : ∀ t ∈ d.masks.toList, t.start ≤ t.stop := by
    obtain ⟨-, -, -, hmasks, -⟩ := of_scan h
    rw [hmasks]
    exact fun t ht => (le_of_mem_masksFrom ht).2
  obtain ⟨n, hle, hn, hstarts⟩ :=
    bisect_sorted (a := d.masks) (q := fun s => decide ((s.start : Int) ≤ offset))
    ((masks_sorted h).imp_of_mem fun hx _ hlt hstart => by
      have := hspan _ hx
      rw [decide_eq_true_eq] at hstart ⊢
      omega)
  exact ⟨n, hle, hn, fun i hi => by simpa using hstarts i hi⟩

theorem maskAt_of_mem (h : scan source = .ok d) (hs : s ∈ d.masks.toList) {offset : Int}
    (hstart : s.start ≤ offset) (hstop : offset < s.stop) : d.maskAt? offset = some s := by
  obtain ⟨n, hle, hn, hstarts⟩ := exists_masks_split h offset
  obtain ⟨k, hk, rfl⟩ := List.getElem_of_mem hs
  have hkn := (hstarts k hk).mp hstart
  have hlast : n - 1 = k := by
    by_contra hne
    have hlt := List.pairwise_iff_getElem.mp (masks_sorted h) k (n - 1) hk (by omega) (by omega)
    have := (hstarts (n - 1) (by omega)).mpr (by omega)
    omega
  simp only [maskAt?, hn]
  rw [if_neg (by omega), hlast, getD_toList _ hk, if_pos hstop]

theorem lt_stop_of_maskAt {offset : Int} (hs : d.maskAt? offset = some s) : offset < s.stop := by
  simp only [maskAt?] at hs
  split at hs
  · contradiction
  · obtain ⟨hlt, heq⟩ := Option.ite_none_right_eq_some.mp hs
    exact Option.some.inj heq ▸ hlt

theorem maskAt_spec (h : scan source = .ok d) {offset : Int} (hs : d.maskAt? offset = some s) :
    s ∈ d.masks.toList ∧ s.start ≤ offset ∧ offset < s.stop := by
  obtain ⟨n, hle, hn, hstarts⟩ := exists_masks_split h offset
  simp only [maskAt?, hn] at hs
  split at hs
  · contradiction
  · split at hs
    · rename_i hstop
      rw [getD_toList _ (by omega)] at hs hstop
      obtain rfl := Option.some.inj hs
      exact ⟨List.getElem_mem _, (hstarts (n - 1) (by omega)).mpr (by omega), hstop⟩
    · contradiction

def Covers (s : Span) (offset : Int) : Prop := s.start ≤ offset ∧ offset < s.stop

/-- The first token of one of the kinds from the offset on, in the order of the source. -/
structure IsNext (d : Document) (offset : Int) (kinds : Text) (t : Token) : Prop where
  mem : t ∈ d.tokens.toList
  le : offset ≤ t.offset
  kind : t.char ∈ kinds
  first : ∀ u ∈ d.tokens.toList, offset ≤ u.offset → u.char ∈ kinds → t.offset ≤ u.offset

theorem nextToken_eq_some_iff (h : scan source = .ok d) (offset : Int) (kinds : Text) (t : Token) :
    d.nextToken? offset kinds = some t ↔ d.IsNext offset kinds t := by
  constructor
  · intro ht
    obtain ⟨hmem, hle, hkind⟩ := nextToken_spec h ht
    exact ⟨hmem, hle, hkind, fun u hu => nextToken_le h ht hu⟩
  · intro ht
    refine nextToken_eq_some h ht.mem ht.le ht.kind fun u hu hle hlt hkind => ?_
    have := ht.first u hu hle hkind
    omega

theorem not_covers_both (h : scan source = .ok d) (offset : Int) :
    d.masks.toList.Pairwise fun a b => ¬(Covers a offset ∧ Covers b offset) := by
  refine (masks_sorted h).imp fun hle hboth => ?_
  obtain ⟨⟨-, hstop⟩, hstart, -⟩ := hboth
  omega

/-- At every offset, before the source and behind it too, the binary searches find what there is to
find: the one comment or literal that covers the offset, and the first token from there on of one of
the kinds. -/
theorem lookups_find_first (h : scan source = .ok d) (offset : Int) (kinds : Text) :
    (∀ s, d.maskAt? offset = some s ↔ s ∈ d.masks.toList ∧ Covers s offset) ∧
    (d.maskAt? offset = none ↔ ∀ s ∈ d.masks.toList, ¬Covers s offset) ∧
    (d.masks.toList.Pairwise fun a b => ¬(Covers a offset ∧ Covers b offset)) ∧
    (∀ t, d.nextToken? offset kinds = some t ↔ d.IsNext offset kinds t) ∧
    (d.nextToken? offset kinds = none ↔ ∀ t ∈ d.tokens.toList,
      offset ≤ t.offset → t.char ∉ kinds) := by
  have hmask : ∀ s, d.maskAt? offset = some s ↔ s ∈ d.masks.toList ∧ Covers s offset := fun s =>
    ⟨maskAt_spec h, fun hs => maskAt_of_mem h hs.1 hs.2.1 hs.2.2⟩
  refine ⟨hmask, ?_, not_covers_both h offset, nextToken_eq_some_iff h offset kinds, ?_⟩
  · rw [Option.eq_none_iff_forall_ne_some]
    exact forall_congr' fun s => by rw [ne_eq, hmask, not_and]
  · rw [nextToken_eq_find h, List.find?_eq_none]
    exact forall₂_congr fun t _ => by simp

theorem lookups_find_first_string :
    ∃ d, scan "f(\"\x7b\") \x7b\x7d".toList = .ok d ∧ d.maskAt? (-1) = none ∧
      d.maskAt? 4 = some ⟨2, 5⟩ ∧
      d.maskAt? 5 = none ∧ d.nextToken? (-1) ['\x7b'] = some ⟨'\x7b', 7⟩ ∧
        d.nextToken? 8 ['\x7b'] = none := by
  have hfound : (scan "f(\"\x7b\") \x7b\x7d".toList).toOption.map
      (fun d => (d.masks.toList, d.tokens.toList)) =
      some ([⟨2, 5⟩], [⟨'(', 1⟩, ⟨')', 5⟩, ⟨'\x7b', 7⟩, ⟨'\x7d', 8⟩]) := by decide +kernel
  obtain ⟨d, hd, heq⟩ := Option.map_eq_some_iff.mp hfound
  obtain ⟨hmasks, htokens⟩ := Prod.mk.inj heq
  have hscan := scan_of_toOption hd
  obtain ⟨-, hbefore, -, hnext, -⟩ := lookups_find_first hscan (-1) ['\x7b']
  obtain ⟨hinside, -, -, -, -⟩ := lookups_find_first hscan 4 []
  obtain ⟨-, hbehind, -, -, -⟩ := lookups_find_first hscan 5 []
  obtain ⟨-, -, -, -, hlast⟩ := lookups_find_first hscan 8 ['\x7b']
  refine ⟨d, hscan, hbefore.mpr ?_, (hinside _).mpr ?_, hbehind.mpr ?_, (hnext _).mpr ?_,
    hlast.mpr ?_⟩
  · simp [hmasks, Covers]
  · simp [hmasks, Covers]
  · simp [hmasks, Covers]
  · constructor <;> simp [htokens]
  · simp [htokens]

end

/-- Matches brackets against the open ones, the innermost first, and gives what is open in the
end. -/
def nest : Text → Text → Option Text
  | stack, [] => some stack
  | stack, c :: cs =>
    match opener? c with
    | none => if c == ';' then nest stack cs else nest (c :: stack) cs
    | some o =>
      match stack with
      | [] => none
      | top :: rest => if top == o then nest rest cs else none

theorem nest_append (stack a b : Text) : nest stack (a ++ b) = (nest stack a).bind (nest · b) := by
  fun_induction nest stack a with
  | case1 stack => rfl
  | case2 stack c cs ho hc ih => simp [nest, ho, hc, ih]
  | case3 stack c cs ho hc ih => simp [nest, ho, hc, ih]
  | case4 c cs o ho => simp [nest, ho]
  | case5 c cs o ho top rest htop ih => simp [nest, ho, htop, ih]
  | case6 c cs o ho top rest htop => simp [nest, ho, htop]

theorem nest_append_stack {stack t left : Text} (h : nest stack t = some left) (outer : Text) :
    nest (stack ++ outer) t = some (left ++ outer) := by
  fun_induction nest stack t with
  | case1 stack =>
    obtain rfl := Option.some.inj h
    rfl
  | case2 stack c cs ho hc ih => simp [nest, ho, hc, ih h]
  | case3 stack c cs ho hc ih => simpa [nest, ho, hc] using ih h
  | case4 c cs o ho => contradiction
  | case5 c cs o ho top rest htop ih => simp [nest, ho, htop, ih h]
  | case6 c cs o ho top rest htop => contradiction

theorem nest_balanced_append {b : Text} (hb : nest [] b = some []) (stack t : Text) :
    nest stack (b ++ t) = nest stack t := by
  have hstack := nest_append_stack hb stack
  rw [List.nil_append] at hstack
  rw [nest_append, hstack, Option.bind_some]

theorem nest_interleaved {kept out : Text} {blocks : List Text}
    (h : Text.Interleaved kept blocks out) (hblocks : ∀ b ∈ blocks, nest [] b = some [])
    (stack : Text) :
    nest stack out = nest stack kept := by
  induction h generalizing stack with
  | nil => rfl
  | @char c kept blocks out _ ih =>
    rw [← List.singleton_append, nest_append, ← List.singleton_append (l := kept), nest_append]
    simp only [ih hblocks]
  | @block b kept blocks out _ ih =>
    rw [nest_balanced_append (hblocks b (by simp))]
    exact ih (fun b' hb' => hblocks b' (by simp [hb'])) stack

theorem nest_eq_pair (stack ts : List Token) :
    nest (stack.map (·.char)) (ts.map (·.char)) =
      (pair stack ts).toOption.map fun r => r.2.map (·.char) := by
  induction ts generalizing stack with
  | nil => rfl
  | cons t ts ih =>
    rw [List.map_cons, nest, pair]
    cases opener? t.char with
    | none =>
      simp only
      split
      · exact ih stack
      · exact ih (t :: stack)
    | some o =>
      cases stack with
      | nil => rfl
      | cons top rest =>
        simp only [List.map_cons]
        split
        · rw [ih rest]
          cases pair rest ts <;> rfl
        · rfl

theorem map_char_tokensFrom (n : Nat) (ls : List Lexeme) :
    (tokensFrom n ls).map (·.char) = shape ls := by
  fun_induction tokensFrom n ls with
  | case1 => rfl
  | case2 n c ls hc ih => simp [shape, hc] at ih ⊢; exact ih
  | case3 n c ls hc ih => simp [shape, hc] at ih ⊢; exact ih
  | case4 n t ls ih => simpa [shape] using ih

theorem scan_isOk_iff {source : Text} :
    (∃ d, scan source = .ok d) ↔
      (Lexeme.read none source).2 = none ∧
        nest [] (shape (Lexeme.read none source).1) = some [] := by
  unfold scan
  generalize Lexeme.read none source = r
  obtain ⟨ls, stop⟩ := r
  have hnest := nest_eq_pair [] (tokensFrom 0 ls)
  rw [map_char_tokensFrom, List.map_nil] at hnest
  simp only [hnest]
  cases pair [] (tokensFrom 0 ls) with
  | error t => simp [Except.toOption]
  | ok r =>
    obtain ⟨partners, left⟩ := r
    cases stop with
    | some cause => simp
    | none => cases left <;> simp [Except.toOption]

/-- A source that can be scanned is made of lexemes whose brackets match, and its tokens and masks
are theirs. -/
theorem lexes_of_scan {source : Text} {d : Document} (h : scan source = .ok d) :
    ∃ ls, Lexes none source ls [] ∧ nest [] (shape ls) = some [] ∧
      d.tokens.toList = tokensFrom 0 ls ∧ d.masks.toList = masksFrom 0 ls ∧
      pair [] (tokensFrom 0 ls) = .ok (d.partners, []) := by
  obtain ⟨-, hread, htokens, hmasks, hpair⟩ := of_scan h
  refine ⟨_, Lexes.of_read (Prod.ext rfl hread), (scan_isOk_iff.mp ⟨d, h⟩).2, ?_, ?_, hpair⟩
  · rw [htokens]
  · rw [hmasks]

theorem scan_of_lexes {source : Text} (h : Lexes none source ls [])
    (hnest : nest [] (shape ls) = some []) :
    ∃ d, scan source = .ok d ∧ d.tokens.toList = tokensFrom 0 ls ∧
      d.masks.toList = masksFrom 0 ls := by
  have hread := h.read_eq
  obtain ⟨d, hd⟩ := scan_isOk_iff.mpr ⟨congrArg Prod.snd hread, by rwa [hread]⟩
  obtain ⟨-, -, htokens, hmasks, -⟩ := of_scan hd
  rw [hread] at htokens hmasks
  exact ⟨d, hd, by rw [htokens], by rw [hmasks]⟩

end Item.Document

end Graft
