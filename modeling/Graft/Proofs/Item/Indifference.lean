import Graft.Proofs.Item.Exchange

set_option autoImplicit false

/-!
What stands inside a comment or a string is of no account for the structure of a source. Other
contents of the same kind can take its place: the source can still be scanned, and it has the same
tokens, pairs of brackets, comments and literals, those behind the contents at offsets that move
with their length.
-/

namespace Graft.Item

open Lexeme

namespace Lexeme

theorem RawOpening.eq_nil_of_sign {marks : Nat} {v w : Text} {o : Char} (ho : o = '/' ∨ o = '"')
    (h : RawOpening marks (v ++ o :: w)) : w = [] := by
  have hslash : '/' ∉ v ++ o :: w := by
    generalize v ++ o :: w = u at h
    cases h <;> simp [List.mem_replicate]
  by_contra hw
  rcases ho with rfl | rfl
  · simp at hslash
  · rw [List.append_cons] at h
    exact absurd (h.isOpening hw '"' (by simp)) (by decide)

/-- The same sign opens a comment or a string behind any text, if no quote stands right behind
it. -/
theorem agrees_of_sign {o : Char} (ho : o = '/' ∨ o = '"') (v z : Text) {y : Text}
    (hy : y.head? ≠ some '\'') :
    Agrees v (o :: z) (o :: y) where
  chars u w _ hw hchar hpre := by
    obtain ⟨a, w, rfl⟩ := List.exists_cons_of_ne_nil hw
    obtain ⟨rfl, hnext⟩ := List.cons_prefix_cons.mp hpre
    rw [hchar.eq_of_sign ho] at hnext
    obtain ⟨rest, rfl⟩ := hnext
    exact hy rfl
  raws marks w hw hraw hpre := by
    obtain ⟨a, w, rfl⟩ := List.exists_cons_of_ne_nil hw
    obtain ⟨rfl, -⟩ := List.cons_prefix_cons.mp hpre
    obtain rfl := hraw.eq_nil_of_sign ho
    exact ⟨z, rfl⟩
  comment _ c hc _ := hc
  byte _ hquote := by
    obtain rfl := Option.some.inj hquote
    exact absurd ho (by decide)

theorem afterComment_contents {c : Text} (hstar : '*' ∉ c) (hslash : '/' ∉ c) (q : Text) :
    afterComment? 0 (c ++ '*' :: '/' :: q) = some q := by
  induction c with
  | nil => simp [afterComment?]
  | cons a c ih =>
    simp only [List.mem_cons, not_or] at hstar hslash
    rw [List.cons_append,
      afterComment_skip (fun h => hslash.1 h.1.symm) (fun h => hstar.1 h.1.symm)]
    exact ih hstar.2 hslash.2

theorem afterString_contents {c : Text} (hquote : '"' ∉ c) (hslash : '\\' ∉ c) (q : Text) :
    afterString? (c ++ '"' :: q) = some q := by
  induction c with
  | nil => simp [afterString?]
  | cons a c ih =>
    simp only [List.mem_cons, not_or] at hquote hslash
    rw [List.cons_append, afterString?.eq_def]
    simp [Ne.symm hquote.1, Ne.symm hslash.1, ih hquote.2 hslash.2]

end Lexeme

/-- What sets contents apart from the source: a comment up to the end of its line, a block comment,
a string. -/
inductive Fence where
  | line
  | block
  | string
  deriving DecidableEq, Repr

namespace Fence

def opening : Fence → Text
  | line => ['/', '/']
  | block => ['/', '*']
  | string => ['"']

def closing : Fence → Text
  | line => ['\n']
  | block => ['*', '/']
  | string => ['"']

def Admits : Fence → Text → Prop
  | line, c => '\n' ∉ c
  | block, c => '*' ∉ c ∧ '/' ∉ c
  | string, c => '"' ∉ c ∧ '\\' ∉ c ∧ c.head? ≠ some '\''

/-- What is masked of the fence: a line comment stops before its newline. -/
def mask (f : Fence) (c : Text) : Text :=
  match f with
  | line => f.opening ++ c
  | _ => f.opening ++ c ++ f.closing

def after (f : Fence) (q : Text) : Text :=
  match f with
  | line => '\n' :: q
  | _ => q

variable {f : Fence} {c e p q : Text}

theorem fenced_eq (f : Fence) (p c q : Text) :
    p ++ f.opening ++ c ++ f.closing ++ q = p ++ (f.mask c ++ f.after q) := by
  cases f <;> simp [mask, after, opening, closing]

theorem mask_ne_nil (f : Fence) (c : Text) : f.mask c ≠ [] := by
  cases f <;> simp [mask, opening]

theorem getLast?_mask (hf : f ≠ line) (c : Text) : (f.mask c).getLast? = f.closing.getLast? := by
  cases f with
  | line => exact absurd rfl hf
  | block => exact List.getLast?_append_of_ne_nil _ (by simp [closing])
  | string => exact List.getLast?_append_of_ne_nil _ (by simp [closing])

theorem length_mask (f : Fence) (c e : Text) :
    (f.mask e).length + c.length = (f.mask c).length + e.length := by
  cases f <;> simp only [mask, List.length_append] <;> omega

theorem afterMask_mask (hc : f.Admits c) (prev : Option Char) (q : Text) :
    afterMask prev (f.mask c ++ f.after q) = .ok (some (f.after q)) := by
  cases f with
  | line => exact afterMask_eq_some_iff.mpr ⟨_, rfl, Or.inl ⟨⟨c, rfl, hc⟩, by simp [Breaks, after]⟩⟩
  | block => simp [mask, after, opening, closing, afterMask, afterComment_contents hc.1 hc.2]
  | string => simp [mask, after, opening, closing, afterMask, afterString_contents hc.1 hc.2.1]

theorem agrees (he : f.Admits e) (v c q : Text) :
    Agrees v (f.mask c ++ f.after q) (f.mask e ++ f.after q) := by
  cases f with
  | line => exact agrees_of_sign (Or.inl rfl) v _ (by simp)
  | block => exact agrees_of_sign (Or.inl rfl) v _ (by simp)
  | string =>
    refine agrees_of_sign (Or.inr rfl) v _ ?_
    cases e with
    | nil => simp [closing]
    | cons a e => exact he.2.2

theorem exists_reading {ls : List Lexeme} (hc : f.Admits c)
    (h : Lexes none (p ++ (f.mask c ++ f.after q)) ls [])
    (hmask : ∃ s ∈ Document.masksFrom 0 ls, s.start = p.length) :
    ∃ lsp lsq, ls = lsp ++ .masked (f.mask c) :: lsq ∧ Lexes none p lsp (f.mask c ++ f.after q) ∧
      Lexes (f.mask c).getLast? (f.after q) lsq [] := by
  obtain ⟨s, hs, hstart⟩ := hmask
  obtain ⟨lsp, u, lsq, rfl, rfl⟩ := Document.exists_of_mem_masksFrom hs
  obtain ⟨x, y, hsplit, hx, hy⟩ := h.split
  have hlength : x.length = p.length := by
    rw [← hx.text_eq, ← hstart, Nat.zero_add]
  obtain ⟨rfl, hrest⟩ := List.append_inj hsplit hlength.symm
  cases hy with
  | @masked _ _ t _ _ hne hread hlexes =>
    simp only [List.append_nil, ← hrest] at hread hx
    rw [afterMask_mask hc] at hread
    obtain rfl : f.after q = t := by simpa using hread
    obtain rfl := List.append_cancel_right hrest
    exact ⟨lsp, lsq, rfl, hx, hlexes⟩

theorem lexes_exchange {lsp lsq : List Lexeme} (he : f.Admits e)
    (hp : Lexes none p lsp (f.mask c ++ f.after q))
    (hq : Lexes (f.mask c).getLast? (f.after q) lsq []) :
    Lexes none (p ++ (f.mask e ++ f.after q)) (lsp ++ .masked (f.mask e) :: lsq) [] := by
  have hbefore : Lexes none p lsp (f.mask e ++ f.after q ++ []) := by
    rw [List.append_nil]
    refine hp.transfer (fun v _ _ => agrees he v c q) fun _ _ hbreaks => ?_
    -- No newline opens a fence.
    cases f <;> exact absurd (hbreaks _ rfl) (by decide)
  have hbehind : Lexes (f.mask e).getLast? (f.after q) lsq [] := by
    by_cases hf : f = line
    · subst hf
      exact hq.restart_of_breaks (by simp [Breaks, after]) _
    · rwa [getLast?_mask hf] at hq ⊢
  refine hbefore.append (.masked (mask_ne_nil f e) ?_ hbehind)
  rw [List.append_nil]
  exact afterMask_mask he _ q

end Fence

namespace Document

/-- The same structure for another source, with every offset moved. -/
def moved (d : Document) (source : Text) (move : Nat → Nat) : Document where
  source := source
  tokens := d.tokens.map (·.moved move)
  partners := d.partners.map fun ab => (move ab.1, move ab.2)
  masks := d.masks.map (·.moved move)

/-- Where an offset goes when `new` characters take the place of `old` ones that start at
`start`. -/
def shift (start old new : Nat) (i : Nat) : Nat := if start + old ≤ i then i + new - old else i

theorem pair_moved (move : Nat → Nat) {stack ts left : List Token} {pairs : List (Nat × Nat)}
    (h : pair stack ts = .ok (pairs, left)) :
    pair (stack.map (·.moved move)) (ts.map (·.moved move)) =
      .ok (pairs.map fun ab => (move ab.1, move ab.2), left.map (·.moved move)) := by
  have hpairing := pairing_of_pair h
  clear h
  induction hpairing with
  | done => rfl
  | pass hc _ ih => simpa [pair, Token.moved, hc, opener?] using ih
  | push ho hc _ ih => simpa [pair, Token.moved, ho, hc] using ih
  | pop ho _ ih =>
    simp only [List.map_cons, pair, Token.moved, ho] at ih ⊢
    simp [ih, Bind.bind, Except.bind, pure, Except.pure]

theorem exchange_mask {move : Nat → Nat} {n : Nat} {ls₁ : List Lexeme} {u u' : Text}
    (ls₂ : List Lexeme) (hn : (ls₁.flatMap Lexeme.text).length = n)
    (hbefore : ∀ i ≤ n, move i = i) (hbehind : ∀ i, move (n + u.length + i) = n + u'.length + i) :
    tokensFrom 0 (ls₁ ++ .masked u' :: ls₂) =
      (tokensFrom 0 (ls₁ ++ .masked u :: ls₂)).map (·.moved move) ∧
      masksFrom 0 (ls₁ ++ .masked u' :: ls₂) =
        (masksFrom 0 (ls₁ ++ .masked u :: ls₂)).map (·.moved move) := by
  have hfirst : ∀ i ≤ (ls₁.flatMap Lexeme.text).length, move (0 + i) = 0 + i := by
    intro i hi
    rw [Nat.zero_add]
    exact hbefore i (hn ▸ hi)
  have hlast : ∀ i ≤ (ls₂.flatMap Lexeme.text).length,
      move (n + u.length + i) = n + u'.length + i :=
    fun i _ => hbehind i
  have hmask : Span.moved move ⟨n, n + u.length⟩ = ⟨n, n + u'.length⟩ := by
    rw [Span.moved, hbefore n (Nat.le_refl n)]
    exact congrArg _ (hbehind 0)
  constructor
  · rw [tokensFrom_append, tokensFrom_append, tokensFrom, tokensFrom, List.map_append, hn,
      Nat.zero_add, tokensFrom_moved move hlast, ← tokensFrom_moved move hfirst]
  · rw [masksFrom_append, masksFrom_append, masksFrom, masksFrom, List.map_append, List.map_cons,
      hn, Nat.zero_add, masksFrom_moved move hlast, ← masksFrom_moved move hfirst, hmask]

theorem scan_of_pair {source : Text} {ls : List Lexeme} {partners : List (Nat × Nat)}
    (h : Lexes none source ls []) (hpair : pair [] (tokensFrom 0 ls) = .ok (partners, [])) :
    scan source = .ok ⟨source, (tokensFrom 0 ls).toArray, partners, (masksFrom 0 ls).toArray⟩ := by
  simp [scan, h.read_eq, hpair]

theorem shift_before (f : Fence) (p c e : Text) {i : Nat} (hi : i ≤ p.length) :
    shift (p.length + f.opening.length) c.length e.length i = i := by
  have hopening : 0 < f.opening.length := by cases f <;> decide
  rw [shift, if_neg (by omega)]

theorem shift_behind (f : Fence) (p c e : Text) (i : Nat) :
    shift (p.length + f.opening.length) c.length e.length (p.length + (f.mask c).length + i) =
      p.length + (f.mask e).length + i := by
  have hle : f.opening.length + c.length ≤ (f.mask c).length := by
    cases f <;> simp only [Fence.mask, List.length_append] <;> omega
  have hlength := f.length_mask c e
  rw [shift, if_pos (by omega)]
  omega

/-- Contents of a comment or string can be exchanged. Where the source can be scanned with the fence
as one of its masks, it can be scanned with the new contents, and all that is different is the
offsets behind them. -/
theorem scan_ignores_contents (f : Fence) {p c e q : Text} {d : Document} (hc : f.Admits c)
    (he : f.Admits e) (hd : scan (p ++ f.opening ++ c ++ f.closing ++ q) = .ok d)
    (hmask : ∃ s ∈ d.masks.toList, s.start = p.length) :
    scan (p ++ f.opening ++ e ++ f.closing ++ q) =
      .ok (d.moved (p ++ f.opening ++ e ++ f.closing ++ q)
        (shift (p.length + f.opening.length) c.length e.length)) := by
  obtain ⟨ls, hlexes, -, htokens, hmasks, hpair⟩ := lexes_of_scan hd
  rw [Fence.fenced_eq] at hlexes
  rw [hmasks] at hmask
  obtain ⟨lsp, lsq, rfl, hp, hq⟩ := Fence.exists_reading hc hlexes hmask
  have hnew := Fence.lexes_exchange he hp hq
  rw [← Fence.fenced_eq] at hnew
  obtain ⟨htokens', hmasks'⟩ := exchange_mask lsq (congrArg List.length hp.text_eq)
    (fun _ => shift_before f p c e) (shift_behind f p c e)
  have hpair' := pair_moved (shift (p.length + f.opening.length) c.length e.length) hpair
  rw [List.map_nil, ← htokens'] at hpair'
  rw [scan_of_pair hnew hpair', htokens', hmasks', moved, ← htokens, ← hmasks, ← Array.toList_map,
    ← Array.toList_map, Array.toArray_toList, Array.toArray_toList]

theorem scan_ignores_contents_quote :
    ∃ d, scan "g('\"(\x7d\" \x7b\x7d);".toList = .ok d ∧
      d.tokens.toList = [⟨'(', 1⟩, ⟨'\x7b', 8⟩, ⟨'\x7d', 9⟩, ⟨')', 10⟩, ⟨';', 11⟩] ∧
      ∃ d', scan "g('\"/* //\" \x7b\x7d);".toList = .ok d' ∧
        d'.tokens.toList = [⟨'(', 1⟩, ⟨'\x7b', 11⟩, ⟨'\x7d', 12⟩, ⟨')', 13⟩, ⟨';', 14⟩] ∧
        d'.partners = [(11, 12), (1, 13)] ∧ d'.masks.toList = [⟨3, 10⟩] := by
  have hfound : (scan "g('\"(\x7d\" \x7b\x7d);".toList).toOption.map
      (fun d => (d.tokens.toList, d.partners, d.masks.toList)) =
        some ([⟨'(', 1⟩, ⟨'\x7b', 8⟩, ⟨'\x7d', 9⟩, ⟨')', 10⟩, ⟨';', 11⟩], [(8, 9), (1, 10)],
          [⟨3, 7⟩]) := by
    decide +kernel
  obtain ⟨d, hd, heq⟩ := Option.map_eq_some_iff.mp hfound
  obtain ⟨htokens, hrest⟩ := Prod.mk.inj heq
  obtain ⟨hpartners, hmasks⟩ := Prod.mk.inj hrest
  have hnew :=
    scan_ignores_contents .string (p := "g('".toList) (c := "(\x7d".toList) (e := "/* //".toList)
    (q := " \x7b\x7d);".toList) (by simp [Fence.Admits]) (by simp [Fence.Admits])
      (scan_of_toOption hd)
    ⟨⟨3, 7⟩, by simp [hmasks], rfl⟩
  refine ⟨d, scan_of_toOption hd, htokens, _, hnew, ?_, ?_, ?_⟩
  · simp only [moved, Array.toList_map, htokens]
    decide
  · simp only [moved, hpartners]
    decide
  · simp only [moved, Array.toList_map, hmasks]
    decide

end Document

end Graft.Item
