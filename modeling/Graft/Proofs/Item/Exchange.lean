import Graft.Proofs.Item.Cut

set_option autoImplicit false

/-!
Exchanging a stretch of whole lines. What stands before a stretch and ends with a newline, and what
comes after it and starts with one, reads the same whatever the stretch is; so a source that can be
scanned stays one when a part that can be scanned takes the place of another.
-/

namespace Graft.Item

open Lexeme

theorem Lexes.exchange_of_newline {prev : Option Char} {x z : Text} {ls : List Lexeme}
    (h : Lexes prev x ls z) (hx : ∀ c ∈ x.getLast?, c = '\n') (y : Text) : Lexes prev x ls y := by
  cases x using List.reverseRecOn with
  | nil =>
    obtain rfl := h.eq_nil
    exact .nil _ _
  | append_singleton x c =>
    obtain rfl := hx c (by simp)
    rcases h.last_cases (by decide) with ⟨ls₀, rfl, -⟩ | ⟨-, ls₀, x₀, u, -, heq, hu, -⟩
    · refine h.exchange (Or.inr (Or.inr ⟨⟨?_, not_hangs_of_newline hx⟩, ?_⟩))
      · intro c hc
        rw [hx c hc]
        decide
      · intro u
        rw [List.getLast?_concat]
        simp
    · exact absurd rfl (hu.last_ne_newline heq)

theorem Lexes.restart_of_breaks {prev : Option Char} {t z : Text} {ls : List Lexeme}
    (h : Lexes prev t ls z) (ht : Breaks t) (prev' : Option Char) : Lexes prev' t ls z := by
  cases t with
  | nil =>
    obtain rfl := h.eq_nil
    exact .nil _ _
  | cons c t =>
    obtain rfl := ht c rfl
    exact h.restart_of_head (by decide) (by decide) prev'

theorem Lexes.of_append_breaks {prev : Option Char} {x y : Text} {ls lsx : List Lexeme}
    (h : Lexes prev (x ++ y) ls []) (hx : Lexes prev x lsx []) (hy : Breaks y) :
    ∃ lsy, ls = lsx ++ lsy ∧ Lexes (lastOr prev x) y lsy [] := by
  have hread := (hx.exchange (Or.inl hy)).read_append
  rw [h.read_eq] at hread
  obtain ⟨hls, hstop⟩ := Prod.mk.inj hread
  exact ⟨_, hls, .of_read (Prod.ext rfl hstop.symm)⟩

def Token.moved (move : Nat → Nat) (t : Token) : Token := { t with offset := move t.offset }

def Span.moved (move : Nat → Nat) (s : Span) : Span := ⟨move s.start, move s.stop⟩

namespace Document

section

variable {n m : Nat} {ls : List Lexeme}

theorem moves_behind {move : Nat → Nat} {l : Lexeme}
    (h : ∀ i ≤ ((l :: ls).flatMap Lexeme.text).length, move (n + i) = m + i) :
    ∀ i ≤ (ls.flatMap Lexeme.text).length,
      move (n + l.text.length + i) = m + l.text.length + i := by
  intro i hi
  rw [Nat.add_assoc, Nat.add_assoc]
  exact h _ (by rw [List.flatMap_cons, List.length_append]; omega)

theorem tokensFrom_moved (move : Nat → Nat)
    (h : ∀ i ≤ (ls.flatMap Lexeme.text).length, move (n + i) = m + i) :
    tokensFrom m ls = (tokensFrom n ls).map (·.moved move) := by
  induction ls generalizing n m with
  | nil => rfl
  | cons l ls ih =>
    have hrest := ih (moves_behind h)
    cases l with
    | plain c =>
      have hstart : move n = m := h 0 (Nat.zero_le _)
      have hrest : tokensFrom (m + 1) ls = (tokensFrom (n + 1) ls).map (·.moved move) := hrest
      rw [tokensFrom, tokensFrom, hrest]
      split <;> simp [Token.moved, hstart]
    | masked u => exact hrest

theorem masksFrom_moved (move : Nat → Nat)
    (h : ∀ i ≤ (ls.flatMap Lexeme.text).length, move (n + i) = m + i) :
    masksFrom m ls = (masksFrom n ls).map (·.moved move) := by
  induction ls generalizing n m with
  | nil => rfl
  | cons l ls ih =>
    have hrest := ih (moves_behind h)
    cases l with
    | plain c => exact hrest
    | masked u =>
      have hstart : move n = m := h 0 (Nat.zero_le _)
      have hstop : move (n + u.length) = m + u.length := moves_behind h 0 (Nat.zero_le _)
      have hrest : masksFrom (m + u.length) ls = (masksFrom (n + u.length) ls).map (·.moved move) :=
        hrest
      rw [masksFrom, masksFrom, hrest, List.map_cons, Span.moved, hstart, hstop]

end

theorem lt_of_mem_tokensFrom {n : Nat} {ls : List Lexeme} {t : Token} (h : t ∈ tokensFrom n ls) :
    t.offset < n + (ls.flatMap Lexeme.text).length := by
  obtain ⟨ls₁, ls₂, rfl, hoffset, -⟩ := exists_of_mem_tokensFrom h
  simp only [List.flatMap_append, List.flatMap_cons, Lexeme.text, List.length_append,
    List.length_singleton]
  omega

theorem filter_tokensFrom {n k : Nat} {ls : List Lexeme}
    (hk : n + (ls.flatMap Lexeme.text).length = k) (ls' : List Lexeme) :
    (tokensFrom n (ls ++ ls')).filter (·.offset < k) = tokensFrom n ls ∧
      (tokensFrom n (ls ++ ls')).filter (k ≤ ·.offset) = tokensFrom k ls' := by
  have hlt : ∀ t ∈ tokensFrom n ls, t.offset < k := fun t ht => hk ▸ lt_of_mem_tokensFrom ht
  have hle : ∀ t ∈ tokensFrom k ls', k ≤ t.offset := fun t ht => le_of_mem_tokensFrom ht
  rw [tokensFrom_append, hk, List.filter_append, List.filter_append]
  constructor
  · rw [List.filter_eq_self.mpr fun t ht => decide_eq_true (hlt t ht),
      List.filter_eq_nil_iff.mpr fun t ht => by simpa using hle t ht, List.append_nil]
  · rw [List.filter_eq_nil_iff.mpr fun t ht => by simpa using hlt t ht,
      List.filter_eq_self.mpr fun t ht => decide_eq_true (hle t ht), List.nil_append]

theorem tokensFrom_exchange (lsp lsm lsm₂ lsq : List Lexeme) {p m m₂ : Nat}
    (hp : (lsp.flatMap Lexeme.text).length = p) (hm : (lsm.flatMap Lexeme.text).length = m)
    (hm₂ : (lsm₂.flatMap Lexeme.text).length = m₂) :
    tokensFrom 0 (lsp ++ (lsm₂ ++ lsq)) =
      (tokensFrom 0 (lsp ++ (lsm ++ lsq))).filter (·.offset < p) ++
        (tokensFrom 0 lsm₂).map (fun t => { t with offset := t.offset + p }) ++
        ((tokensFrom 0 (lsp ++ (lsm ++ lsq))).filter (p + m ≤ ·.offset)).map
          (fun t => { t with offset := t.offset + m₂ - m }) := by
  have hbefore := (filter_tokensFrom ((Nat.zero_add _).trans hp) (lsm ++ lsq)).1
  have hbehind : 0 + ((lsp ++ lsm).flatMap Lexeme.text).length = p + m := by
    rw [Nat.zero_add, List.flatMap_append, List.length_append, hp, hm]
  have hafter := (filter_tokensFrom hbehind lsq).2
  rw [List.append_assoc] at hafter
  have hmiddle : tokensFrom p lsm₂ = (tokensFrom 0 lsm₂).map fun t =>
      { t with offset := t.offset + p } :=
    tokensFrom_moved (· + p) fun i _ => by omega
  have hmoved : tokensFrom (p + m₂) lsq =
      (tokensFrom (p + m) lsq).map fun t => { t with offset := t.offset + m₂ - m } :=
    tokensFrom_moved (· + m₂ - m) fun i _ => by omega
  rw [hbefore, hafter, tokensFrom_append, tokensFrom_append, hp, hm₂, Nat.zero_add, hmiddle, hmoved,
    List.append_assoc]

/-- A part that can be scanned can take the place of another between whole lines. The tokens before
it stay, those after it move with the end of the part, and between them are those of the new
part. -/
theorem scan_exchange {p m m₂ q : Text} {d dm dm₂ : Document} (hp : ∀ c ∈ p.getLast?, c = '\n')
    (hq : Breaks q) (hd : scan (p ++ m ++ q) = .ok d)
    (hmasks : ∀ s ∈ d.masks.toList, ¬(s.start < p.length ∧ p.length < s.stop))
    (hm : scan m = .ok dm) (hm₂ : scan m₂ = .ok dm₂) :
    ∃ d', scan (p ++ m₂ ++ q) = .ok d' ∧
      d'.tokens.toList = d.tokens.toList.filter (·.offset < p.length) ++
        dm₂.tokens.toList.map (fun t => { t with offset := t.offset + p.length }) ++
        (d.tokens.toList.filter (p.length + m.length ≤ ·.offset)).map
          (fun t => { t with offset := t.offset + m₂.length - m.length }) := by
  obtain ⟨ls, hlexes, hnest, htokens, -, -⟩ := lexes_of_scan hd
  obtain ⟨lsm, hlexesm, hnestm, -, -, -⟩ := lexes_of_scan hm
  obtain ⟨lsm₂, hlexesm₂, hnestm₂, htokensm₂, -, -⟩ := lexes_of_scan hm₂
  -- The source is cut at both ends of the part that goes.
  have hword : ∀ c ∈ p.getLast?, Text.isWord c = false := by
    intro c hc
    rw [hp c hc]
    decide
  have hmid : midWord (lastOr none p) = false := midWord_lastOr rfl hword
  have hcut : Cut (p ++ (m ++ q)) ls p.length := by
    have hcut := cut_of_masks hd (n := p.length) (by simp) hmasks (by simpa using hword)
    rwa [hlexes.read_eq, List.append_assoc] at hcut
  obtain ⟨-, lsp, lsr, rfl, hlexesp, hlexesr⟩ := hcut
  rw [List.take_left, List.drop_left] at hlexesp
  rw [List.drop_left] at hlexesr
  obtain ⟨lsq, rfl, hlexesq⟩ := hlexesr.of_append_breaks hlexesm hq
  -- Put together with the new part in between, they make up a reading again.
  have hnew : Lexes none (p ++ (m₂ ++ q)) (lsp ++ (lsm₂ ++ lsq)) [] := by
    have hfirst := hlexesp.exchange_of_newline hp (m₂ ++ q ++ [])
    have hsecond : Lexes (lastOr none p) m₂ lsm₂ (q ++ []) :=
      (hlexesm₂.exchange (Or.inl (by rwa [List.append_nil]))).restart hmid.symm
    exact hfirst.append (hsecond.append (hlexesq.restart_of_breaks hq _))
  have hnestnew : nest [] (shape (lsp ++ (lsm₂ ++ lsq))) = some [] := by
    simp only [shape_append, nest_append _ (shape lsp), nest_balanced_append hnestm] at hnest
    simpa only [shape_append, nest_append _ (shape lsp), nest_balanced_append hnestm₂] using hnest
  obtain ⟨d', hd', htokens', -⟩ := scan_of_lexes hnew hnestnew
  refine ⟨d', by rwa [List.append_assoc], ?_⟩
  rw [htokens, htokens', htokensm₂]
  exact tokensFrom_exchange lsp lsm lsm₂ lsq (congrArg List.length hlexesp.text_eq)
    (congrArg List.length hlexesm.text_eq) (congrArg List.length hlexesm₂.text_eq)

/-- A line of a block whose brace is closed after it, with a closing brace in the comment of the new
line. -/
theorem scan_exchange_line :
    ∃ d', scan ("mod a \x7b // (\n".toList ++ "g(\")\"); // \x7d".toList ++ "\n\x7d".toList) =
      .ok d' ∧
      d'.tokens.toList = [⟨'\x7b', 6⟩, ⟨'(', 14⟩, ⟨')', 18⟩, ⟨';', 19⟩, ⟨'\x7d', 26⟩] := by
  have hfound :
      (scan ("mod a \x7b // (\n".toList ++ "f(x);".toList ++ "\n\x7d".toList)).toOption.map
      (fun d => (d.masks.toList, d.tokens.toList)) =
        some ([⟨8, 12⟩], [⟨'\x7b', 6⟩, ⟨'(', 14⟩, ⟨')', 16⟩, ⟨';', 17⟩, ⟨'\x7d', 19⟩]) := by
    decide +kernel
  have hold : ((scan "f(x);".toList).toOption.map (·.tokens.toList)) =
      some [⟨'(', 1⟩, ⟨')', 3⟩, ⟨';', 4⟩] := by
    decide +kernel
  have hnew : ((scan "g(\")\"); // \x7d".toList).toOption.map (·.tokens.toList)) =
      some [⟨'(', 1⟩, ⟨')', 5⟩, ⟨';', 6⟩] := by
    decide +kernel
  obtain ⟨d, hd, heq⟩ := Option.map_eq_some_iff.mp hfound
  obtain ⟨hmasks, htokens⟩ := Prod.mk.inj heq
  obtain ⟨dm, hdm, -⟩ := Option.map_eq_some_iff.mp hold
  obtain ⟨dm₂, hdm₂, htokens₂⟩ := Option.map_eq_some_iff.mp hnew
  obtain ⟨d', hd', heq'⟩ := scan_exchange (by simp) (by simp [Breaks]) (scan_of_toOption hd)
    (by rw [hmasks]; decide) (scan_of_toOption hdm) (scan_of_toOption hdm₂)
  refine ⟨d', hd', ?_⟩
  rw [heq', htokens, htokens₂]
  decide

end Document

end Graft.Item
