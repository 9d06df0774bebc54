import Graft.Item.Lexeme
import Mathlib.Data.List.Infix
import Mathlib.Data.List.TakeWhile

set_option autoImplicit false

/-!
Reading lexemes is local. A comment or literal that has its end is known by its own text, whatever
follows; only a comment up to the end of its line needs the line to end there. A character that
stands for itself does so because of what follows, but only a few texts can be undone by it: those
that end in a sign that could go on, and those with a quote still waiting for its literal to end.
-/

namespace Graft

namespace Text

theorem find_eq_some_iff {needle t : Text} {n : Nat} :
    find? needle t = some n ↔
      needle <+: t.drop n ∧ n ≤ t.length ∧ ∀ m, m < n → ¬needle <+: t.drop m := by
  induction t generalizing n with
  | nil => cases needle <;> cases n <;> simp [find?]
  | cons c cs ih =>
    by_cases hzero : needle <+: c :: cs
    · rw [find?, if_pos (List.isPrefixOf_iff_prefix.mpr hzero)]
      cases n with
      | zero => simp [hzero]
      | succ n => exact iff_of_false (by simp) fun h => h.2.2 0 (Nat.zero_lt_succ n) hzero
    · rw [find?, if_neg (mt List.isPrefixOf_iff_prefix.mp hzero)]
      cases n with
      | zero => simp [hzero]
      | succ n =>
        simp only [Option.map_eq_some_iff, Nat.add_right_cancel_iff, exists_eq_right, ih,
          Nat.forall_lt_succ_left, List.drop_zero, List.drop_succ_cons, List.length_cons,
          Nat.add_le_add_iff_right, hzero, not_false_eq_true, true_and]

theorem find_append_iff (needle u r : Text) :
    find? needle (u ++ needle ++ r) = some u.length ↔ ∀ m < u.length,
      ¬needle <+: (u ++ needle).drop m := by
  have hsame : ∀ m < u.length, needle <+: (u ++ needle ++ r).drop m ↔
      needle <+: (u ++ needle).drop m := by
    intro m hm
    have hle : needle.length ≤ ((u ++ needle).drop m).length := by simp; omega
    rw [List.drop_append_of_le_length (by simp; omega)]
    exact ⟨fun h => List.prefix_of_prefix_length_le h (List.prefix_append _ _) hle,
      (·.trans (List.prefix_append _ _))⟩
  have hhere : needle <+: (u ++ needle ++ r).drop u.length := by simp
  have hle : u.length ≤ (u ++ needle ++ r).length := by simp
  simp +contextual only [find_eq_some_iff, hhere, hle, hsame, true_and]

end Text

namespace Item.Lexeme

variable {c : Char} {f : Text → Option Text} {body cs r t u v w y z : Text} {depth marks : Nat}
  {prev : Option Char}

def isClosing (c : Char) : Bool := c == '/' || c == '"' || c == '#' || c == '\''

theorem ne_of_isBlank {e : Char} (hc : Text.isBlank c) (he : Text.isBlank e = false) : c ≠ e := by
  rintro rfl
  rw [hc] at he
  contradiction

theorem isClosing_of_isBlank (hc : Text.isBlank c) : isClosing c = false := by
  simp [isClosing, ne_of_isBlank hc (e := '/') rfl,
    ne_of_isBlank hc (e := '"') rfl,
    ne_of_isBlank hc (e := '#') rfl,
    ne_of_isBlank hc (e := '\'') rfl]

/-- `f` takes `u` from the front of a text, whatever follows. -/
structure Takes (f : Text → Option Text) (u : Text) : Prop where
  rest : ∀ r, f (u ++ r) = some r
  closing : ∃ v c, u = v ++ [c] ∧ isClosing c

theorem Takes.ne_nil (h : Takes f u) : u ≠ [] := by
  obtain ⟨v, c, rfl, -⟩ := h.closing
  simp

theorem Takes.closing_append (h : Takes f u) (w : Text) :
    ∃ v c, w ++ u = v ++ [c] ∧ isClosing c := by
  obtain ⟨v, c, rfl, hc⟩ := h.closing
  exact ⟨w ++ v, c, by simp, hc⟩

theorem head_append_of_ne_nil (hu : u ≠ []) (r r' : Text) : (u ++ r).head? = (u ++ r').head? := by
  cases u with
  | nil => exact absurd rfl hu
  | cons c u => rfl

theorem afterComment_skip (hopen : ¬(c = '/' ∧ t.head? = some '*'))
    (hclose : ¬(c = '*' ∧ t.head? = some '/')) :
    afterComment? depth (c :: t) = afterComment? depth t := by
  refine afterComment?.eq_4 depth c t ?_ ?_ ?_
  · rintro rest rfl rfl
    exact hopen ⟨rfl, rfl⟩
  · rintro rest rfl rfl rfl
    exact hclose ⟨rfl, rfl⟩
  · rintro depth rest rfl rfl rfl
    exact hclose ⟨rfl, rfl⟩

theorem afterComment_cons (hopen : ∀ rest, c = '/' → t = '*' :: rest → False)
    (hclose : ∀ rest, depth = 0 → c = '*' → t = '/' :: rest → False)
    (hclose' : ∀ n rest, depth = Nat.succ n → c = '*' → t = '/' :: rest → False)
    (hhead : u.head? = t.head?) :
    afterComment? depth (c :: u) = afterComment? depth u := by
  apply afterComment_skip <;> rw [hhead]
  · rintro ⟨rfl, hstar⟩
    obtain ⟨rest, hrest⟩ := List.head?_eq_some_iff.mp hstar
    exact hopen rest rfl hrest
  · rintro ⟨rfl, hslash⟩
    obtain ⟨rest, hrest⟩ := List.head?_eq_some_iff.mp hslash
    cases depth with
    | zero => exact hclose rest rfl rfl hrest
    | succ depth => exact hclose' depth rest rfl rfl hrest

theorem afterComment_takes (h : afterComment? depth t = some r) :
    ∃ u, t = u ++ r ∧ Takes (afterComment? depth) u := by
  fun_induction afterComment? depth t with
  | case1 depth rest ih =>
    obtain ⟨u, rfl, hu⟩ := ih h
    exact ⟨'/' :: '*' :: u, rfl, fun r' => hu.rest r', hu.closing_append ['/', '*']⟩
  | case2 rest =>
    obtain rfl := Option.some.inj h
    exact ⟨['*', '/'], rfl, fun r' => by simp [afterComment?], ['*'], '/', rfl, rfl⟩
  | case3 depth rest ih =>
    obtain ⟨u, rfl, hu⟩ := ih h
    exact ⟨'*' :: '/' :: u, rfl, fun r' => by simpa [afterComment?] using hu.rest r',
      hu.closing_append ['*', '/']⟩
  | case4 depth c rest hopen hclose₀ hclose₁ ih =>
    obtain ⟨u, rfl, hu⟩ := ih h
    refine ⟨c :: u, rfl, fun r' => ?_, hu.closing_append [c]⟩
    rw [List.cons_append,
      afterComment_cons hopen hclose₀ hclose₁ (head_append_of_ne_nil hu.ne_nil r' r), hu.rest]
  | case5 => contradiction

theorem afterString_takes (h : afterString? t = some r) :
    ∃ u, t = u ++ r ∧ Takes afterString? u := by
  fun_induction afterString? t with
  | case1 rest =>
    obtain rfl := Option.some.inj h
    exact ⟨['"'], rfl, fun r' => by simp [afterString?], [], '"', rfl, rfl⟩
  | case2 c rest ih =>
    obtain ⟨u, rfl, hu⟩ := ih h
    exact ⟨'\\' :: c :: u, rfl, fun r' => by simpa [afterString?] using hu.rest r',
      hu.closing_append ['\\', c]⟩
  | case3 => contradiction
  | case4 c rest hquote hescape hend ih =>
    obtain ⟨u, rfl, hu⟩ := ih h
    refine ⟨c :: u, rfl, ?_, hu.closing_append [c]⟩
    intro r'
    have hbackslash : c ≠ '\\' := by
      rintro rfl
      cases u with
      | nil => exact hu.ne_nil rfl
      | cons e u => exact hescape e (u ++ r) rfl rfl
    rw [List.cons_append, afterString?.eq_def]
    simp [hbackslash, hu.rest]
  | case5 => contradiction

def rawEnd (marks : Nat) : Text := '"' :: List.replicate marks '#'

theorem rawEnd_closing (marks : Nat) : ∃ v c, rawEnd marks = v ++ [c] ∧ isClosing c := by
  cases marks with
  | zero => exact ⟨[], '"', rfl, rfl⟩
  | succ marks =>
    exact ⟨'"' :: List.replicate marks '#', '#', by simp [rawEnd, List.replicate_succ'], rfl⟩

theorem afterRaw_eq (marks : Nat) (body : Text) :
    afterRaw? marks body =
      (Text.find? (rawEnd marks) body).map fun n => body.drop (n + (rawEnd marks).length) :=
  rfl

theorem afterRaw_takes (h : afterRaw? marks t = some r) :
    ∃ u, t = u ++ r ∧ Takes (afterRaw? marks) u := by
  rw [afterRaw_eq] at h
  obtain ⟨n, hfind, rfl⟩ := Option.map_eq_some_iff.mp h
  obtain ⟨⟨tail, htail⟩, hle, -⟩ := Text.find_eq_some_iff.mp hfind
  obtain ⟨v, rfl, rfl⟩ : ∃ v, v.length = n ∧ t = v ++ rawEnd marks ++ tail :=
    ⟨t.take n, List.length_take_of_le hle, by rw [List.append_assoc, htail, List.take_append_drop]⟩
  have hdrop : ∀ r, (v ++ rawEnd marks ++ r).drop (v.length + (rawEnd marks).length) =
      r := fun r => by
    rw [← List.length_append, List.drop_left]
  refine ⟨v ++ rawEnd marks, by rw [hdrop], fun r => ?_, ?_⟩
  · have hfirst := (Text.find_append_iff _ v r).mpr ((Text.find_append_iff _ v tail).mp hfind)
    rw [afterRaw_eq, hfirst, Option.map_some, hdrop]
  · obtain ⟨w, c, hw, hc⟩ := rawEnd_closing marks
    exact ⟨v ++ w, c, by rw [hw, List.append_assoc], hc⟩

inductive CharTail : Text → Prop
  | plain (c : Char) : c ≠ '\\' → c ≠ '\'' → c ≠ '\n' → CharTail [c, '\'']
  | escape (c : Char) : c ≠ '\n' → CharTail ['\\', c, '\'']
  | byte (a b : Char) : Text.isHexDigit a → Text.isHexDigit b → CharTail ['\\', 'x', a, b, '\'']
  | code (ds : Text) : (∀ a ∈ ds, Text.isHexDigit a) → 1 ≤ ds.length → ds.length ≤ 6 →
    CharTail ('\\' :: 'u' :: '\x7b' :: ds ++ ['\x7d', '\''])

theorem bracedCode_spec {n : Nat} :
    bracedCode? t = some n ↔
      ∃ ds r, (∀ a ∈ ds, Text.isHexDigit a) ∧ 1 ≤ ds.length ∧ ds.length ≤ 6 ∧
        t = '\x7b' :: ds ++ '\x7d' :: r ∧ n = ds.length + 2 := by
  constructor
  · intro h
    unfold bracedCode? at h
    split at h
    · rename_i rest
      simp only [Option.ite_none_right_eq_some, Bool.and_eq_true, decide_eq_true_eq, beq_iff_eq,
        Option.some.injEq] at h
      obtain ⟨⟨⟨hlo, hhi⟩, hhead⟩, rfl⟩ := h
      obtain ⟨r, hr⟩ := List.head?_eq_some_iff.mp hhead
      refine ⟨rest.takeWhile Text.isHexDigit, r, fun a ha => List.mem_takeWhile_imp ha, hlo,
        hhi, ?_, rfl⟩
      have hsplit := List.prefix_append_drop (List.takeWhile_prefix Text.isHexDigit (l := rest))
      rw [hr] at hsplit
      rw [List.cons_append, ← hsplit]
    · contradiction
  · rintro ⟨ds, r, hds, hlo, hhi, rfl, rfl⟩
    have htake : (ds ++ '\x7d' :: r).takeWhile Text.isHexDigit = ds := by
      rw [List.takeWhile_append_of_pos hds, List.takeWhile_cons_of_neg (by decide), List.append_nil]
    simp [bracedCode?, htake, hlo, hhi]

theorem exists_charTail (h : afterChar? t = some r) : ∃ u, CharTail u ∧ t = u ++ r := by
  simp only [afterChar?] at h
  split at h
  · rename_i a b rest
    split at h
    · rename_i hhex
      simp only [Bool.and_eq_true] at hhex
      obtain rfl := Option.some.inj h
      exact ⟨_, .byte a b hhex.1 hhex.2, rfl⟩
    · split at h
      · rename_i heq
        simp only [List.cons.injEq] at heq
        obtain ⟨rfl, rfl⟩ := heq
        obtain rfl := Option.some.inj h
        exact ⟨_, .escape 'x' (by decide), rfl⟩
      · contradiction
  · rename_i rest
    split at h
    · rename_i r' hcode
      obtain rfl := Option.some.inj h
      obtain ⟨n, hn, hclosed⟩ := Option.bind_eq_some_iff.mp hcode
      obtain ⟨ds, rest', hds, hlo, hhi, rfl, rfl⟩ := bracedCode_spec.mp hn
      have hdrop : ('\x7b' :: ds ++ '\x7d' :: rest').drop (ds.length + 2) = rest' := by
        simp [List.drop_append]
      rw [hdrop] at hclosed
      split at hclosed
      · obtain rfl := Option.some.inj hclosed
        exact ⟨_, .code ds hds hlo hhi, by simp⟩
      · contradiction
    · split at h
      · obtain rfl := Option.some.inj h
        exact ⟨_, .escape 'u' (by decide), rfl⟩
      · contradiction
  · rename_i c rest _ _
    split at h
    · contradiction
    · rename_i hc
      split at h
      · obtain rfl := Option.some.inj h
        exact ⟨_, .escape c (by simpa using hc), rfl⟩
      · contradiction
  · rename_i c rest _ _ _
    split at h
    · contradiction
    · rename_i hc
      simp only [Bool.or_eq_true, beq_iff_eq, not_or] at hc
      split at h
      · obtain rfl := Option.some.inj h
        exact ⟨_, .plain c hc.1.1 hc.1.2 hc.2, rfl⟩
      · contradiction
  · contradiction

theorem afterChar_append (hu : CharTail u) (r : Text) : afterChar? (u ++ r) = some r := by
  cases hu with
  | plain c h₁ h₂ h₃ => simp [afterChar?, h₁, h₂, h₃]
  | escape c hc =>
    simp only [List.cons_append, List.nil_append, afterChar?]
    split
    · rename_i a b rest heq
      simp only [List.cons.injEq, true_and] at heq
      obtain ⟨-, rfl, rfl⟩ := heq
      have hquote : Text.isHexDigit '\'' = false := by decide
      simp [hquote]
    · rename_i rest _ heq
      simp only [List.cons.injEq, true_and] at heq
      obtain ⟨-, rfl⟩ := heq
      simp [bracedCode?]
    · rename_i c' rest _ _ heq
      simp only [List.cons.injEq, true_and] at heq
      obtain ⟨rfl, rfl⟩ := heq
      simp [hc]
    · rename_i c' rest _ _ hesc heq
      simp only [List.cons.injEq] at heq
      exact absurd heq.2.symm (hesc _ _ heq.1.symm)
    · contradiction
  | byte a b ha hb => simp [afterChar?, ha, hb]
  | code ds hds hlo hhi =>
    have hcode : bracedCode? ('\x7b' :: ds ++ '\x7d' :: '\'' :: r) = some (ds.length + 2) :=
      bracedCode_spec.mpr ⟨ds, '\'' :: r, hds, hlo, hhi, rfl, rfl⟩
    have hdrop : ('\x7b' :: ds ++ '\x7d' :: '\'' :: r).drop (ds.length + 2) = '\'' :: r := by
      simp [List.drop_append]
    have htext : '\\' :: 'u' :: '\x7b' :: ds ++ ['\x7d', '\''] ++ r =
        '\\' :: 'u' :: ('\x7b' :: ds ++ '\x7d' :: '\'' :: r) := by simp
    rw [htext]
    simp only [afterChar?]
    rw [hcode, Option.bind_some, hdrop]
    rfl

theorem afterChar_eq_some_iff : afterChar? t = some r ↔ ∃ u, CharTail u ∧ t = u ++ r := by
  constructor
  · exact exists_charTail
  · rintro ⟨u, hu, rfl⟩
    exact afterChar_append hu r

theorem CharTail.newline_not_mem (hu : CharTail u) : '\n' ∉ u := by
  have hhex : ∀ {c : Char}, Text.isHexDigit c → '\n' ≠ c := by
    rintro c hc rfl
    revert hc
    decide
  cases hu with
  | plain c h₁ h₂ h₃ => simp [Ne.symm h₃]
  | escape c hc => simp [Ne.symm hc]
  | byte a b ha hb => simp [hhex ha, hhex hb]
  | code ds hds hlo hhi =>
    have hnot : '\n' ∉ ds := fun hmem => hhex (hds _ hmem) rfl
    simp [hnot]

theorem CharTail.eq_concat (hu : CharTail u) : ∃ v, u = v ++ ['\''] := by
  cases hu with
  | plain c => exact ⟨[c], rfl⟩
  | escape c => exact ⟨['\\', c], rfl⟩
  | byte a b => exact ⟨['\\', 'x', a, b], rfl⟩
  | code ds => exact ⟨'\\' :: 'u' :: '\x7b' :: ds ++ ['\x7d'], by simp⟩

theorem afterChar_takes (h : afterChar? t = some r) : ∃ u, t = u ++ r ∧ Takes afterChar? u := by
  obtain ⟨u, hu, rfl⟩ := afterChar_eq_some_iff.mp h
  obtain ⟨v, hv⟩ := hu.eq_concat
  exact ⟨u, rfl, fun r' => afterChar_eq_some_iff.mpr ⟨u, hu, rfl⟩, v, '\'', hv, rfl⟩

inductive RawOpening (marks : Nat) : Text → Prop
  | plain : RawOpening marks ('r' :: List.replicate marks '#' ++ ['"'])
  | byte : RawOpening marks ('b' :: 'r' :: List.replicate marks '#' ++ ['"'])

theorem eq_replicate_append {rest : Text}
    (h : rest.drop (rest.takeWhile (· == '#')).length = '"' :: body) :
    rest = List.replicate (rest.takeWhile (· == '#')).length '#' ++ '"' :: body := by
  have hall : ∀ c ∈ rest.takeWhile (· == '#'), c = '#' :=
    fun c hc => by simpa using List.mem_takeWhile_imp hc
  rw [← List.eq_replicate_length.mpr hall, ← h]
  exact List.prefix_append_drop (List.takeWhile_prefix _)

theorem rawOpening_eq_some_iff :
    rawOpening? t = some (marks, body) ↔ ∃ u, RawOpening marks u ∧ t = u ++ body := by
  constructor
  · intro h
    simp only [rawOpening?] at h
    split at h
    · rename_i rest heq
      split at h
      · rename_i body' hbody
        obtain ⟨rfl, rfl⟩ := Prod.mk.inj (Option.some.inj h)
        have hrest := eq_replicate_append hbody
        split at heq
        · exact ⟨_, .byte, by simp [heq, ← hrest]⟩
        · exact ⟨_, .plain, by simp [heq, ← hrest]⟩
      · contradiction
    · contradiction
  · rintro ⟨u, hu, rfl⟩
    cases hu with
    | plain => simp [rawOpening?]
    | byte => simp [rawOpening?]

def Breaks (t : Text) : Prop := ∀ c ∈ t.head?, c = '\n'

def IsLineComment (u : Text) : Prop := ∃ v, u = '/' :: '/' :: v ∧ '\n' ∉ v

theorem IsLineComment.ne_nil (h : IsLineComment u) : u ≠ [] := by
  obtain ⟨v, rfl, -⟩ := h
  simp

theorem IsLineComment.last_ne_newline {x₀ x : Text} (h : IsLineComment u)
    (heq : x ++ [c] = x₀ ++ u) :
    c ≠ '\n' := by
  obtain ⟨v, rfl, hv⟩ := h
  rintro rfl
  have hmem : '\n' ∈ ('/' :: '/' :: v : Text).getLast? := by
    rw [← List.getLast?_append_of_ne_nil x₀ (by simp), ← heq, List.getLast?_concat]
    rfl
  have := List.mem_of_getLast? hmem
  simp [hv] at this

/-- A comment or literal that is masked whatever follows. -/
structure Masks (prev : Option Char) (u : Text) : Prop where
  rest : ∀ r, afterMask prev (u ++ r) = .ok (some r)
  closing : ∃ v c, u = v ++ [c] ∧ isClosing c

theorem Masks.ne_nil (h : Masks prev u) : u ≠ [] := by
  obtain ⟨v, c, rfl, -⟩ := h.closing
  simp

def afterLetter (t : Text) : Except Cause (Option Text) :=
  match rawOpening? t with
  | some (marks, body) =>
    match afterRaw? marks body with
    | some r => .ok (some r)
    | none => .error .openRawString
  | none =>
    match t with
    | 'b' :: '\'' :: rest => .ok (afterChar? rest)
    | _ => .ok none

/-- The first one or two characters of a comment or literal, and all others. -/
inductive Front : Char → Text → Prop
  | string (cs : Text) : Front '"' cs
  | quote (cs : Text) : Front '\'' cs
  | line (rest : Text) : Front '/' ('/' :: rest)
  | block (rest : Text) : Front '/' ('*' :: rest)
  | other {c : Char} {cs : Text} : c ≠ '"' → c ≠ '\'' → ¬(c = '/' ∧ cs.head? = some '/') →
    ¬(c = '/' ∧ cs.head? = some '*') → Front c cs

theorem front (c : Char) (cs : Text) : Front c cs := by
  by_cases hstring : c = '"'
  · exact hstring ▸ .string cs
  by_cases hquote : c = '\''
  · exact hquote ▸ .quote cs
  by_cases hline : c = '/' ∧ cs.head? = some '/'
  · obtain ⟨rfl, hhead⟩ := hline
    obtain ⟨rest, rfl⟩ := List.head?_eq_some_iff.mp hhead
    exact .line rest
  by_cases hblock : c = '/' ∧ cs.head? = some '*'
  · obtain ⟨rfl, hhead⟩ := hblock
    obtain ⟨rest, rfl⟩ := List.head?_eq_some_iff.mp hhead
    exact .block rest
  exact .other hstring hquote hline hblock

theorem afterMask_other (prev : Option Char) (hstring : c ≠ '"') (hquote : c ≠ '\'')
    (hline : ¬(c = '/' ∧ cs.head? = some '/')) (hblock : ¬(c = '/' ∧ cs.head? = some '*')) :
    afterMask prev (c :: cs) =
      if (prev.map Text.isWord).getD false then .ok none else afterLetter (c :: cs) := by
  rw [afterMask.eq_def]
  split
  · next heq => exact absurd ⟨(List.cons.inj heq).1, by simp [(List.cons.inj heq).2]⟩ hline
  · next heq => exact absurd ⟨(List.cons.inj heq).1, by simp [(List.cons.inj heq).2]⟩ hblock
  · next heq => exact absurd (List.cons.inj heq).1 hstring
  · next heq => exact absurd (List.cons.inj heq).1 hquote
  · simp only [Bool.not_not]
    rfl

theorem afterLetter_of_head (hr : c ≠ 'r') (hb : c ≠ 'b') : afterLetter (c :: cs) = .ok none := by
  have hraw : rawOpening? (c :: cs) = none := by
    simp [rawOpening?, hr, hb]
  simp [afterLetter, hraw, hb]

theorem afterLetter_takes (h : afterLetter t = .ok (some r)) :
    ∃ c cs, (c = 'r' ∨ c = 'b') ∧ t = c :: cs ++ r ∧
      (∀ r', afterLetter (c :: cs ++ r') = .ok (some r')) ∧
        ∃ v e, c :: cs = v ++ [e] ∧ isClosing e := by
  unfold afterLetter at h
  split at h
  · rename_i marks body hraw
    split at h
    · rename_i r' hr
      simp only [Except.ok.injEq, Option.some.injEq] at h
      subst h
      obtain ⟨o, ho, rfl⟩ := rawOpening_eq_some_iff.mp hraw
      obtain ⟨u, rfl, hu⟩ := afterRaw_takes hr
      have hrest : ∀ r, afterLetter (o ++ u ++ r) = .ok (some r) := by
        intro r
        have hopen : rawOpening? (o ++ (u ++ r)) = some (marks, u ++ r) :=
          rawOpening_eq_some_iff.mpr ⟨o, ho, rfl⟩
        simp [afterLetter, hopen, hu.rest]
      have hclosing := hu.closing_append o
      cases ho with
      | plain => exact ⟨'r', _, Or.inl rfl, (List.append_assoc ..).symm, hrest, hclosing⟩
      | byte => exact ⟨'b', _, Or.inr rfl, (List.append_assoc ..).symm, hrest, hclosing⟩
    · contradiction
  · split at h
    · rename_i rest hraw
      simp only [Except.ok.injEq] at h
      obtain ⟨u, rfl, hu⟩ := afterChar_takes h
      refine ⟨'b', '\'' :: u, Or.inr rfl, rfl, ?_, hu.closing_append ['b', '\'']⟩
      intro r'
      simp [afterLetter, rawOpening?, hu.rest]
    · simp at h

theorem masks_of_letter (hprev : (prev.map Text.isWord).getD false = false) (hc : c = 'r' ∨ c = 'b')
    (hrest : ∀ r, afterLetter (c :: cs ++ r) = .ok (some r))
    (hclosing : ∃ v e, c :: cs = v ++ [e] ∧ isClosing e) : Masks prev (c :: cs) where
  rest r := by
    have hslash : c ≠ '/' := by rcases hc with rfl | rfl <;> decide
    rw [List.cons_append, afterMask_other prev (by rcases hc with rfl | rfl <;> decide)
      (by rcases hc with rfl | rfl <;> decide) (fun h => hslash h.1) (fun h => hslash h.1), hprev]
    exact hrest r
  closing := hclosing

/-- What is masked: a comment up to the end of its line, or something with an end of its own. -/
theorem afterMask_eq_some_iff :
    afterMask prev t = .ok (some r) ↔
      ∃ u, t = u ++ r ∧ ((IsLineComment u ∧ Breaks r) ∨ Masks prev u) := by
  constructor
  · intro h
    cases t with
    | nil => simp [afterMask, rawOpening?] at h
    | cons c cs =>
      cases front c cs with
      | string =>
        simp only [afterMask] at h
        split at h
        · rename_i r' hr
          simp only [Except.ok.injEq, Option.some.injEq] at h
          subst h
          obtain ⟨u, rfl, hu⟩ := afterString_takes hr
          refine ⟨'"' :: u, rfl, Or.inr ⟨fun r' => ?_, hu.closing_append ['"']⟩⟩
          simp [afterMask, hu.rest]
        · contradiction
      | quote =>
        simp only [afterMask, Except.ok.injEq] at h
        obtain ⟨u, rfl, hu⟩ := afterChar_takes h
        refine ⟨'\'' :: u, rfl, Or.inr ⟨fun r' => ?_, hu.closing_append ['\'']⟩⟩
        simp [afterMask, hu.rest]
      | line rest =>
        simp only [afterMask, Except.ok.injEq, Option.some.injEq] at h
        refine ⟨'/' :: '/' :: rest.takeWhile (· != '\n'), ?_, Or.inl ⟨⟨_, rfl, ?_⟩, ?_⟩⟩
        · rw [← h, List.cons_append, List.cons_append, List.takeWhile_append_dropWhile]
        · intro hmem
          simpa using List.mem_takeWhile_imp hmem
        · rw [← h]
          intro e he
          have := List.head?_dropWhile_not (· != '\n') rest
          simp_all
      | block rest =>
        simp only [afterMask] at h
        split at h
        · rename_i r' hr
          simp only [Except.ok.injEq, Option.some.injEq] at h
          subst h
          obtain ⟨u, rfl, hu⟩ := afterComment_takes hr
          refine ⟨'/' :: '*' :: u, rfl, Or.inr ⟨fun r' => ?_, hu.closing_append ['/', '*']⟩⟩
          simp [afterMask, hu.rest]
        · contradiction
      | other hstring hquote hline hblock =>
        rw [afterMask_other prev hstring hquote hline hblock] at h
        split at h
        · simp at h
        · rename_i hprev
          obtain ⟨e, es, he, heq, hrest, hclosing⟩ := afterLetter_takes h
          exact ⟨e :: es, heq, Or.inr (masks_of_letter (by simpa using hprev) he hrest hclosing)⟩
  · rintro ⟨u, rfl, ⟨⟨v, rfl, hv⟩, hr⟩ | hu⟩
    · have hdrop : (v ++ r).dropWhile (· != '\n') = r := by
        rw [List.dropWhile_append_of_pos fun c hc => by simpa using ne_of_mem_of_not_mem hc hv]
        cases r with
        | nil => rfl
        | cons e r => rw [hr e rfl, List.dropWhile_cons_of_neg (by decide)]
      simp [afterMask, hdrop]
    · exact hu.rest r

theorem ne_nil_of_mask (h : (IsLineComment u ∧ Breaks r) ∨ Masks prev u) : u ≠ [] := by
  rcases h with ⟨h, -⟩ | h
  · exact h.ne_nil
  · exact h.ne_nil

/-- A quote waits for its literal to end in what follows. -/
def Hangs (t : Text) : Prop := ∃ u v w, t = u ++ '\'' :: v ∧ w ≠ [] ∧ CharTail (v ++ w)

/-- The signs that a comment or a raw string could go on from. -/
def isOpening (c : Char) : Bool := c == '/' || c == 'b' || c == 'r' || c == '#'

/-- Whatever follows, nothing in the text is undone by it. -/
structure Settled (t : Text) : Prop where
  last : ∀ c ∈ t.getLast?, isOpening c = false
  quotes : ¬Hangs t

theorem Hangs.append (a : Text) (h : Hangs t) : Hangs (a ++ t) := by
  obtain ⟨u, v, w, rfl, hw, htail⟩ := h
  exact ⟨a ++ u, v, w, by simp, hw, htail⟩

theorem not_hangs_of_not_mem (h : '\'' ∉ t) : ¬Hangs t := by
  rintro ⟨u, v, w, rfl, -, -⟩
  simp at h

theorem not_hangs_of_newline (h : ∀ c ∈ t.getLast?, c = '\n') : ¬Hangs t := by
  rintro ⟨u, v, w, rfl, -, htail⟩
  have hlast := h _ (List.getLast?_eq_some_getLast (by simp))
  have hmem : '\n' ∈ '\'' :: v := by
    rw [← hlast, List.getLast_append_of_ne_nil _ (by simp)]
    exact List.getLast_mem _
  rcases List.mem_cons.mp hmem with heq | hmem
  · exact absurd heq (by decide)
  · exact htail.newline_not_mem (List.mem_append_left w hmem)

theorem Settled.of_append {a : Text} (h : Settled (a ++ t)) : Settled t where
  last c hc := h.last c (by
    cases t with
    | nil => simp at hc
    | cons e t => rwa [List.getLast?_append_of_ne_nil _ (by simp)])
  quotes hang := h.quotes (hang.append a)

/-- What follows opens nothing together with what stands before it: the line is over, or a comment
takes the rest of it. -/
def Stops (y : Text) : Prop := Breaks y ∨ ∃ rest, y = '/' :: '/' :: rest

theorem CharTail.eq_of_sign {o : Char} (ho : o = '/' ∨ o = '"') (h : CharTail (u ++ o :: w)) :
    w = ['\''] := by
  have hhex : ∀ {a : Char}, Text.isHexDigit a → o ≠ a := by
    rintro a ha rfl
    rcases ho with rfl | rfl <;> exact absurd ha (by decide)
  have hsigns : o ≠ '\'' ∧ o ≠ '\\' ∧ o ≠ 'x' ∧ o ≠ 'u' ∧ o ≠ '\x7b' ∧ o ≠ '\x7d' := by
    rcases ho with rfl | rfl <;> decide
  obtain ⟨hquote, hslash, hx, hu, hopen, hclose⟩ := hsigns
  generalize ht : u ++ o :: w = t at h
  have hmem : o ∈ t := by simp [← ht]
  cases h with
  | plain c =>
    cases u with
    | nil => simpa using (List.cons.inj ht).2
    | cons a u =>
      have hmem : o ∈ ['\''] := by simp [← (List.cons.inj ht).2]
      exact absurd (List.mem_singleton.mp hmem) hquote
  | escape c =>
    cases u with
    | nil => exact absurd (List.cons.inj ht).1 hslash
    | cons a u =>
      cases u with
      | nil => simpa using (List.cons.inj (List.cons.inj ht).2).2
      | cons b u =>
        have hmem : o ∈ ['\''] := by simp [← (List.cons.inj (List.cons.inj ht).2).2]
        exact absurd (List.mem_singleton.mp hmem) hquote
  | byte a b ha hb => simp [hquote, hslash, hx, hhex ha, hhex hb] at hmem
  | code ds hds =>
    have hdigits : o ∉ ds := fun hmem => hhex (hds o hmem) rfl
    simp [hquote, hslash, hu, hopen, hclose, hdigits] at hmem

theorem CharTail.not_stops (h : CharTail (v ++ w)) (hw : w ≠ []) : ¬Stops (w ++ y) := by
  obtain ⟨c, w, rfl⟩ := List.exists_cons_of_ne_nil hw
  rintro (hbreaks | ⟨rest, hrest⟩)
  · have hc : c = '\n' := hbreaks c rfl
    exact h.newline_not_mem (by simp [hc])
  · simp only [List.cons_append, List.cons.injEq] at hrest
    obtain ⟨rfl, hrest⟩ := hrest
    rw [h.eq_of_sign (Or.inl rfl)] at hrest
    simp at hrest

theorem RawOpening.isOpening (h : RawOpening marks (v ++ w)) (hw : w ≠ []) :
    ∀ c ∈ v, isOpening c := by
  have hinit : ∀ c ∈ (v ++ w).dropLast, Lexeme.isOpening c := by
    generalize v ++ w = u at h
    cases h <;> rw [List.dropLast_concat] <;> simp [Lexeme.isOpening]
  intro c hc
  rw [List.dropLast_append_of_ne_nil hw] at hinit
  exact hinit c (List.mem_append_left _ hc)

theorem RawOpening.not_stops (h : RawOpening marks (v ++ w)) (hw : w ≠ []) : ¬Stops (w ++ y) := by
  have hnot : '\n' ∉ v ++ w ∧ '/' ∉ v ++ w := by
    generalize v ++ w = u at h
    cases h <;> simp [List.mem_replicate]
  obtain ⟨c, w, rfl⟩ := List.exists_cons_of_ne_nil hw
  rintro (hbreaks | ⟨rest, hrest⟩)
  · have hc : c = '\n' := hbreaks c rfl
    exact hnot.1 (by simp [hc])
  · obtain ⟨rfl, -⟩ := List.cons.inj hrest
    exact hnot.2 (by simp)

/-- Behind `v`, nothing comes to its end in `y` and nothing is opened by it where `z` does not do so
too. -/
structure Agrees (v z y : Text) : Prop where
  chars : ∀ u w, '\'' :: u <:+ v → w ≠ [] → CharTail (u ++ w) → ¬w <+: y
  raws : ∀ marks w, w ≠ [] → RawOpening marks (v ++ w) → w <+: y → w <+: z
  comment : v = ['/'] → ∀ c ∈ y.head?, c = '/' ∨ c = '*' → c ∈ z.head?
  byte : v = ['b'] → y.head? ≠ some '\''

theorem afterChar_none (h : afterChar? (v ++ z) = none)
    (hy : ∀ w, w ≠ [] → CharTail (v ++ w) → ¬w <+: y) : afterChar? (v ++ y) = none := by
  rw [Option.eq_none_iff_forall_ne_some]
  intro r hr
  obtain ⟨u, hu, heq⟩ := afterChar_eq_some_iff.mp hr
  rcases List.append_eq_append_iff.mp heq with ⟨w, rfl, rfl⟩ | ⟨w, rfl, rfl⟩
  · cases w with
    | nil =>
      rw [List.append_nil] at hu
      rw [afterChar_eq_some_iff.mpr ⟨v, hu, rfl⟩] at h
      contradiction
    | cons c w => exact hy (c :: w) (by simp) hu (List.prefix_append _ _)
  · rw [List.append_assoc, afterChar_eq_some_iff.mpr ⟨u, hu, rfl⟩] at h
    contradiction

theorem rawOpening_none (h : rawOpening? (v ++ z) = none)
    (hy : ∀ marks w, w ≠ [] → RawOpening marks (v ++ w) → w <+: y → w <+: z) :
    rawOpening? (v ++ y) = none := by
  rw [Option.eq_none_iff_forall_ne_some]
  rintro ⟨marks, body⟩ hr
  obtain ⟨u, hu, heq⟩ := rawOpening_eq_some_iff.mp hr
  rcases List.append_eq_append_iff.mp heq with ⟨w, rfl, rfl⟩ | ⟨w, rfl, rfl⟩
  · have hz : w <+: z := by
      cases w with
      | nil => exact List.nil_prefix
      | cons c w => exact hy marks (c :: w) (by simp) hu (List.prefix_append _ _)
    obtain ⟨z, rfl⟩ := hz
    rw [← List.append_assoc, rawOpening_eq_some_iff.mpr ⟨v ++ w, hu, rfl⟩] at h
    contradiction
  · rw [List.append_assoc, rawOpening_eq_some_iff.mpr ⟨u, hu, rfl⟩] at h
    contradiction

theorem afterLetter_none (hv : v ≠ []) (h : afterLetter (v ++ z) = .ok none) (hy : Agrees v z y) :
    afterLetter (v ++ y) = .ok none := by
  have hraw : rawOpening? (v ++ z) = none := by
    unfold afterLetter at h
    split at h
    · split at h <;> simp at h
    · assumption
  have hraw' := rawOpening_none hraw hy.raws
  unfold afterLetter at h ⊢
  rw [hraw] at h
  rw [hraw']
  simp only at h ⊢
  split
  · rename_i rest heq
    cases v with
    | nil => exact absurd rfl hv
    | cons c v =>
      obtain ⟨rfl, hrest⟩ := List.cons.inj heq
      cases v with
      | nil =>
        have hquote : y = '\'' :: rest := hrest
        exact absurd (by rw [hquote]; rfl) (hy.byte rfl)
      | cons e v =>
        obtain ⟨rfl, rfl⟩ := List.cons.inj hrest
        simp only [List.cons_append, Except.ok.injEq] at h ⊢
        exact afterChar_none h fun w => hy.chars v w (List.suffix_cons _ _)
  · rfl

theorem afterMask_none (hv : v ≠ []) (h : afterMask prev (v ++ z) = .ok none) (hy : Agrees v z y) :
    afterMask prev (v ++ y) = .ok none := by
  cases v with
  | nil => exact absurd rfl hv
  | cons c v =>
    simp only [List.cons_append] at h ⊢
    by_cases hstring : c = '"'
    · subst hstring
      simp only [afterMask] at h
      split at h <;> simp at h
    by_cases hquote : c = '\''
    · subst hquote
      simp only [afterMask, Except.ok.injEq] at h ⊢
      exact afterChar_none h fun w => hy.chars v w (List.suffix_refl _)
    by_cases hslash : c = '/'
    · -- A slash is settled by the next character, so only a lone one can be undone.
      subst hslash
      have hplain : ∀ cs : Text, cs.head? ≠ some '/' → cs.head? ≠ some '*' →
          afterMask prev ('/' :: cs) = .ok none := by
        intro cs hline hblock
        rw [afterMask_other prev hstring hquote (fun h => hline h.2) (fun h => hblock h.2),
          afterLetter_of_head (by decide) (by decide)]
        split <;> rfl
      have hopens : ∀ {cs : Text}, afterMask prev ('/' :: cs) = .ok none →
          cs.head? ≠ some '/' ∧ cs.head? ≠ some '*' := by
        intro cs hcs
        constructor <;> intro hhead <;> obtain ⟨rest, rfl⟩ := List.head?_eq_some_iff.mp hhead
        · simp [afterMask] at hcs
        · simp only [afterMask] at hcs
          split at hcs <;> simp at hcs
      obtain ⟨hline, hblock⟩ := hopens h
      cases v with
      | nil =>
        exact hplain y (fun hhead => hline (hy.comment rfl '/' hhead (Or.inl rfl)))
          (fun hhead => hblock (hy.comment rfl '*' hhead (Or.inr rfl)))
      | cons e v => exact hplain (e :: v ++ y) hline hblock
    · rw [afterMask_other prev hstring hquote (fun h => hslash h.1) (fun h => hslash h.1)] at h ⊢
      split
      · rfl
      · rename_i hprev
        rw [if_neg hprev] at h
        exact afterLetter_none (v := c :: v) (by simp) h hy

/-- `z` can be exchanged for `y` after `v`: the line is over, or a comment takes the rest of it as
before, or `v` is settled. -/
def Exchange (v z y : Text) : Prop :=
  Breaks y ∨ ((∃ rest, z = '/' :: '/' :: rest) ∧ ∃ rest, y = '/' :: '/' :: rest) ∨ Settled v

theorem Exchange.stops (h : Exchange v z y) : Stops y ∨ Settled v := by
  rcases h with h | ⟨-, h⟩ | h
  · exact Or.inl (Or.inl h)
  · exact Or.inl (Or.inr h)
  · exact Or.inr h

theorem Exchange.agrees (hv : v ≠ []) (h : Exchange v z y) : Agrees v z y where
  chars u w hu hw hchar hy := by
    obtain ⟨y, rfl⟩ := hy
    rcases h.stops with hstops | hset
    · exact hchar.not_stops hw hstops
    · obtain ⟨a, rfl⟩ := hu
      exact hset.quotes ⟨a, u, w, rfl, hw, hchar⟩
  raws marks w hw hraw hy := by
    obtain ⟨y, rfl⟩ := hy
    rcases h.stops with hstops | hset
    · exact absurd hstops (hraw.not_stops hw)
    · have hopening := hraw.isOpening hw (v.getLast hv) (List.getLast_mem hv)
      rw [hset.last _ (List.getLast?_eq_some_getLast hv)] at hopening
      contradiction
  comment hslash c hc hopens := by
    rcases h with hbreaks | ⟨⟨rest, rfl⟩, rest', rfl⟩ | hset
    · obtain rfl := hbreaks c hc
      exact absurd hopens (by decide)
    · exact hc
    · have := hset.last '/' (by rw [hslash]; rfl)
      contradiction
  byte hb hhead := by
    rcases h with hbreaks | ⟨-, rest, rfl⟩ | hset
    · exact absurd (hbreaks '\'' hhead) (by decide)
    · exact absurd (Option.some.inj hhead) (by decide)
    · have := hset.last 'b' (by rw [hb]; rfl)
      contradiction

def midWord (prev : Option Char) : Bool := (prev.map Text.isWord).getD false

theorem isWord_of_isBlank (hc : Text.isBlank c) : Text.isWord c = false := by
  let points : List Nat :=
    [9, 10, 11, 12, 13, 28, 29, 30, 31, 32, 0x85, 0xa0, 0x1680, 0x2000, 0x2001, 0x2002, 0x2003,
      0x2004, 0x2005, 0x2006, 0x2007, 0x2008, 0x2009, 0x200a, 0x2028, 0x2029, 0x202f,
    0x205f, 0x3000]
  have hpoints : ∀ n ∈ points, Text.isWord (Char.ofNat n) = false := by decide +kernel
  have hmem : c.toNat ∈ points := by
    simp only [Text.isBlank, Bool.or_eq_true, Bool.and_eq_true, decide_eq_true_eq, beq_iff_eq] at hc
    simp only [points, List.mem_cons, List.not_mem_nil, or_false]
    omega
  have := hpoints _ hmem
  rwa [Char.ofNat_toNat] at this

theorem afterMask_congr {prev' : Option Char} (h : midWord prev = midWord prev') (t : Text) :
    afterMask prev t = afterMask prev' t := by
  unfold midWord at h
  simp only [afterMask, h]

theorem afterMask_congr_head (hr : c ≠ 'r') (hb : c ≠ 'b') (prev prev' : Option Char) (cs : Text) :
    afterMask prev (c :: cs) = afterMask prev' (c :: cs) := by
  cases front c cs with
  | string => simp [afterMask]
  | quote => simp [afterMask]
  | line => simp [afterMask]
  | block => simp [afterMask]
  | other hstring hquote hline hblock =>
    rw [afterMask_other prev hstring hquote hline hblock,
      afterMask_other prev' hstring hquote hline hblock, afterLetter_of_head hr hb]
    simp

theorem afterMask_of_head (hc : isClosing c = false) (hr : c ≠ 'r') (hb : c ≠ 'b')
    (prev : Option Char) (cs : Text) : afterMask prev (c :: cs) = .ok none := by
  simp only [isClosing, Bool.or_eq_false_iff, beq_eq_false_iff_ne] at hc
  rw [afterMask_other prev hc.1.1.2 hc.2 (fun h => hc.1.1.1 h.1) (fun h => hc.1.1.1 h.1),
    afterLetter_of_head hr hb]
  simp

theorem afterMask_blank (hc : Text.isBlank c) (prev : Option Char) (cs : Text) :
    afterMask prev (c :: cs) = .ok none :=
  afterMask_of_head (isClosing_of_isBlank hc) (ne_of_isBlank hc (by decide))
    (ne_of_isBlank hc (by decide)) prev cs

end Item.Lexeme

end Graft
