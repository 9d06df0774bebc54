import Graft.Proofs.Item.Declaration
import Mathlib.Data.List.Chain

set_option autoImplicit false

/-!
Functions with a return type, given by their text alone. Where parameters and return type hold no
comment and no quote, every character up to the body stands for itself, so balanced parameters are
read as such; and the function is found just when its return type has no semicolon, as an array type
does.
-/

namespace Graft.Item

open Graft.Item.Function

/-- No quote, and no slash that opens a comment. -/
structure Bare (t : Text) : Prop where
  string : '"' ∉ t
  quote : '\'' ∉ t
  comment : t.IsChain fun a b => ¬(a = '/' ∧ (b = '/' ∨ b = '*'))

instance (t : Text) : Decidable (Bare t) :=
  decidable_of_iff (_ ∧ _ ∧ _)
    ⟨fun ⟨h₁, h₂, h₃⟩ => ⟨h₁, h₂, h₃⟩, fun h => ⟨h.string, h.quote, h.comment⟩⟩

theorem Bare.cons {c : Char} {t : Text} (hc : c ≠ '"' ∧ c ≠ '\'' ∧ c ≠ '/') (ht : Bare t) :
    Bare (c :: t) where
  string := by simpa using ⟨hc.1.symm, ht.string⟩
  quote := by simpa using ⟨hc.2.1.symm, ht.quote⟩
  comment := List.isChain_cons.mpr ⟨fun _ _ h => hc.2.2 h.1, ht.comment⟩

theorem Bare.append {x y : Text} (hx : Bare x) (hy : Bare y)
    (hseam : ∀ c ∈ y.head?, c ≠ '/' ∧ c ≠ '*') :
    Bare (x ++ y) where
  string := by simpa using ⟨hx.string, hy.string⟩
  quote := by simpa using ⟨hx.quote, hy.quote⟩
  comment := List.isChain_append.mpr ⟨hx.comment, hy.comment, fun _ _ c hc h =>
    h.2.elim (hseam c hc).1 (hseam c hc).2⟩

theorem rawOpening_bare {t z : Text} (ht : '"' ∉ t) (hz : z.head? = some '\x7b') :
    Lexeme.rawOpening? (t ++ z) = none := by
  rw [Option.eq_none_iff_forall_ne_some]
  rintro ⟨marks, body⟩ hr
  obtain ⟨u, hu, heq⟩ := Lexeme.rawOpening_eq_some_iff.mp hr
  have hquote : '"' ∈ u := by cases hu <;> simp
  have hbrace : '\x7b' ∉ u := by cases hu <;> simp [List.mem_replicate]
  rcases List.append_eq_append_iff.mp heq with ⟨v, rfl, rfl⟩ | ⟨v, rfl, rfl⟩
  · cases v with
    | nil => simp_all
    | cons c v =>
      obtain rfl : c = '\x7b' := by simpa using hz
      simp at hbrace
  · simp [hquote] at ht

theorem afterLetter_bare {t z : Text} (hstring : '"' ∉ t) (hquote : '\'' ∉ t)
    (hz : z.head? = some '\x7b') :
    Lexeme.afterLetter (t ++ z) = .ok none := by
  unfold Lexeme.afterLetter
  rw [rawOpening_bare hstring hz]
  simp only
  split
  · rename_i rest heq
    cases t with
    | nil =>
      rw [List.nil_append] at heq
      simp [heq] at hz
    | cons c t =>
      cases t with
      | nil =>
        obtain ⟨-, rfl⟩ := List.cons.inj heq
        simp at hz
      | cons c' t =>
        simp only [List.cons_append, List.cons.injEq] at heq
        simp [heq.2.1] at hquote
  · rfl

theorem lexes_bare {t z : Text} (ht : Bare t) (hz : z.head? = some '\x7b') (prev : Option Char) :
    Lexes prev t (t.map .plain) z := by
  induction t generalizing prev with
  | nil => exact .nil _ _
  | cons c t ih =>
    obtain ⟨hstring, hquote, hcomment⟩ := ht
    have hletter := afterLetter_bare hstring hquote hz
    obtain ⟨hnext, hcomment⟩ := List.isChain_cons.mp hcomment
    rw [List.mem_cons, not_or] at hstring hquote
    -- What follows a slash is the next character of the text, or the brace.
    have hslash : ∀ x, x = '/' ∨ x = '*' → ¬(c = '/' ∧ (t ++ z).head? = some x) := by
      rintro x hx ⟨hc, hhead⟩
      cases t with
      | nil =>
        rw [List.nil_append, hz] at hhead
        obtain rfl := Option.some.inj hhead
        simp at hx
      | cons y t =>
        obtain rfl : y = x := Option.some.inj hhead
        exact hnext y rfl ⟨hc, hx⟩
    refine .plain ?_ (ih ⟨hstring.2, hquote.2, hcomment⟩ (some c))
    rw [Lexeme.afterMask_other prev (Ne.symm hstring.1) (Ne.symm hquote.1) (hslash '/' (Or.inl rfl))
      (hslash '*' (Or.inr rfl))]
    split
    · rfl
    · exact hletter

namespace Document

theorem tokensFrom_plain_append (n : Nat) (t : Text) (ls : List Lexeme) :
    tokensFrom n (t.map .plain ++ ls) = tokensFrom n (t.map .plain) ++
      tokensFrom (n + t.length) ls := by
  have htext : ((t.map Lexeme.plain).flatMap Lexeme.text) = t := by
    induction t with
    | nil => rfl
    | cons c t ih => rw [List.map_cons, List.flatMap_cons, ih]; rfl
  rw [tokensFrom_append, htext]

theorem shape_plain (t : Text) : shape (t.map .plain) = t.filter isStructural := by
  induction t with
  | nil => rfl
  | cons c t ih =>
    rw [List.map_cons, shape_cons, ih, List.filter_cons]
    by_cases hc : isStructural c <;> simp [shape, hc]

theorem tokensFrom_plain_eq_nil {t : Text} (ht : ∀ c ∈ t, isStructural c = false) (n : Nat) :
    tokensFrom n (t.map .plain) = [] := by
  rw [← List.map_eq_nil_iff (f := Token.char), map_char_tokensFrom, shape_plain,
    List.filter_eq_nil_iff]
  intro c hc
  simp [ht c hc]

theorem mem_tokensFrom_plain {t : Text} {i : Nat} {c : Char} (hc : t[i]? = some c)
    (hs : isStructural c) (n : Nat) :
    ⟨c, n + i⟩ ∈ tokensFrom n (t.map .plain) := by
  induction t generalizing n i with
  | nil => simp at hc
  | cons x t ih =>
    rw [List.map_cons, tokensFrom]
    cases i with
    | zero =>
      obtain rfl : x = c := by simpa using hc
      simp [hs]
    | succ i =>
      have hmem := ih (by simpa using hc) (n + 1)
      rw [show n + 1 + i = n + (i + 1) by omega] at hmem
      split
      · exact List.mem_cons_of_mem _ hmem
      · exact hmem

theorem Pairing.balanced (inner : List Token) {stack ts us left : List Token}
    {pairs : List (Nat × Nat)} (hnest : nest (inner.map (·.char)) (ts.map (·.char)) = some [])
    (h : Pairing (inner ++ stack) (ts ++ us) pairs left) :
    ∃ pre rest, pairs = pre ++ rest ∧ Pairing stack us rest left := by
  induction ts generalizing inner pairs with
  | nil =>
    obtain rfl : inner = [] := by simpa [nest] using hnest
    exact ⟨[], pairs, rfl, h⟩
  | cons t ts ih =>
    rw [List.map_cons, nest] at hnest
    generalize hopen : inner ++ stack = open_ at h
    cases h with
    | pass hc h =>
      subst hopen
      rw [hc] at hnest
      exact ih inner (by simpa [opener?] using hnest) h
    | push ho hc h =>
      subst hopen
      rw [ho] at hnest
      exact ih (t :: inner) (by simpa [hc] using hnest) h
    | pop ho h =>
      rw [ho] at hnest
      cases inner with
      | nil => simp at hnest
      | cons top inner =>
        obtain ⟨rfl, rfl⟩ := List.cons.inj hopen
        obtain ⟨pre, rest, rfl, hrest⟩ := ih inner (by simpa using hnest) h
        exact ⟨(top.offset, t.offset) :: pre, rest, rfl, hrest⟩

theorem Pairing.mem_of_balanced {stack inside after left : List Token} {opening closing : Token}
    {pairs : List (Nat × Nat)} (hopening : opening.char = '(') (hclosing : closing.char = ')')
    (hinside : nest [] (inside.map (·.char)) = some [])
    (h : Pairing stack (opening :: (inside ++ closing :: after)) pairs left) :
    (opening.offset, closing.offset) ∈ pairs := by
  cases h with
  | pass hc h => simp [hopening] at hc
  | pop ho h => simp [hopening, opener?] at ho
  | push ho hc h =>
    obtain ⟨pre, rest, rfl, hrest⟩ := Pairing.balanced [] hinside h
    cases hrest with
    | pass hc h => simp [hclosing] at hc
    | push ho hc h => simp [hclosing, opener?] at ho
    | pop ho h => simp

end Document

namespace Declaration

def returning (name parameters type body : Text) : Declaration where
  name := name
  parameters := parameters
  suffix := " -> ".toList ++ type ++ [' ']
  body := body

def head (name parameters type : Text) : Text :=
  "fn ".toList ++ name ++ ('(' :: (parameters ++ (") -> ".toList ++ (type ++ [' ']))))

section

variable {name parameters type body : Text} {d : Document}

theorem text_returning :
    (returning name parameters type body).text = head name parameters type ++ body := by
  simp [text, returning, head, Text.stacked]

theorem length_head (name parameters type body : Text) :
    (head name parameters type).length = (returning name parameters type body).bodyStart := by
  simp [head, returning, bodyStart, closing, opening, nameStop, start, Text.stacked]
  omega

theorem ne_of_isNameChar {c x : Char} (hc : Header.isNameChar c)
    (hx : Header.isNameChar x = false) : c ≠ x := by
  rintro rfl
  rw [hc] at hx
  contradiction

theorem bare_name (hname : Header.IsName name) {t : Text} (ht : Bare t) : Bare (name ++ t) := by
  obtain ⟨-, hchars⟩ := hname
  induction name with
  | nil => exact ht
  | cons c name ih =>
    rw [List.forall_mem_cons] at hchars
    exact .cons ⟨ne_of_isNameChar hchars.1 (by decide), ne_of_isNameChar hchars.1 (by decide),
      ne_of_isNameChar hchars.1 (by decide)⟩ (ih hchars.2)

theorem isStructural_name (hname : Header.IsName name) {c : Char} (hc : c ∈ "fn ".toList ++ name) :
    Document.isStructural c = false := by
  rcases List.mem_append.mp hc with hc | hc
  · have hcases : c = 'f' ∨ c = 'n' ∨ c = ' ' := by simpa using hc
    rcases hcases with rfl | rfl | rfl <;> decide
  · have hchar := hname.2 c hc
    simp [Document.isStructural, ne_of_isNameChar hchar (x := '\x7b') rfl,
      ne_of_isNameChar hchar (x := '\x7d') rfl,
      ne_of_isNameChar hchar (x := '(') rfl,
      ne_of_isNameChar hchar (x := ')') rfl,
      ne_of_isNameChar hchar (x := ';') rfl]

theorem bare_head (hname : Header.IsName name) (hparameters : Bare parameters) (htype : Bare type) :
    Bare (head name parameters type) := by
  have hend : Bare (type ++ [' ']) := htype.append (by decide) (by simp)
  have harrow : Bare (") -> ".toList ++ (type ++ [' '])) :=
    .cons (by decide)
      (.cons (by decide) (.cons (by decide) (.cons (by decide) (.cons (by decide) hend))))
  have hrest : Bare ('(' :: (parameters ++ (") -> ".toList ++ (type ++ [' '])))) :=
    .cons (by decide) (hparameters.append harrow (by simp))
  rw [head, List.append_assoc]
  exact .cons (by decide) (.cons (by decide) (.cons (by decide) (bare_name hname hrest)))

theorem opening_returning (name parameters type body : Text) :
    (returning name parameters type body).opening = ("fn ".toList ++ name).length := by
  simp [returning, opening, nameStop, start, Text.stacked]
  omega

theorem slice_returning (name parameters type body : Text) :
    (returning name parameters type body).text.slice
      ((returning name parameters type body).closing + 1)
        (returning name parameters type body).bodyStart = " -> ".toList ++ type ++ [' '] := by
  refine Text.slice_part (x := "fn ".toList ++ name ++ ('(' :: (parameters ++ [')'])))
    (r := body) ?_ ?_ ?_
  · simp [text_returning, head]
  · simp [returning, closing, opening, nameStop, start, Text.stacked]
    omega
  · simp [returning, bodyStart, closing, opening, nameStop, start, Text.stacked]
    omega

theorem tokens_returning (hname : Header.IsName name) (hparameters : Bare parameters)
    (htype : Bare type) (hbody : body.head? = some '\x7b')
    (hd : Document.scan (returning name parameters type body).text = .ok d) :
    ∃ ts, d.tokens.toList =
      Document.tokensFrom 0 ((head name parameters type).map .plain) ++ ts := by
  obtain ⟨-, -, htokens, -, -⟩ := Document.of_scan hd
  rw [text_returning, (lexes_bare (bare_head hname hparameters htype) hbody none).read_append,
    Document.tokensFrom_plain_append] at htokens
  exact ⟨_, by rw [htokens]⟩

theorem tokensFrom_head (hname : Header.IsName name) (parameters type body : Text) :
    ∃ ts, Document.tokensFrom 0 ((head name parameters type).map .plain) =
      ⟨'(', (returning name parameters type body).opening⟩ ::
        (Document.tokensFrom ((returning name parameters type body).opening + 1)
          (parameters.map .plain) ++
          ⟨')', (returning name parameters type body).closing⟩ :: ts) := by
  have hclosing : (returning name parameters type body).closing =
      (returning name parameters type body).opening + 1 + parameters.length := rfl
  have hnone := Document.tokensFrom_plain_eq_nil (fun _ hc => isStructural_name hname hc) 0
  rw [hclosing, opening_returning, head, List.map_append, Document.tokensFrom_plain_append, hnone,
    List.nil_append, Nat.zero_add, List.map_cons, Document.tokensFrom, if_pos (by decide),
    List.map_append, Document.tokensFrom_plain_append]
  exact ⟨_, rfl⟩

theorem char_of_token
    (hd : Document.scan (returning name parameters type body).text = .ok d) {t : Token}
    (ht : t ∈ d.tokens.toList) (hlt : (returning name parameters type body).closing < t.offset)
    (hlt' : t.offset < (returning name parameters type body).bodyStart) :
    t.char ∈ " -> ".toList ++ type ++ [' '] := by
  rw [← slice_returning name parameters type body]
  exact Text.mem_slice hlt hlt' (Document.char_of_mem_tokens hd ht).1

theorem exists_semicolon (hname : Header.IsName name) (hparameters : Bare parameters)
    (htype : Bare type) (hbody : body.head? = some '\x7b')
    (hd : Document.scan (returning name parameters type body).text = .ok d) (hmem : ';' ∈ type) :
    ∃ t ∈ d.tokens.toList, (returning name parameters type body).closing < t.offset ∧
      t.offset < (returning name parameters type body).bodyStart ∧ t.char = ';' := by
  have hlength : (" -> ".toList ++ type ++ [' ']).length +
      ((returning name parameters type body).closing + 1) =
      (returning name parameters type body).bodyStart := Nat.add_comm _ _
  obtain ⟨i, hi⟩ := List.getElem?_of_mem (show ';' ∈ " -> ".toList ++ type ++ [' '] by simp [hmem])
  have hlt := (List.getElem?_eq_some_iff.mp hi).1
  obtain ⟨k, hk⟩ : ∃ k, k = i + ((returning name parameters type body).closing + 1) := ⟨_, rfl⟩
  have hchar : (head name parameters type)[k]? = some ';' := by
    rw [← slice_returning name parameters type body,
      show i = k - ((returning name parameters type body).closing + 1) by omega,
      Text.getElem?_slice (by omega) (by omega), text_returning,
      List.getElem?_append_left (by rw [length_head name parameters type body]; omega)] at hi
    exact hi
  obtain ⟨ts, hts⟩ := tokens_returning hname hparameters htype hbody hd
  have htoken := Document.mem_tokensFrom_plain hchar (by decide) 0
  rw [Nat.zero_add] at htoken
  exact ⟨⟨';', k⟩, by simp [hts, htoken], by simp only; omega, by simp only; omega, rfl⟩

theorem paired_returning (hname : Header.IsName name) (hparameters : Bare parameters)
    (hbalanced : Document.nest [] (parameters.filter Document.isStructural) = some [])
    (htype : Bare type) (hbrace : '\x7b' ∉ type) (hbody : body.head? = some '\x7b')
    (hd : Document.scan (returning name parameters type body).text = .ok d)
    (hpartner : d.partner? (returning name parameters type body).bodyStart =
      some ((returning name parameters type body).text.length - 1)) :
    (returning name parameters type body).Paired d where
  parameters := by
    obtain ⟨ts, hts⟩ := tokens_returning hname hparameters htype hbody hd
    obtain ⟨us, hus⟩ := tokensFrom_head hname parameters type body
    obtain ⟨ls, -, -, htokens, -, hpair⟩ := Document.lexes_of_scan hd
    have hpairing := Document.pairing_of_pair hpair
    rw [← htokens, hts, hus, List.cons_append, List.append_assoc, List.cons_append] at hpairing
    have hinside :
        Document.nest [] ((Document.tokensFrom ((returning name parameters type body).opening + 1)
        (parameters.map .plain)).map (·.char)) = some [] := by
      rw [Document.map_char_tokensFrom, Document.shape_plain, hbalanced]
    exact Document.partner_of_mem hd (hpairing.mem_of_balanced rfl rfl hinside)
  body := hpartner
  generics := by
    intro ab _
    have hsame : (returning name parameters type body).opening =
        (returning name parameters type body).nameStop := rfl
    omega
  suffix := by
    intro t ht hlt hlt' hchar
    have hmem := char_of_token hd ht hlt hlt'
    simp [hchar, hbrace] at hmem

theorem opening_of_extent (hp : (returning name parameters type body).Paired d)
    (hd : Document.scan (returning name parameters type body).text = .ok d) {e : Extent}
    (he : extent? d (returning name parameters type body).nameStop = some e) :
    e.opening = (returning name parameters type body).opening := by
  have hsame : (returning name parameters type body).opening =
      (returning name parameters type body).nameStop := rfl
  obtain ⟨first, body', stop, hfirst, -, -, -, -, -, ho, -, -⟩ := extent_eq_some_iff.mp he
  obtain ⟨t, ht, u, -, hoffset, -, hkind⟩ := Document.partner_brackets hd hp.parameters
  have hopens : t.char ∈ "(\x7b;".toList := by
    obtain ⟨-, h⟩ | ⟨-, h⟩ := Document.opener_cases hkind <;> simp [h]
  have hle := Document.nextToken_le hd hfirst ht (by omega) hopens
  have hge := (Document.nextToken_spec hd hfirst).2.1
  omega

/-- A function whose parameters and return type hold no comments and quotes is found, from its first
character to its last brace, exactly if its return type has no semicolon. -/
theorem extract_returning_iff (hname : Header.IsName name) (hparameters : Bare parameters)
    (hbalanced : Document.nest [] (parameters.filter Document.isStructural) = some [])
    (htype : Bare type) (hbrace : '\x7b' ∉ type) (hbody : body.head? = some '\x7b')
    (hd : Document.scan (returning name parameters type body).text = .ok d)
    (hpartner : d.partner? (returning name parameters type body).bodyStart =
      some ((returning name parameters type body).text.length - 1)) (keepDirectives : Bool) :
    (∃ g, (extract d keepDirectives).table.entries = [(name, g)] ∧ g.start = 0 ∧
      g.stop = (returning name parameters type body).text.length) ↔ ';' ∉ type := by
  have hw : (returning name parameters type body).Formed :=
    ⟨by simp [returning], hname, by simp [returning], hbody⟩
  have hp := paired_returning hname hparameters hbalanced htype hbrace hbody hd hpartner
  constructor
  · rintro ⟨g, hentries, hstart, -⟩ hmem
    have hg : g ∈ (extract d keepDirectives).table.values := by simp [Table.values, hentries]
    obtain ⟨e, he, -⟩ := exists_extent hw hd hp hg hstart
    obtain ⟨-, hclear⟩ := clear_of_extent hd hp he (opening_of_extent hp hd he)
    obtain ⟨t, ht, hlt, hlt', hchar⟩ := exists_semicolon hname hparameters htype hbody hd hmem
    exact hclear t ht hlt hlt' hchar
  · intro hnot
    have hc : (returning name parameters type body).Clear d := by
      constructor
      · intro t _
        have hsame : (returning name parameters type body).opening =
          (returning name parameters type body).nameStop := rfl
        omega
      · intro t ht hlt hlt' hchar
        have hmem := char_of_token hd ht hlt hlt'
        simp [hchar, hnot] at hmem
    obtain ⟨g, hentries, hstart, hstop, -⟩ := extract_of_clear hw hd hp hc keepDirectives
    exact ⟨g, hentries, hstart, hstop⟩

end

theorem extract_returning_iff_pointer :
    let w := returning ['f'] "x: [u8; 4], y: fn(u8) -> u8".toList "(u8, [u8])".toList
      "\x7b y(x[0]); \x7d".toList
    ∃ d g, Document.scan w.text = .ok d ∧ d.partner? w.bodyStart = some (w.text.length - 1) ∧
      w.text = "fn f(x: [u8; 4], y: fn(u8) -> u8) -> (u8, [u8]) \x7b y(x[0]); \x7d".toList ∧
      (extract d false).table.entries = [(['f'], g)] ∧ g.start = 0 ∧ g.stop = w.text.length := by
  intro w
  have hok : (Document.scan w.text).isOk ∧
      w.text = "fn f(x: [u8; 4], y: fn(u8) -> u8) -> (u8, [u8]) \x7b y(x[0]); \x7d".toList := by
        decide +kernel
  have hscan : ∀ d ∈ (Document.scan w.text).toOption,
      d.partner? w.bodyStart = some (w.text.length - 1) := by
    decide +kernel
  obtain ⟨d, hd⟩ := Document.exists_of_isOk hok.1
  have hpartner := hscan d (by rw [hd]; rfl)
  obtain ⟨g, hg⟩ := (extract_returning_iff ⟨⟨'f', [], rfl, rfl⟩, List.forall_mem_singleton.mpr rfl⟩
    (by decide +kernel) (by decide +kernel) (by decide +kernel) (by decide) rfl hd hpartner
      false).mpr (by decide)
  exact ⟨d, g, hd, hpartner, hok.2, hg⟩

/-- A function that returns an array is taken for a declaration without a body. -/
theorem extract_misses_array :
    let w := returning ['f'] [] "[u8; 4]".toList "\x7b [0; 4] \x7d".toList
    ∃ d, Document.scan w.text = .ok d ∧ d.partner? w.bodyStart = some (w.text.length - 1) ∧
      w.text = "fn f() -> [u8; 4] \x7b [0; 4] \x7d".toList ∧
        (extract d false).table.entries = [] := by
  intro w
  have hok : (Document.scan w.text).isOk ∧
      w.text = "fn f() -> [u8; 4] \x7b [0; 4] \x7d".toList := by
    decide +kernel
  have hscan : ∀ d ∈ (Document.scan w.text).toOption,
      d.partner? w.bodyStart = some (w.text.length - 1) ∧
      (extract d false).table.entries.length = 0 := by
    decide +kernel
  obtain ⟨d, hd⟩ := Document.exists_of_isOk hok.1
  obtain ⟨hpartner, hnone⟩ := hscan d (by rw [hd]; rfl)
  exact ⟨d, hd, hpartner, hok.2, List.eq_nil_of_length_eq_zero hnone⟩

end Declaration

end Graft.Item
