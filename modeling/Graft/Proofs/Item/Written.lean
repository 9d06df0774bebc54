import Graft.Proofs.Item.SelfMerge
import Graft.Proofs.Relaid

set_option autoImplicit false

/-!
The text of a function that is written from its parts: where each part stands in it, and the
brackets that lead back to them.
-/

namespace Graft

namespace Text

variable {l x : Text}

def stacked (ls : List Text) : Text := ls.flatMap (· ++ ['\n'])

theorem stacked_append (ls ls' : List Text) : stacked (ls ++ ls') = stacked ls ++ stacked ls' :=
  List.flatMap_append

theorem stacked_concat (ls : List Text) (l : Text) :
    stacked (ls ++ [l]) = stacked ls ++ (l ++ ['\n']) := by
  simp [stacked]

theorem stacked_cons (l : Text) (ls : List Text) : stacked (l :: ls) = l ++ '\n' :: stacked ls := by
  simp [stacked]

theorem last_of_stacked (ls : List Text) : ∀ c ∈ (stacked ls).getLast?, c = '\n' := by
  rcases List.eq_nil_or_concat ls with rfl | ⟨ls, l, rfl⟩
  · simp [stacked]
  · rw [List.concat_eq_append, stacked_concat, ← List.append_assoc, List.getLast?_concat]
    simp

theorem exists_line_of_lt {ls : List Text} {k : Nat} (hk : k < (stacked ls).length) :
    ∃ pre l post, ls = pre ++ l :: post ∧ (stacked pre).length ≤ k ∧
      k ≤ (stacked pre).length + l.length := by
  induction ls generalizing k with
  | nil => simp [stacked] at hk
  | cons l ls ih =>
    have hlength : ∀ ls, (stacked (l :: ls)).length = l.length + ((stacked ls).length + 1) := by
      intro ls
      rw [stacked_cons, List.length_append, List.length_cons]
    by_cases hline : k ≤ l.length
    · exact ⟨[], l, ls, rfl, by simp [stacked], by omega⟩
    · rw [hlength] at hk
      obtain ⟨pre, x, post, rfl, hle, hle'⟩ := ih (k := k - l.length - 1) (by omega)
      exact ⟨l :: pre, x, post, rfl, by rw [hlength]; omega, by rw [hlength]; omega⟩

theorem lineStart_append (hx : ∀ c ∈ x.getLast?, c = '\n') (hl : '\n' ∉ l) (r : Text) :
    lineStart (x ++ (l ++ r)) (x.length + l.length) = x.length := by
  have htake : (x ++ (l ++ r)).take (x.length + l.length) = x ++ l := by
    rw [← List.append_assoc, ← List.length_append, List.take_left]
  rw [Item.Function.lineStart_eq, htake, dropLastWhile_append_of_all x fun c hc => by
    simpa using ne_of_mem_of_not_mem hc hl]
  rcases List.eq_nil_or_concat x with rfl | ⟨x, c, rfl⟩
  · rfl
  · rw [List.concat_eq_append, dropLastWhile_concat x (by simp [hx c])]

theorem dropLastWhile_cons {p : Char → Bool} {c : Char} (hc : p c = false) (t : Text) :
    ∃ u, dropLastWhile p (c :: t) = c :: u := by
  obtain ⟨b, hb, hall⟩ := exists_dropLastWhile_append p (c :: t)
  cases hdrop : dropLastWhile p (c :: t) with
  | nil =>
    rw [hdrop, List.nil_append] at hb
    rw [hall c (by rw [← hb]; simp)] at hc
    contradiction
  | cons x u =>
    rw [hdrop, List.cons_append] at hb
    exact ⟨u, by rw [(List.cons.inj hb).1]⟩

theorem slice_append_left (x l r : Text) :
    slice (x ++ (l ++ r)) x.length (x.length + l.length) = l := by
  rw [slice_eq, List.drop_left, Nat.add_sub_cancel_left, List.take_left]

theorem slice_part {t r : Text} (ht : t = x ++ (l ++ r)) {a b : Nat} (ha : a = x.length)
    (hb : b = x.length + l.length) : t.slice a b = l := by
  rw [ht, ha, hb, slice_append_left]

end Text

namespace Item

open Graft.Item.Function

namespace Function

variable {r source : Text} {ls : List Text} {fuel n s : Nat} {c : Char}

theorem preludeAbove_lines (hls : ∀ l ∈ ls, '\n' ∉ l) (hsource : source = Text.stacked ls ++ r)
    (hfuel : ls.length ≤ fuel) (acc : List PreludeLine) :
    ∃ es, preludeAbove source fuel (Text.stacked ls).length acc = es ++ acc ∧
      es.map (·.text) = (ls.map Text.trim).rtakeWhile isPrelude ∧
      topOf es (Text.stacked ls).length =
        (Text.stacked (ls.rdropWhile fun l => isPrelude l.trim)).length := by
  induction ls using List.reverseRecOn generalizing r fuel acc with
  | nil =>
    cases fuel <;> exact ⟨[], rfl, rfl, rfl⟩
  | append_singleton ls l ih =>
    obtain ⟨fuel, rfl⟩ : ∃ n, fuel = n + 1 := ⟨fuel - 1, by simp at hfuel; omega⟩
    have hsource' : source = Text.stacked ls ++ (l ++ '\n' :: r) := by
      rw [hsource, Text.stacked_concat]
      simp
    have hlength : (Text.stacked (ls ++ [l])).length = (Text.stacked ls).length + l.length + 1 := by
      simp [Text.stacked_concat, Nat.add_assoc]
    have hline : source.lineStart ((Text.stacked ls).length + l.length) =
        (Text.stacked ls).length := by
      rw [hsource']
      exact Text.lineStart_append (Text.last_of_stacked ls) (hls l (by simp)) _
    have hslice : source.slice (Text.stacked ls).length ((Text.stacked ls).length + l.length) =
        l := by
      rw [hsource']
      exact Text.slice_append_left _ _ _
    rw [hlength, preludeAbove, if_neg (by omega)]
    simp only [Nat.add_sub_cancel, hline, hslice, List.map_append, List.map_singleton]
    by_cases hprelude : isPrelude l.trim
    · obtain ⟨es, hes, htexts, htop⟩ :=
        ih (fun x hx => hls x (by simp [hx])) hsource' (by simp at hfuel; omega)
        (⟨(Text.stacked ls).length, l.trim⟩ :: acc)
      refine ⟨es ++ [⟨(Text.stacked ls).length, l.trim⟩], ?_, ?_, ?_⟩
      · rw [if_pos hprelude, hes]
        simp
      · rw [List.rtakeWhile_concat_pos _ _ _ hprelude, List.map_append, htexts]
        rfl
      · rw [List.rdropWhile_concat_pos (fun l => isPrelude (Text.trim l)) _ _ hprelude, ← htop]
        cases es <;> rfl
    · refine ⟨[], if_neg hprelude, ?_, ?_⟩
      · rw [List.rtakeWhile_concat_neg _ _ _ hprelude]
        rfl
      · rw [List.rdropWhile_concat_neg (fun l => isPrelude (Text.trim l)) _ _ hprelude, hlength]
        rfl

theorem preludeAbove_stacked (hls : ∀ l ∈ ls, isPrelude l ∧ l.trim = l ∧ '\n' ∉ l)
    (hsource : source = Text.stacked ls ++ r) (hfuel : ls.length ≤ fuel) (acc : List PreludeLine) :
    ∃ es, preludeAbove source fuel (Text.stacked ls).length acc = es ++ acc ∧ es.map (·.text) = ls ∧
      topOf es (Text.stacked ls).length = 0 := by
  obtain ⟨es, hes, htexts, htop⟩ :=
    preludeAbove_lines (fun l hl => (hls l hl).2.2) hsource hfuel acc
  have htrim : ls.map Text.trim = ls := Text.map_eq_self_iff.mpr fun l hl => (hls l hl).2.1
  rw [htrim, List.rtakeWhile_eq_self_iff.mpr fun l hl => (hls l hl).1] at htexts
  have hnone : ls.rdropWhile (fun l => isPrelude l.trim) = [] :=
    List.rdropWhile_eq_nil_iff.mpr fun l hl => by rw [(hls l hl).2.1]; exact (hls l hl).1
  rw [hnone] at htop
  exact ⟨es, hes, htexts, htop⟩

theorem isPrelude_eq_false (hc : source[s]? = some c) (hblank : Text.isBlank c = false)
    (hmark : c ≠ '#' ∧ c ≠ '/' ∧ c ≠ '*') (stop : Nat) :
    isPrelude (Text.trim (source.slice s stop)) = false := by
  by_cases hlt : s < stop
  · obtain ⟨u, hu⟩ := Text.dropLastWhile_cons hblank (source.slice (s + 1) stop)
    have htrim : Text.trim (source.slice s stop) = c :: u := by
      rw [Text.slice_eq_cons hc hlt, Text.trim, Text.trimStart,
        List.dropWhile_cons_of_neg (by simp [hblank])]
      exact hu
    rw [htrim]
    obtain ⟨h₁, h₂, h₃⟩ := hmark
    simp [isPrelude, attribute?, Text.startsWith, List.isPrefixOf, h₁, h₂.symm, h₃.symm]
  · rw [Text.slice_of_le (by omega)]
    rfl

theorem le_lineStart (hs : startsLine source s) (hle : s ≤ n) (hn : n ≤ source.length) :
    s ≤ source.lineStart n := by
  by_contra hlt
  have hnewline := newline_of_startsLine (by omega) (by omega) hs
  exact Text.newline_not_mem_line source n (Text.mem_slice (by omega) (by omega) hnewline)

theorem lt_offset_of_mem_preludeAbove (hs : startsLine source s) (hc : source[s]? = some c)
    (hblank : Text.isBlank c = false) (hmark : c ≠ '#' ∧ c ≠ '/' ∧ c ≠ '*') (hlt : s < n)
    (hn : n ≤ source.length) {acc : List PreludeLine} {l : PreludeLine}
    (hl : l ∈ preludeAbove source fuel n acc) : s < l.offset ∨ l ∈ acc := by
  induction fuel generalizing n acc with
  | zero => exact Or.inr hl
  | succ fuel ih =>
    have hle := le_lineStart hs (show s ≤ n - 1 by omega) (by omega)
    have hprevious := lineStart_le source (n - 1)
    rw [preludeAbove, if_neg (by omega)] at hl
    simp only at hl
    split at hl
    · rename_i hprelude
      have hne : source.lineStart (n - 1) ≠ s := by
        intro heq
        rw [heq, isPrelude_eq_false hc hblank hmark] at hprelude
        contradiction
      rcases ih (by omega) (by omega) hl with h | h
      · exact Or.inl h
      · rcases List.mem_cons.mp h with rfl | h
        · exact Or.inl (by simp only; omega)
        · exact Or.inr h
    · exact Or.inr hl

end Function

/-- The header that a function is written with. -/
def headerOf (f : Function) : Header :=
  let h : Header := ⟨f.visibility, f.details.qualifiers, f.details.abi, f.name, 0⟩
  { h with length := h.printed.length }

def linesOf (f : Function) : List Text :=
  f.comments ++ f.decorators.map fun a => "#[".toList ++ a ++ "]".toList

def signatureOf (f : Function) : Nat := (Text.stacked (linesOf f)).length

/-- Where the brackets of a written function stand. -/
def extentOf (f : Function) : Extent where
  opening := signatureOf f + (headerOf f).length + f.details.generics.length
  closing :=
  signatureOf f + (headerOf f).length + f.details.generics.length + 1 + (layout f).parameters.length
  bodyStart := signatureOf f + (headerOf f).length + f.details.generics.length + 1 +
    (layout f).parameters.length +
    1 + f.details.suffix.length
  bodyStop := (layout f).render.length

theorem bodyStop_extentOf (f : Function) : (extentOf f).bodyStop = (layout f).render.length := by
  simp only [extentOf]

/-- Parts that can be written, with or without directives among the comments. -/
structure Writable (f : Function) : Prop where
  comments : ∀ c ∈ f.comments, "//".toList <+: c ∧ c.trim = c ∧ '\n' ∉ c
  attributes : ∀ a ∈ f.decorators, a.trim = a ∧ '\n' ∉ a ∧ keywords "fn" a = []
  header : (headerOf f).Plain
  generics : ∀ c ∈ f.details.generics.head?, Header.isNameChar c = false
  body : ∃ rest, f.body = some ('\x7b' :: rest)

structure Printable (f : Function) : Prop extends Writable f where
  undirected : ∀ c ∈ f.comments, isDirectiveComment c = false

/-- The brackets that were written are those that are found. -/
structure Bracketed (f : Function) (d : Document) : Prop where
  /-- The signature starts outside comments and literals. -/
  free : d.maskAt? (signatureOf f) = none
  parameters : d.partner? (extentOf f).opening = some (extentOf f).closing
  body : d.partner? (extentOf f).bodyStart = some ((extentOf f).bodyStop - 1)
  generics : ∀ u ∈ d.tokens.toList,
    u.offset < signatureOf f + (headerOf f).length ∨ (extentOf f).opening ≤ u.offset
  suffix : ∀ u ∈ d.tokens.toList, (extentOf f).closing < u.offset →
    u.offset < (extentOf f).bodyStart →
    u.char ≠ '\x7b' ∧ u.char ≠ ';'

instance (f : Function) (d : Document) : Decidable (Bracketed f d) :=
  decidable_of_iff (_ ∧ _ ∧ _ ∧ _ ∧ _) ⟨fun ⟨h₁, h₂, h₃, h₄, h₅⟩ => ⟨h₁, h₂, h₃, h₄, h₅⟩,
    fun h => ⟨h.free, h.parameters, h.body, h.generics, h.suffix⟩⟩

section

variable {f : Function} {d : Document}

theorem body_cons (hf : ∃ rest, f.body = some ('\x7b' :: rest)) :
    ∃ b, Layout.dropFinalNewlines (f.body.getD []) = '\x7b' :: b := by
  obtain ⟨rest, hbody⟩ := hf
  rw [hbody, Option.getD_some]
  exact Text.dropLastWhile_cons (by decide) rest

theorem render_layout (hf : ∃ rest, f.body = some ('\x7b' :: rest)) :
    (layout f).render = Text.stacked (linesOf f) ++ ((headerOf f).printed ++ (f.details.generics ++
      '(' :: ((layout f).parameters ++ ')' :: (f.details.suffix ++
        Layout.dropFinalNewlines (f.body.getD []))))) := by
  have hne : Text.dropLastWhile (· == '\n') (f.body.getD []) ≠ [] := by
    obtain ⟨b, hb⟩ := body_cons hf
    exact fun hnil => List.cons_ne_nil _ _ (hb.symm.trans hnil)
  have hlines : f.comments.flatMap (Layout.line "" "") ++
      f.decorators.flatMap (Layout.line "#[" "]") =
      Text.stacked (linesOf f) := by
    have hcomment : Layout.line "" "" = fun t => t ++ ['\n'] := by
      funext t
      simp [Layout.line]
    have hattribute : Layout.line "#[" "]" = fun t => ("#[".toList ++ t ++ "]".toList) ++ ['\n'] :=
      rfl
    rw [hcomment, hattribute, linesOf, Text.stacked, List.flatMap_append, List.flatMap_map]
  have htext : (layout f).render = Layout.dropFinalNewlines ((Text.stacked (linesOf f) ++
      ((headerOf f).printed ++
        (f.details.generics ++ '(' :: ((layout f).parameters ++ ')' :: f.details.suffix)))) ++
        f.body.getD []) := by
    rw [Layout.Function.render, ← hlines]
    simp [layout, headerOf, Header.printed]
  rw [htext, Layout.dropFinalNewlines, Text.dropLastWhile_append_of_ne_nil _ hne]
  simp [Layout.dropFinalNewlines]

theorem length_headerOf (f : Function) : (headerOf f).length = (headerOf f).printed.length := rfl

/-- The parts of a written function stand where their brackets say. -/
structure Parted (f : Function) (t : Text) : Prop where
  rest : t.drop (signatureOf f) = (headerOf f).printed ++ (f.details.generics ++
    '(' :: t.drop ((extentOf f).opening + 1))
  opening : t[(extentOf f).opening]? = some '('
  body_start : t[(extentOf f).bodyStart]? = some '\x7b'
  generics : t.slice (signatureOf f + (headerOf f).length) (extentOf f).opening = f.details.generics
  parameters : t.slice ((extentOf f).opening + 1) (extentOf f).closing = (layout f).parameters
  suffix : t.slice ((extentOf f).closing + 1) (extentOf f).bodyStart = f.details.suffix
  body : t.slice (extentOf f).bodyStart (extentOf f).bodyStop =
    Layout.dropFinalNewlines (f.body.getD [])

theorem parted (hf : Writable f) : Parted f (layout f).render := by
  have htext := render_layout hf.body
  obtain ⟨body, hbody⟩ := body_cons hf.body
  have hstop := bodyStop_extentOf f
  generalize (layout f).render = t at htext hstop
  -- What stands before the signature, the parameters and the body.
  obtain ⟨x, hx⟩ : ∃ x,
      x = Text.stacked (linesOf f) ++ ((headerOf f).printed ++ f.details.generics) := ⟨_, rfl⟩
  obtain ⟨y, hy⟩ : ∃ y, y = x ++ '(' :: (layout f).parameters := ⟨_, rfl⟩
  obtain ⟨z, hz⟩ : ∃ z, z = y ++ ')' :: f.details.suffix := ⟨_, rfl⟩
  have hxlen : (extentOf f).opening = x.length := by
    simp [extentOf, signatureOf, length_headerOf, hx, Nat.add_assoc]
  have hylen : (extentOf f).closing = y.length := by
    rw [hy, List.length_append, ← hxlen, List.length_cons]
    simp only [extentOf]
    omega
  have hzlen : (extentOf f).bodyStart = z.length := by
    rw [hz, List.length_append, ← hylen, List.length_cons]
    simp only [extentOf]
    omega
  have hopen : t =
      x ++ '(' :: ((layout f).parameters ++ ')' :: (f.details.suffix ++ '\x7b' :: body)) := by
    rw [htext, hx, hbody]
    simp
  have hclose : t = y ++ ')' :: (f.details.suffix ++ '\x7b' :: body) := by
    rw [hopen, hy]
    simp
  have hlast : t = z ++ '\x7b' :: body := by
    rw [hclose, hz]
    simp
  refine ⟨?_, ?_, ?_, ?_, ?_, ?_, ?_⟩
  · have hafter : t.drop ((extentOf f).opening + 1) =
        (layout f).parameters ++ ')' :: (f.details.suffix ++ '\x7b' :: body) := by
      rw [hopen, hxlen, List.drop_append]
      simp
    rw [hafter, signatureOf, htext, hbody, List.drop_left]
  · rw [hopen, hxlen]
    simp
  · rw [hlast, hzlen]
    simp
  · exact Text.slice_part (x := Text.stacked (linesOf f) ++ (headerOf f).printed)
      (l := f.details.generics)
      (htext.trans (List.append_assoc _ _ _).symm) (by simp [signatureOf, length_headerOf])
      (by simp [signatureOf, extentOf, length_headerOf])
  · exact Text.slice_part (x := x ++ ['(']) (l := (layout f).parameters) (by simpa using hopen)
      (by simp [hxlen])
      (by simp [hylen, hy]; omega)
  · exact Text.slice_part (x := y ++ [')']) (l := f.details.suffix) (by simpa using hclose)
      (by simp [hylen])
      (by simp [hzlen, hz]; omega)
  · rw [hbody]
    exact Text.slice_part (x := z) (l := '\x7b' :: body) (r := []) (by simpa using hlast) hzlen
      (by rw [hstop, hlast]; simp)

theorem Bracketed.extent_eq (hf : Writable f) (hd : Document.scan (layout f).render = .ok d)
    (hb : Bracketed f d) :
    extent? d (signatureOf f + (headerOf f).length) = some (extentOf f) := by
  have hparted := parted hf
  obtain ⟨opening, hopening, -, -, ho, -⟩ := Document.partner_brackets hd hb.parameters
  obtain ⟨body, hbody, -, -, hs, -⟩ := Document.partner_brackets hd hb.body
  have hparen : opening.char = '(' := by
    have hchar := (Document.char_of_mem_tokens hd hopening).1
    rw [ho, hparted.opening] at hchar
    exact (Option.some.inj hchar).symm
  have hbrace : body.char = '\x7b' := by
    have hchar := (Document.char_of_mem_tokens hd hbody).1
    rw [hs, hparted.body_start] at hchar
    exact (Option.some.inj hchar).symm
  have hstop : 0 < (extentOf f).bodyStop := by
    obtain ⟨hlt, -⟩ := List.getElem?_eq_some_iff.mp hparted.opening
    rw [bodyStop_extentOf]
    omega
  refine extent_eq_some_iff.mpr ⟨opening, body, (extentOf f).bodyStop - 1, ?_, hparen,
    ho ▸ hb.parameters, ?_, by rw [hbrace]; decide, hs ▸ hb.body, ho.symm, hs.symm, by omega⟩
  · refine Document.nextToken_eq_some hd hopening ?_ (by rw [hparen]; decide) fun u hu hle hlt => ?_
    · rw [ho]
      simp only [extentOf]
      omega
    · rcases hb.generics u hu with h | h <;> omega
  · refine Document.nextToken_eq_some hd hbody ?_ (by rw [hbrace]; decide) fun u hu hle hlt => ?_
    · rw [hs]
      simp only [extentOf]
      omega
    · obtain ⟨hne, hne'⟩ := hb.suffix u hu (by omega) (by omega)
      simp [hne, hne']

end

end Item

end Graft
