import Graft.Proofs.Item.Span

set_option autoImplicit false

/-!
The search for functions with its look-ups checked. A bracket without a partner, a line without an
end, a comment or literal that is not there and a search that does not come to an end are answers of
their own here. In a source that was scanned none of them is ever given: the checked search ends,
with the functions that the other one finds, and these follow each other.
-/

namespace Graft.Item

/-- What a look-up can miss. -/
inductive Miss where
  | partner (bracket : Nat)
  | mask (index : Nat)
  | newline (offset : Nat)
  | unfinished
  deriving DecidableEq, Repr

namespace Miss

@[simp] theorem ok_bind {α β : Type} (a : α) (f : α → Except Miss β) :
    (Except.ok a >>= f) = f a := rfl

theorem filterAuxM_eq_ok {α : Type} {f : α → Except Miss Bool} {p : α → Bool} {l : List α}
    (h : ∀ a ∈ l, f a = .ok (p a)) (acc : List α) :
    l.filterAuxM f acc = .ok ((l.filter p).reverse ++ acc) := by
  induction l generalizing acc with
  | nil => rfl
  | cons a l ih =>
    rw [List.filterAuxM, h a (by simp), ok_bind, ih fun b hb => h b (by simp [hb])]
    cases hp : p a <;> simp [hp]

theorem filterM_eq_ok {α : Type} {f : α → Except Miss Bool} {p : α → Bool} {l : List α}
    (h : ∀ a ∈ l, f a = .ok (p a)) : l.filterM f = .ok (l.filter p) := by
  rw [List.filterM, filterAuxM_eq_ok h, ok_bind, List.append_nil, List.reverse_reverse]
  rfl

theorem mapM_eq_ok {α β : Type} {f : α → Except Miss β} {g : α → β} {l : List α}
    (h : ∀ a ∈ l, f a = .ok (g a)) : l.mapM f = .ok (l.map g) := by
  induction l with
  | nil => rfl
  | cons a l ih =>
    rw [List.mapM_cons, h a (by simp), ok_bind, ih fun b hb => h b (by simp [hb])]
    rfl

end Miss

open Miss (ok_bind filterM_eq_ok mapM_eq_ok)

namespace Document

def partnerOf (d : Document) (offset : Nat) : Except Miss Nat :=
  match d.partner? offset with
  | some n => .ok n
  | none => .error (.partner offset)

def maskOf (d : Document) (offset : Int) : Except Miss (Option Span) :=
  let n := bisect (fun i => (d.masks.getD i default).start ≤ offset) 0 d.masks.size
  if n = 0 then .ok none
  else
    match d.masks[n - 1]? with
    | some s => .ok (if offset < s.stop then some s else none)
    | none => .error (.mask (n - 1))

def targetOf (d : Document) (start stop : Nat) : Except Miss (Option Text) := do
  let header := d.source.slice start stop
  let free (word : String) : Except Miss (List Nat) :=
    (keywords word header).filterM fun n => (d.maskOf ↑(start + n)).map fun mask => !mask.isSome
  let impls ← free "impl"
  let fns ← free "fn"
  return match impls.getLast?, fns with
    | some n, [] => implTarget? (header.drop (n + 4))
    | _, _ => none

def implsOfFrom (d : Document) : Nat → List Token → Except Miss (List (Nat × Text))
  | _, [] => .ok []
  | start, t :: ts => do
    let next := if t.char == '(' || t.char == ')' then start else t.offset + 1
    let target ← if t.char == '\x7b' then d.targetOf start t.offset else .ok none
    let rest ← implsOfFrom d next ts
    return match target with
      | some target => (t.offset, target) :: rest
      | none => rest

def implsOf (d : Document) : Except Miss (List (Nat × Text)) := d.implsOfFrom 0 d.tokens.toList

/-- The innermost block around an offset. The partners of all braces before it are looked up. -/
def blockOf (d : Document) (offset : Nat) : Except Miss (Option Nat) := do
  let around ← d.tokens.toList.filterM fun t =>
    if t.char == '\x7b' && t.offset < offset then (d.partnerOf t.offset).map (offset < ·)
    else .ok false
  return around.getLast?.map (·.offset)

variable {source : Text} {d : Document}

theorem partnerOf_eq_ok {a b : Nat} (h : d.partner? a = some b) : d.partnerOf a = .ok b := by
  rw [partnerOf, h]

section

variable (hd : scan source = .ok d)
include hd

theorem maskOf_eq_ok (offset : Int) : d.maskOf offset = .ok (d.maskAt? offset) := by
  obtain ⟨n, hle, hn, -⟩ := exists_masks_split hd offset
  simp only [maskOf, maskAt?, hn]
  split
  · rfl
  · have hlt : n - 1 < d.masks.size := by
      rw [← Array.length_toList]
      omega
    rw [Array.getElem?_eq_getElem hlt, Array.getD_eq_getD_getElem?, Array.getElem?_eq_getElem hlt]
    rfl

theorem targetOf_eq_ok (start stop : Nat) :
    d.targetOf start stop = .ok (d.headerTarget? start stop) := by
  have hfree : ∀ ns : List Nat,
      (ns.filterM fun n => (d.maskOf ↑(start + n)).map fun mask => !mask.isSome) =
      .ok (ns.filter fun n => !d.isMasked (start + n)) := fun ns =>
    filterM_eq_ok fun n _ => by rw [maskOf_eq_ok hd]; rfl
  simp only [targetOf, hfree, ok_bind]
  rfl

theorem implsOfFrom_eq_ok (start : Nat) (ts : List Token) :
    d.implsOfFrom start ts = .ok (d.implsFrom start ts) := by
  induction ts generalizing start with
  | nil => rfl
  | cons t ts ih =>
    simp only [implsOfFrom, implsFrom, ih, targetOf_eq_ok hd]
    by_cases hbrace : t.char = '\x7b'
    · simp only [hbrace, beq_self_eq_true, if_true, ok_bind]
      rfl
    · simp only [beq_iff_eq, hbrace, if_false, ok_bind]
      rfl

theorem implsOf_eq_ok : d.implsOf = .ok d.impls :=
  implsOfFrom_eq_ok hd 0 d.tokens.toList

theorem blockOf_eq_ok (offset : Nat) : d.blockOf offset = .ok (d.enclosing? offset) := by
  have haround := filterM_eq_ok (l := d.tokens.toList)
    (f := fun t => if t.char == '\x7b' && t.offset < offset then
      (d.partnerOf t.offset).map (offset < ·) else .ok false)
    (p := fun t => t.char == '\x7b' && t.offset < offset && (d.partner? t.offset).any (offset < ·))
      fun t ht => by
      by_cases hbefore : t.char = '\x7b' ∧ t.offset < offset
      · obtain ⟨b, hb⟩ := exists_partner hd ht (.inl hbefore.1)
        simp [hbefore, partnerOf_eq_ok hb, hb, Except.map]
      · have hbefore' : (t.char == '\x7b' && decide (t.offset < offset)) = false := by
          simpa using hbefore
        simp [hbefore']
  rw [blockOf, haround]
  rfl

end

end Document

namespace Function

open Document

def extentAt (d : Document) (headerStop : Nat) : Except Miss (Option Extent) := do
  match d.nextToken? headerStop "(\x7b;".toList with
  | none => return none
  | some opening =>
    if opening.char != '(' then return none
    let closing ← d.partnerOf opening.offset
    match d.nextToken? (closing + 1) "\x7b;".toList with
    | none => return none
    | some body =>
      if body.char == ';' then return none
      let bodyEnd ← d.partnerOf body.offset
      return some ⟨opening.offset, closing, body.offset, bodyEnd + 1⟩

def linesAbove (source : Text) : Nat → Nat → List PreludeLine → Except Miss (List PreludeLine)
  | _, 0, acc => .ok acc
  | 0, _ + 1, _ => .error .unfinished
  | fuel + 1, lineStart + 1, acc =>
    let previous := source.lineStart lineStart
    let line := Text.trim (source.slice previous lineStart)
    if isPrelude line then linesAbove source fuel previous (⟨previous, line⟩ :: acc) else .ok acc

def lineOf (source : Text) (offset : Nat) : Except Miss Text :=
  if '\n' ∈ source.drop offset then .ok (fullLine source offset) else .error (.newline offset)

def aboveOf (d : Document) (f : Found) : Except Miss (List PreludeLine) :=
  let lineStart := d.source.lineStart f.start
  if f.leads d then linesAbove d.source lineStart lineStart [] else .ok []

def textOf (d : Document) (keepDirectives : Bool) (f : Found) : Except Miss Text := do
  let lineStart := d.source.lineStart f.start
  let above ← aboveOf d f
  let comments := (above.filter fun l => (attribute? l.text).isNone).map (·.text)
  let directives := comments.filter isDirectiveComment
  if keepDirectives || directives.isEmpty then
    return d.source.slice (topOf above (if f.leads d then lineStart else f.start)) f.extent.bodyStop
  let kept ← (above.filter fun l => !directives.contains l.text).mapM fun l =>
    lineOf d.source l.offset
  return kept.flatten ++ d.source.slice lineStart f.extent.bodyStop

/-- The piece for a function and its directives, with what is looked up for them checked. -/
def construct (d : Document) (keepDirectives : Bool) (f : Found) :
    Except Miss (Function × Commands) := do
  let (p, commands) := build d keepDirectives f.start f.header f.extent
  let text ← textOf d keepDirectives f
  let block ← d.blockOf f.start
  let impls ← d.implsOf
  return ({ p with
    text
    details := { p.details with block, target := block.bind fun b => impls.lookup b } }, commands)

variable {source : Text} {d : Document}

theorem extentAt_eq_ok (hd : scan source = .ok d) (headerStop : Nat) :
    extentAt d headerStop = .ok (extent? d headerStop) := by
  unfold extentAt extent?
  cases hopening : d.nextToken? headerStop "(\x7b;".toList with
  | none => rfl
  | some opening =>
    by_cases hparen : opening.char = '('
    · obtain ⟨closing, hclosing⟩ := exists_partner hd (nextToken_spec hd hopening).1 (.inr hparen)
      simp only [hparen, partnerOf_eq_ok hclosing, hclosing, bne_self_eq_false, Bool.false_eq_true,
        if_false, ok_bind, Option.bind_eq_bind, Option.bind_some]
      cases hbody : d.nextToken? (closing + 1) "\x7b;".toList with
      | none => rfl
      | some body =>
        obtain ⟨hmem, -, hkind⟩ := nextToken_spec hd hbody
        by_cases hsemicolon : body.char = ';'
        · simp only [hsemicolon, Option.bind_some, beq_self_eq_true, if_true]
          rfl
        · obtain ⟨stop, hstop⟩ := exists_partner hd hmem (.inl (brace_of_mem hkind hsemicolon))
          simp only [beq_iff_eq, hsemicolon, partnerOf_eq_ok hstop, hstop, if_false, ok_bind,
            Option.bind_some]
          rfl
    · have hother : (opening.char != '(') = true := by simpa using hparen
      simp only [Option.bind_eq_bind, Option.bind_some, hother, if_true]
      rfl

theorem linesAbove_eq_ok (source : Text) {fuel lineStart : Nat} (hfuel : lineStart ≤ fuel)
    (acc : List PreludeLine) :
    linesAbove source fuel lineStart acc = .ok (preludeAbove source fuel lineStart acc) := by
  induction fuel generalizing lineStart acc with
  | zero =>
    obtain rfl : lineStart = 0 := by omega
    rfl
  | succ fuel ih =>
    cases lineStart with
    | zero => rfl
    | succ lineStart =>
      have hprevious := lineStart_le source lineStart
      simp only [linesAbove, preludeAbove, Nat.add_sub_cancel, Nat.succ_ne_zero, if_false]
      split
      · exact ih (by omega) _
      · rfl

theorem lineOf_eq_ok {l : PreludeLine} {stop : Nat} (h : l.Stands source stop) :
    lineOf source l.offset = .ok (fullLine source l.offset) := by
  have hmem : '\n' ∈ source.drop l.offset := by
    rw [List.mem_iff_getElem?]
    exact ⟨stop - l.offset, by rw [List.getElem?_drop, Nat.add_sub_cancel' h.le, h.newline]⟩
  rw [lineOf, if_pos hmem]

theorem aboveOf_eq_ok (d : Document) (f : Found) : aboveOf d f = .ok (f.above d) := by
  unfold aboveOf Found.above
  split
  · exact linesAbove_eq_ok d.source (Nat.le_refl _) []
  · rfl

theorem textOf_eq_ok (hd : scan source = .ok d) (keepDirectives : Bool) {f : Found}
    (hf : Site d f.start f.header f.extent) :
    textOf d keepDirectives f = .ok (build d keepDirectives f.start f.header f.extent).1.text := by
  have hsource := (of_scan hd).1
  have hlines : ∀ l ∈ f.above d, lineOf d.source l.offset = .ok (fullLine d.source l.offset) := by
    intro l hl
    by_cases hlead : f.leads d
    · obtain ⟨stop, hstands, -⟩ :=
        (Found.above_spec hd (hsource ▸ (Found.lt_length hf).le) hlead).1 l hl
      rw [hsource]
      exact lineOf_eq_ok hstands
    · simp [Found.above, hlead] at hl
  have hkept : ∀ q : PreludeLine → Bool,
      ((f.above d).filter q).mapM (fun l => lineOf d.source l.offset) =
      .ok (((f.above d).filter q).map fun l => fullLine d.source l.offset) := fun q =>
    mapM_eq_ok fun l hl => hlines l (List.mem_of_mem_filter hl)
  have htext : (build d keepDirectives f.start f.header f.extent).1.text =
      let directives :=
        (((f.above d).filter fun l => (attribute? l.text).isNone).map (·.text)).filter
        isDirectiveComment
      if keepDirectives || directives.isEmpty then d.source.slice (f.top d) f.extent.bodyStop
      else ((f.above d).filter fun l => !directives.contains l.text).flatMap
        (fun l => fullLine d.source l.offset) ++
        d.source.slice (d.source.lineStart f.start) f.extent.bodyStop := by
    unfold Found.top topOf
    rfl
  rw [htext]
  simp only [textOf, aboveOf_eq_ok, hkept, ok_bind, List.flatMap_def]
  split <;> rfl

theorem construct_eq_ok (hd : scan source = .ok d) (keepDirectives : Bool) {f : Found}
    (hf : Site d f.start f.header f.extent) :
    construct d keepDirectives f = .ok (build d keepDirectives f.start f.header f.extent) := by
  simp only [construct, textOf_eq_ok hd keepDirectives hf, blockOf_eq_ok hd,
    implsOf_eq_ok hd, ok_bind]
  rfl

def Found.region (f : Found) : Span := ⟨f.start, f.extent.bodyStop⟩

/-- The search with all its look-ups checked. It gives the claimed regions, the last one first, and
what was entered for them. -/
def collectFrom (d : Document) (keepDirectives : Bool) :
    Nat → Nat → List Span → Extraction Details →
    Except Miss (List Span × Extraction Details)
  | 0, _, _, _ => .error .unfinished
  | fuel + 1, position, claimed, found =>
    match Header.find? d.source position with
    | none => .ok (claimed, found)
    | some (start, h) => do
      match ← d.maskOf start with
      | some mask => collectFrom d keepDirectives fuel mask.stop claimed found
      | none =>
        let next := start + h.length
        if claimed.any (fun s => s.start ≤ start && start < s.stop) || !canStart d.source start then
          collectFrom d keepDirectives fuel next claimed found
        else
          match ← extentAt d next with
          | none => collectFrom d keepDirectives fuel next claimed found
          | some e =>
            let (f, c) ← construct d keepDirectives ⟨start, h, e⟩
            collectFrom d keepDirectives fuel next (⟨start, e.bodyStop⟩ :: claimed) (found.add f c)

def collect (d : Document) (keepDirectives : Bool) : Except Miss (List Span × Extraction Details) :=
  collectFrom d keepDirectives (d.source.length + 1) 0 [] {}

theorem header_length {t : Text} {h : Header} (hr : Header.read? t = some h) :
    0 < h.length ∧ h.length ≤ t.length := by
  obtain ⟨w, rest, rfl, rfl, -, -⟩ := Header.read_spec hr
  have hword : "fn".toList.length = 2 := rfl
  simp only [Header.Written.header, Header.Written.text, List.length_append, hword]
  exact ⟨by omega, by omega⟩

theorem collectFrom_eq_ok (hd : scan source = .ok d) (keepDirectives : Bool) {fuel position : Nat}
    (hposition : position ≤ source.length) (hfuel : source.length < fuel + position)
    (claimed : List Span) (x : Extraction Details) :
    collectFrom d keepDirectives fuel position claimed x =
      .ok (((foundFrom d fuel position claimed).map Found.region).reverse ++ claimed,
        extractFrom d keepDirectives fuel position claimed x) := by
  have hsource := (of_scan hd).1
  -- Every step moves on and none leaves the source, so that the search ends before its fuel does.
  induction fuel generalizing position claimed x with
  | zero => omega
  | succ fuel ih =>
    cases hfind : Header.find? d.source position with
    | none => simp only [collectFrom, foundFrom, extractFrom, hfind, List.map_nil, List.reverse_nil,
      List.nil_append]
    | some result =>
      obtain ⟨start, h⟩ := result
      obtain ⟨hle, hread, hfollow⟩ := Header.find_spec hfind
      obtain ⟨hpos, hlength⟩ := header_length hread
      rw [List.length_drop, hsource] at hlength
      cases hmask : d.maskAt? start with
      | some mask =>
        obtain ⟨hmem, -, hlt⟩ := maskAt_spec hd hmask
        have hstop := (mask_inside hd hmem).2
        simp only [collectFrom, foundFrom, extractFrom, hfind, maskOf_eq_ok hd, hmask, ok_bind]
        exact ih hstop (by omega) claimed x
      | none =>
        simp only [collectFrom, foundFrom, extractFrom, hfind, maskOf_eq_ok hd, hmask, ok_bind]
        split
        · exact ih (by omega) (by omega) claimed x
        · rename_i hskip
          rw [extentAt_eq_ok hd, ok_bind]
          cases hextent : extent? d (start + h.length) with
          | none => exact ih (by omega) (by omega) claimed x
          | some e =>
            simp only [Bool.not_eq_true, Bool.or_eq_false_iff, Bool.not_eq_false'] at hskip
            have hsite : Site d start h e := ⟨hread, hfollow, hmask, hskip.2, hextent⟩
            simp only [construct_eq_ok hd keepDirectives (f := ⟨start, h, e⟩) hsite, ok_bind]
            rw [ih (by omega) (by omega)]
            simp [Found.region]

theorem collect_eq_ok (hd : scan source = .ok d) (keepDirectives : Bool) :
    collect d keepDirectives =
      .ok (((found d).map Found.region).reverse, extract d keepDirectives) := by
  have hlength : d.source.length = source.length := by rw [(of_scan hd).1]
  rw [collect, collectFrom_eq_ok hd keepDirectives (Nat.zero_le _) (by omega), List.append_nil]
  rfl

/-- Where a function stands: its claimed part lies in the source, starts outside comments and
literals and ends with a brace, and its brackets are partners. -/
structure Found.Located (d : Document) (f : Found) : Prop where
  lt : f.region.start < f.region.stop
  le : f.region.stop ≤ d.source.length
  unmasked : ∀ m ∈ d.masks.toList, f.region.start < m.start ∨ m.stop ≤ f.region.start
  last : d.source[f.region.stop - 1]? = some '\x7d'
  inside : f.start + f.header.length ≤ f.extent.opening ∧ f.extent.closing < f.extent.bodyStart
  parameters : d.Brackets '(' ')' f.extent.opening f.extent.closing
  body : d.Brackets '\x7b' '\x7d' f.extent.bodyStart (f.region.stop - 1)

theorem Found.located (hd : scan source = .ok d) {f : Found}
    (hf : Site d f.start f.header f.extent) :
    f.Located d := by
  have hsource := (of_scan hd).1
  obtain ⟨hparameters, hbody⟩ := extent_tokens hd hf.extent
  obtain ⟨h₁, h₂, h₃, h₄, -⟩ := extent_spec hd hf.extent
  refine ⟨?_, hsource ▸ stop_le_length hd hf.extent, fun m hm => ?_,
    hsource ▸ (extent_brackets hd hf.extent).2.2.2, ⟨h₁, h₃⟩, hparameters, hbody⟩
  · simp only [region]
    omega
  · by_contra hinside
    simp only [region] at hinside
    have hmask : d.maskAt? f.start = some m := maskAt_of_mem hd hm (by omega) (by omega)
    rw [hf.unmasked] at hmask
    contradiction

end Function

open Graft.Item.Function

/-- In a source that was scanned the search for functions and `impl` blocks misses nothing that it
looks up and comes to an end. The claimed parts of the functions stand one after the other, none in
another, and the piece for each starts in the source, not after its header, and ends where the
claimed part does. -/
theorem collect_total {source : Text} {d : Document} (hd : Document.scan source = .ok d)
    (keepDirectives : Bool) :
    d.implsOf = .ok d.impls ∧
    collect d keepDirectives =
      .ok (((found d).map Found.region).reverse, extract d keepDirectives) ∧
    (∀ f ∈ found d, f.Located d) ∧
    ((found d).map Found.region).Pairwise (fun a b => a.stop ≤ b.start) ∧
    ∀ p ∈ (extract d keepDirectives).table.values, ∃ f ∈ found d, p.name = f.header.name ∧
      0 ≤ p.start ∧ p.start ≤ f.region.start ∧ f.region.start < p.stop ∧ p.stop = f.region.stop ∧
      p.stop ≤ source.length := by
  have hsource := (Document.of_scan hd).1
  have hlocated : ∀ f ∈ found d, f.Located d := fun f hf => Found.located hd (site_of_mem hf)
  refine ⟨Document.implsOf_eq_ok hd, collect_eq_ok hd keepDirectives, hlocated, ?_, ?_⟩
  · exact List.pairwise_map.mpr (found_pairwise hd)
  · intro p hp
    obtain ⟨f, hf, rfl⟩ := exists_found hp
    obtain ⟨n, hn, hle, -⟩ := start_build d keepDirectives f.start f.header f.extent
    have hstop : (build d keepDirectives f.start f.header f.extent).1.stop = f.region.stop := rfl
    have hlt := (hlocated f hf).lt
    have hlast := (hlocated f hf).le
    rw [hsource] at hlast
    refine ⟨f, hf, rfl, by omega, ?_, by omega, hstop, by omega⟩
    rw [hn, Found.region]
    exact Int.ofNat_le.mpr hle

/-- A method with a directive and a commented-out function above it and a function in its body, then
a second function: the comment and the inner function claim nothing. -/
theorem collect_total_nested :
    ∃ d : Document, Document.scan ("impl A \x7b\n    // @rename e\n    // fn a() \x7b\x7d\n" ++
        "    fn b() \x7b fn c() \x7b\x7d \x7d\n\x7d\nfn d() \x7b\x7d\n").toList = .ok d ∧
      d.implsOf = .ok [(7, ['A'])] ∧
      collect d false = .ok ([⟨70, 79⟩, ⟨47, 67⟩], extract d false) ∧
      (∀ f ∈ found d, f.Located d) ∧
      (extract d false).table.values.map (fun p => (p.name, p.start, p.stop)) =
        [(['b'], 9, 67), (['d'], 70, 79)] := by
  let source : Text := ("impl A \x7b\n    // @rename e\n    // fn a() \x7b\x7d\n" ++
    "    fn b() \x7b fn c() \x7b\x7d \x7d\n\x7d\nfn d() \x7b\x7d\n").toList
  have hfound : (Document.scan source).toOption.map
      (fun d => (d.impls, ((found d).map Found.region).reverse)) =
      some ([(7, ['A'])], [⟨70, 79⟩, ⟨47, 67⟩]) := by
    decide +kernel
  have hentered : ∀ d ∈ (Document.scan source).toOption,
      (extract d false).table.values.map (fun p => (p.name, p.start, p.stop)) =
        [(['b'], 9, 67), (['d'], 70, 79)] := by
    decide +kernel
  obtain ⟨d, hd, heq⟩ := Option.map_eq_some_iff.mp hfound
  obtain ⟨himpls, hregions⟩ := Prod.mk.inj heq
  have hscan := Document.scan_of_toOption hd
  obtain ⟨hblocks, hcollect, hlocated, -, -⟩ := collect_total hscan false
  exact ⟨d, hscan, himpls ▸ hblocks, hregions ▸ hcollect, hlocated, hentered d hd⟩

end Graft.Item
