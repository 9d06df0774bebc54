import Graft.Proofs.Attached
import Graft.Proofs.Item.Readback
import Graft.Proofs.Item.Spared

set_option autoImplicit false

/-!
Functions as they are declared: line comments, then `fn`, a name, generics, parameters, a suffix and
a body. The first parenthesis behind the name is taken for the parameters and the first brace or
semicolon behind these for the body or its absence. So a declaration is read as it was meant just
when its generics hold no bracket or semicolon and its suffix no semicolon, and directives then
rewrite the parts they name and no others.
-/

namespace Graft.Item

open Reconcile Graft.Item.Function

namespace Document

variable {source : Text} {d : Document}

theorem maskAt_of_lexes {x y : Text} {c : Char} {ls : List Lexeme} (hd : scan (x ++ c :: y) = .ok d)
    (hx : Lexes none x ls (c :: y)) (hc : Lexeme.afterMask (lastOr none x) (c :: y) = .ok none) :
    d.maskAt? x.length = none := by
  cases hmask : d.maskAt? x.length with
  | none => rfl
  | some mask =>
    obtain ⟨hmem, hstart, hstop⟩ := maskAt_spec hd hmask
    obtain ⟨-, -, -, hmasks, -⟩ := of_scan hd
    rw [hmasks, hx.read_append, Lexeme.read, hc] at hmem
    simp only [masksFrom_append, masksFrom, hx.text_eq, Nat.zero_add, List.mem_append] at hmem
    rcases hmem with hmem | hmem
    · have hle := (mem_masksFrom (fun u hu => hx.masked_ne_nil hu) hmem).2
      rw [hx.text_eq] at hle
      omega
    · have hle := (le_of_mem_masksFrom hmem).1
      omega

end Document

/-- A function as it is declared. -/
structure Declaration where
  lines : List Text := []
  name : Text
  generics : Text := []
  parameters : Text
  /-- What stands between the parameters and the body. -/
  suffix : Text
  body : Text

namespace Declaration

def text (w : Declaration) : Text :=
  Text.stacked w.lines ++ ("fn ".toList ++ w.name ++ (w.generics ++
    '(' :: (w.parameters ++ ')' :: (w.suffix ++ w.body))))

def start (w : Declaration) : Nat := (Text.stacked w.lines).length

def nameStop (w : Declaration) : Nat := w.start + (3 + w.name.length)

def opening (w : Declaration) : Nat := w.nameStop + w.generics.length

def closing (w : Declaration) : Nat := w.opening + 1 + w.parameters.length

def bodyStart (w : Declaration) : Nat := w.closing + 1 + w.suffix.length

structure Formed (w : Declaration) : Prop where
  lines : ∀ l ∈ w.lines, "//".toList <+: l ∧ l.trim = l ∧ '\n' ∉ l
  name : Header.IsName w.name
  generics : ∀ c ∈ w.generics.head?, Header.isNameChar c = false
  body : w.body.head? = some '\x7b'

/-- What a scan has to say for the parts to be the parameters, the body, the generics and the
suffix. -/
structure Paired (w : Declaration) (d : Document) : Prop where
  parameters : d.partner? w.opening = some w.closing
  body : d.partner? w.bodyStart = some (w.text.length - 1)
  /-- A bracket in the generics has its partner there. -/
  generics : ∀ ab ∈ d.partners,
    (w.nameStop ≤ ab.1 ∧ ab.1 < w.opening ↔ w.nameStop ≤ ab.2 ∧ ab.2 < w.opening)
  suffix : ∀ t ∈ d.tokens.toList, w.closing < t.offset → t.offset < w.bodyStart → t.char ≠ '\x7b'

def Clear (w : Declaration) (d : Document) : Prop :=
  (∀ t ∈ d.tokens.toList, ¬(w.nameStop ≤ t.offset ∧ t.offset < w.opening)) ∧
    ∀ t ∈ d.tokens.toList, w.closing < t.offset → t.offset < w.bodyStart → t.char ≠ ';'

instance (w : Declaration) (d : Document) : Decidable (w.Paired d) :=
  decidable_of_iff (_ ∧ _ ∧ _ ∧ _) ⟨fun ⟨h₁, h₂, h₃, h₄⟩ => ⟨h₁, h₂, h₃, h₄⟩,
    fun h => ⟨h.parameters, h.body, h.generics, h.suffix⟩⟩

instance (w : Declaration) (d : Document) : Decidable (w.Clear d) :=
  inferInstanceAs
    (Decidable ((∀ t ∈ d.tokens.toList, ¬(w.nameStop ≤ t.offset ∧ t.offset < w.opening)) ∧
    ∀ t ∈ d.tokens.toList, w.closing < t.offset → t.offset < w.bodyStart → t.char ≠ ';'))

def function (w : Declaration) : Function where
  name := w.name
  comments := w.lines
  parameterText := some w.parameters
  body := some w.body
  details := { generics := w.generics, suffix := w.suffix }

variable {w : Declaration} {d : Document}

theorem start_eq (w : Declaration) : signatureOf w.function = w.start := by
  simp [signatureOf, linesOf, function, start]

theorem printed_header (w : Declaration) :
    (headerOf w.function).printed = "fn ".toList ++ w.name := rfl

theorem nameStop_eq (w : Declaration) :
    signatureOf w.function + (headerOf w.function).length = w.nameStop := by
  rw [start_eq, length_headerOf, printed_header, List.length_append]
  rfl

theorem Formed.writable (hw : w.Formed) : Writable w.function where
  comments := hw.lines
  attributes := by simp [function]
  header := {
    visibility := by simp [headerOf, function]
    qualifiers := by simp [headerOf, function]
    abi := Or.inl rfl
    name := hw.name
    length := rfl }
  generics := hw.generics
  body := by
    obtain ⟨rest, hrest⟩ := List.head?_eq_some_iff.mp hw.body
    exact ⟨rest, congrArg some hrest⟩

theorem extent_eq (w : Declaration) : extentOf w.function =
    ⟨w.opening, w.closing, w.bodyStart, (layout w.function).render.length⟩ := by
  have hstop := nameStop_eq w
  rw [Extent.mk.injEq]
  refine ⟨?_, ?_, ?_, rfl⟩
  · rw [opening, ← hstop]
    rfl
  · rw [closing, opening, ← hstop]
    rfl
  · rw [bodyStart, closing, opening, ← hstop]
    rfl

section

variable (hw : w.Formed) (hd : Document.scan w.text = .ok d) (hp : w.Paired d)
include hw hd hp

theorem exists_body : ∃ b, w.body = b ++ ['\x7d'] := by
  obtain ⟨x, hx⟩ : ∃ x, x = Text.stacked w.lines ++ ("fn ".toList ++ w.name ++ (w.generics ++
      '(' :: (w.parameters ++ ')' :: w.suffix))) := ⟨_, rfl⟩
  have htext : w.text = x ++ w.body := by
    rw [text, hx]
    simp
  have hlength : x.length = w.bodyStart := by
    rw [hx]
    simp [bodyStart, closing, opening, nameStop, start]
    omega
  have hbrace : w.text[w.bodyStart]? = some '\x7b' := by
    rw [htext, ← hlength, List.getElem?_append_right (Nat.le_refl _), Nat.sub_self,
      ← List.head?_eq_getElem?]
    exact hw.body
  obtain ⟨c, hc, hopener⟩ := Document.char_of_partner hd hbrace hp.body
  have hne : w.body ≠ [] := by
    intro hnil
    have hhead := hw.body
    rw [hnil] at hhead
    contradiction
  obtain ⟨rfl, -⟩ | ⟨-, habsurd⟩ := Document.opener_cases hopener
  · rw [← List.getLast?_eq_getElem?, htext, List.getLast?_append_of_ne_nil _ hne] at hc
    exact ⟨_, (List.dropLast_append_getLast? _ hc).symm⟩
  · simp at habsurd

theorem dropFinalNewlines_body : Layout.dropFinalNewlines w.body = w.body := by
  obtain ⟨b, hb⟩ := exists_body hw hd hp
  rw [hb]
  exact Text.dropLastWhile_concat b (by decide)

theorem render_function : (layout w.function).render = w.text := by
  have hbody := dropFinalNewlines_body hw hd hp
  have hlines : linesOf w.function = w.lines := by simp [linesOf, function]
  rw [render_layout hw.writable.body, printed_header, hlines]
  simp [function, layout, text, hbody]

end

theorem clear_of_extent (hd : Document.scan w.text = .ok d) (hp : w.Paired d) {e : Extent}
    (he : extent? d w.nameStop = some e) (hopening : e.opening = w.opening) : w.Clear d := by
  obtain ⟨opening, body, stop, hfirst, -, hclosing, hnext, hsemicolon, -, ho, -, -⟩ :=
    extent_eq_some_iff.mp he
  constructor
  · intro t ht ⟨hle, hlt⟩
    obtain ⟨-, hstructural⟩ := Document.char_of_mem_tokens hd ht
    -- Only a closing bracket is passed over, and its partner would be found first.
    have hopens : ∀ u ∈ d.tokens.toList, w.nameStop ≤ u.offset → u.offset < w.opening →
        u.char ∉ "(\x7b;".toList := by
      intro u hu hle hlt hkind
      have := Document.nextToken_le hd hfirst hu (by omega) hkind
      omega
    have hclose : t.char = '\x7d' ∨ t.char = ')' := by
      have hkind := hopens t ht hle hlt
      simp [Document.isStructural] at hstructural hkind
      tauto
    obtain ⟨a, ha⟩ := Document.exists_pair hd ht hclose
    obtain ⟨s, hs, u, -, rfl, -, hkind⟩ := (Document.matching_of_scan hd).kind _ ha
    obtain ⟨hle', hlt'⟩ := (hp.generics _ ha).mpr ⟨hle, hlt⟩
    refine hopens s hs hle' hlt' ?_
    obtain ⟨hs, -⟩ | ⟨hs, -⟩ := hkind <;> simp [hs]
  · intro t ht hlt hlt' hchar
    rw [← ho, hopening, hp.parameters] at hclosing
    rw [← Option.some.inj hclosing] at hnext
    obtain ⟨hbody, hbodyle, hkind⟩ := Document.nextToken_spec hd hnext
    have hle := Document.nextToken_le hd hnext ht (by omega) (by rw [hchar]; decide)
    refine hp.suffix body hbody (by omega) (by omega) ?_
    simp at hkind
    tauto

def found (w : Declaration) : Found :=
  ⟨w.start, headerOf w.function, ⟨w.opening, w.closing, w.bodyStart, w.text.length⟩⟩

section

variable (hw : w.Formed) (hd : Document.scan w.text = .ok d)
include hw hd

theorem maskAt_start : d.maskAt? w.start = none := by
  have hcomments : ∀ l ∈ w.lines, Lexeme.IsLineComment l := by
    intro l hl
    obtain ⟨⟨v, rfl⟩, -, hnewline⟩ := hw.lines l hl
    exact ⟨v, rfl, fun hv => hnewline (by simp [hv])⟩
  obtain ⟨ls, hls, -⟩ := lexes_comments hcomments none
  exact Document.maskAt_of_lexes hd (hls _)
    (Lexeme.afterMask_of_head (by decide) (by decide) (by decide) _ _)

variable (hp : w.Paired d)
include hp

theorem extent_of_clear (hc : w.Clear d) :
    extent? d w.nameStop = some ⟨w.opening, w.closing, w.bodyStart, w.text.length⟩ := by
  have hrender := render_function hw hd hp
  have hextent := extent_eq w
  rw [hrender] at hextent
  have hb : Bracketed w.function d := {
    free := by rw [start_eq]; exact maskAt_start hw hd
    parameters := by rw [hextent]; exact hp.parameters
    body := by rw [hextent]; exact hp.body
    generics := by
      intro u hu
      rw [nameStop_eq, hextent]
      have := hc.1 u hu
      simp only
      omega
    suffix := by
      rw [hextent]
      intro u hu hlt hlt'
      exact ⟨hp.suffix u hu hlt hlt', hc.2 u hu hlt hlt'⟩ }
  rw [← nameStop_eq, hb.extent_eq hw.writable (by rwa [hrender]), hextent]

theorem exists_extent {keepDirectives : Bool} {g : Function}
    (hg : g ∈ (extract d keepDirectives).table.values) (hstart : g.start = 0) :
    ∃ e, extent? d w.nameStop = some e ∧
      g.details.generics = w.text.slice w.nameStop e.opening := by
  have hrender := render_function hw hd hp
  have hsource := (Document.of_scan hd).1
  obtain ⟨start, h, e, hsite, rfl⟩ := exists_site hg
  have htop : (⟨start, h, e⟩ : Found).top d = 0 := by
    have := Found.start_piece d ⟨start, h, e⟩
    exact Int.ofNat_eq_zero.mp (this.symm.trans hstart)
  obtain rfl : start = signatureOf w.function := by
    by_contra hne
    exact top_ne_zero_of_ne hw.writable (by rwa [hrender]) (g := ⟨start, h, e⟩) hsite hne htop
  obtain rfl : h = headerOf w.function := by
    have hread := read_signature hw.writable
    rw [hrender, ← hsource, hsite.header] at hread
    exact Option.some.inj hread
  refine ⟨e, by rw [← nameStop_eq]; exact hsite.extent, ?_⟩
  rw [← nameStop_eq, ← hsource]
  rfl

theorem found_eq : writtenAs w.function = w.found := by
  rw [writtenAs, found, start_eq, extent_eq, render_function hw hd hp]

theorem found_of_clear (hc : w.Clear d) : Function.found d = [w.found] := by
  have hrender := render_function hw hd hp
  have hd' : Document.scan (layout w.function).render = .ok d := by rwa [hrender]
  have hsource := (Document.of_scan hd).1
  have hsite := site_signature hw.writable hd' (by rw [start_eq]; exact maskAt_start hw hd)
    (by rw [nameStop_eq]; exact extent_of_clear hw hd hp hc)
  rw [start_eq] at hsite
  refine IsOnly.found_eq hd ⟨hsite, ?_, ?_⟩
  · rw [hsource]
    rfl
  · intro m hm hmask _
    rw [hsource]
    by_contra hsome
    obtain ⟨h, hread⟩ := Option.ne_none_iff_exists'.mp hsome
    have hle := comments_le_of_read hw.writable hd' hmask (by rwa [hrender])
    exact absurd hm (Nat.not_lt.mpr hle)

theorem extract_of_clear (hc : w.Clear d) (keepDirectives : Bool) :
    ∃ g, (extract d keepDirectives).table.entries = [(w.name, g)] ∧
      g.start = 0 ∧ g.stop = w.text.length ∧
      g.details.generics = w.generics ∧ g.parameterText = some w.parameters ∧
      g.details.suffix = w.suffix ∧ g.body = some w.body ∧
      (extract d keepDirectives).commandsOf w.name = Commands.ofComments w.lines := by
  have hd' : Document.scan (layout w.function).render = .ok d := by rwa [render_function hw hd hp]
  have hfound := found_eq hw hd hp
  obtain ⟨-, htop⟩ := above_writtenAs hw.writable hd'
  obtain ⟨hgenerics, hparameters, hsuffix, hbody⟩ := parts_writtenAs hw.writable hd'
  have hremarks := remarks_writtenAs hw.writable hd'
  rw [hfound] at htop hgenerics hparameters hsuffix hbody hremarks
  obtain ⟨t, ht⟩ := w.found.exists_build_eq d keepDirectives
  have hstart := w.found.start_piece d
  have hstop := w.found.stop_piece d
  have hname : (w.found.piece d).name = w.name := rfl
  rw [hremarks] at ht
  rw [htop] at hstart
  -- The piece is looked at through these fields only.
  generalize w.found.piece d = q at ht hgenerics hparameters hsuffix hbody hstart hstop hname
  obtain ⟨g, hg⟩ : ∃ g : Function, g = { q with
    text := if keepDirectives || (w.lines.filter isDirectiveComment).isEmpty then q.text else t } :=
      ⟨_, rfl⟩
  have hextract : extract d keepDirectives =
      Extraction.addAll {} [Occurrence.entered ⟨g, w.lines⟩] := by
    rw [extract_eq, found_of_clear hw hd hp hc, List.map_singleton, ht, Occurrence.entered, hg]
    rfl
  obtain ⟨hentries, hcommands⟩ := Extraction.addAll_single (⟨g, w.lines⟩ : Occurrence Details)
  rw [← hextract] at hentries hcommands
  have hname' : g.name = w.name := by rw [hg]; exact hname
  simp only [hname'] at hentries hcommands
  refine ⟨g, hentries, ?_, ?_, ?_, ?_, ?_, ?_, hcommands⟩ <;> rw [hg]
  · exact hstart
  · exact hstop
  · exact hgenerics
  · exact hparameters
  · exact hsuffix
  · rw [← dropFinalNewlines_body hw hd hp]
    exact hbody

end

end Declaration

/-- The parameters after directives: those asked for, if all of them are parameters. -/
def parametersAfter (parameters : Text) (c : Commands) : Text :=
  ((c.params.map splitParams).filter (·.all vocabulary.isParameter)).elim parameters
    (Text.join ", ".toList)

def suffixAfter (suffix : Text) (c : Commands) : Text :=
  (c.returnType.map (withReturnType suffix)).getD suffix

theorem parts_decorated (p : Function) (c : Commands) :
    let n := (decorated rules p c).1
    n.details = p.details ∧ n.parameterText = p.parameterText ∧ n.parameters = p.parameters ∧
      n.body = p.body := by
  let view (f : Function) := (f.details, f.parameterText, f.parameters, f.body)
  have hview : view (decorated rules p c).1 = view p := by
    rw [decorated, attemptIf_view view, named, attemptIf_view view, attemptIf_view view]
    · intro f v g h
      simp only [rules, Vocabulary.rename, Option.ite_none_right_eq_some] at h
      rw [← Option.some.inj h.2]
    · intro f v g h
      obtain ⟨_, rfl⟩ := exists_of_setVisibility h
      rfl
    · intro f v g h
      simp only [rules, Vocabulary.decorate, Option.ite_none_right_eq_some] at h
      rw [← Option.some.inj h.2]
  simpa [view] using hview

theorem parts_dressed (p : Function) (c : Commands) :
    (dressed rules p c).1.details = p.details ∧ (dressed rules p c).1.body = p.body ∧
      (layout (dressed rules p c).1).parameters = parametersAfter (layout p).parameters c := by
  obtain ⟨hdetails, htext, hparameters, hbody⟩ := parts_decorated p c
  rw [dressed_eq, parametersAfter]
  generalize decorated rules p c = n at *
  cases c.params with
  | none => exact ⟨hdetails, hbody, by simp [attemptIf, layout, htext, hparameters]⟩
  | some v =>
    have hrule : rules.setParameters n.1 (splitParams v) =
        if (splitParams v).all vocabulary.isParameter then
          some { n.1 with parameters := splitParams v, parameterText := none } else none := rfl
    by_cases hall : (splitParams v).all vocabulary.isParameter
    · rw [if_pos hall] at hrule
      simp only [attemptIf, attempt, hrule]
      exact ⟨hdetails, hbody, by simp [layout, Option.filter, hall]⟩
    · rw [if_neg hall] at hrule
      simp only [attemptIf, attempt, hrule]
      exact ⟨hdetails, hbody, by simp [layout, Option.filter, hall, htext, hparameters]⟩

theorem parts_applyCommands (p : Function) (c : Commands) :
    (applyCommands rules p c).1.details.generics = p.details.generics ∧
      (layout (applyCommands rules p c).1).parameters = parametersAfter (layout p).parameters c ∧
      (applyCommands rules p c).1.details.suffix = suffixAfter p.details.suffix c ∧
      (applyCommands rules p c).1.body = p.body := by
  obtain ⟨hdetails, hbody, hparameters⟩ := parts_dressed p c
  rw [applyCommands_eq]
  generalize (dressed rules p c).1 = n at *
  refine ⟨?_, hparameters, ?_, hbody⟩ <;> rw [← hdetails] <;> rfl

namespace Declaration

variable {w : Declaration} {d : Document}

/-- A function with the parts of a declaration is written with them, whatever it takes the place of
and whatever directives were carried out on it. -/
theorem render_applyCommands (hw : w.Formed) (hdrop : Layout.dropFinalNewlines w.body = w.body)
    {g : Function} (hgenerics : g.details.generics = w.generics)
    (hparameters : g.parameterText = some w.parameters) (hsuffix : g.details.suffix = w.suffix)
    (hbody : g.body = some w.body) (base : Option Function) (c : Commands) :
    let q := (applyCommands rules (adopt base g) c).1
    (layout q).render = Text.stacked (linesOf q) ++ ((headerOf q).printed ++ (w.generics ++
      '(' :: (parametersAfter w.parameters c ++ ')' :: (suffixAfter w.suffix c ++ w.body)))) := by
  intro q
  obtain ⟨hgenerics', hparameters', hsuffix', hbody'⟩ := parts_applyCommands (adopt base g) c
  have hlist : (layout (adopt base g)).parameters = w.parameters := by
    simp [layout, adopt, hparameters]
  have hrest : ∃ rest, q.body = some ('\x7b' :: rest) := by
    obtain ⟨rest, hrest⟩ := List.head?_eq_some_iff.mp hw.body
    exact ⟨rest, by rw [hbody', ← hrest]; exact hbody⟩
  rw [render_layout hrest, hgenerics', hparameters', hsuffix', hbody', hlist]
  simp [adopt, hgenerics, hsuffix, hbody, hdrop]

/-- A declaration is read as one function, from its first line to its last brace, with its own
generics and parameters, and is written with these after any directives, exactly if no bracket or
semicolon stands in its generics and no semicolon in its suffix. -/
theorem extract_iff_clear (hw : w.Formed) (hd : Document.scan w.text = .ok d) (hp : w.Paired d)
    (keepDirectives : Bool) :
    (∃ g, (extract d keepDirectives).table.entries = [(w.name, g)] ∧ g.start = 0 ∧
      g.stop = w.text.length ∧
      g.details.generics = w.generics ∧ g.parameterText = some w.parameters ∧
      (extract d keepDirectives).commandsOf w.name = Commands.ofComments w.lines ∧
      ∀ base c, let q := (applyCommands rules (adopt base g) c).1
        (layout q).render = Text.stacked (linesOf q) ++ ((headerOf q).printed ++ (w.generics ++
          '(' :: (parametersAfter w.parameters c ++ ')' :: (suffixAfter w.suffix c ++ w.body))))) ↔
      w.Clear d := by
  constructor
  · rintro ⟨g, hentries, hstart, -, hgenerics, -⟩
    have hg : g ∈ (extract d keepDirectives).table.values := by simp [Table.values, hentries]
    obtain ⟨e, he, hslice⟩ := exists_extent hw hd hp hg hstart
    obtain ⟨hle, -⟩ := extent_spec hd he
    have hopen := (List.getElem?_eq_some_iff.mp (extent_brackets hd he).1).1
    -- The generics have their length only if the parameters are found where they stand.
    refine clear_of_extent hd hp he ?_
    have hlength := congrArg List.length (hslice.symm.trans hgenerics)
    rw [Text.length_slice (Nat.le_of_lt hopen)] at hlength
    rw [opening]
    omega
  · intro hc
    obtain ⟨g, hentries, hstart, hstop, hgenerics, hparameters, hsuffix, hbody, hcommands⟩ :=
      extract_of_clear hw hd hp hc keepDirectives
    exact ⟨g, hentries, hstart, hstop, hgenerics, hparameters, hcommands,
      render_applyCommands hw (dropFinalNewlines_body hw hd hp) hgenerics hparameters hsuffix hbody⟩

/-- A declaration with bounds, an array and a `where` clause; only its return type is rewritten. -/
theorem extract_iff_clear_returns :
    let w : Declaration := {
      lines := ["// @returns u16".toList]
      name := ['f']
      generics := "<T: Into<u8>, const N: usize>".toList
      parameters := "x: T, y: [u8; N]".toList
      suffix := " -> (u8, T) where T: Copy ".toList
      body := "\x7b x \x7d".toList }
    ∃ d g front, w.Formed ∧ Document.scan w.text = .ok d ∧ w.Paired d ∧ w.Clear d ∧
      (extract d false).table.entries = [(['f'], g)] ∧
      (layout (applyCommands rules (adopt none g) ((extract d false).commandsOf ['f'])).1).render =
        front ++ ("<T: Into<u8>, const N: usize>(x: T, y: [u8; N])".toList ++
          " -> u16 where T: Copy \x7b x \x7d".toList) := by
  intro w
  have hw : w.Formed := {
    lines := List.forall_mem_singleton.mpr (by decide +kernel)
    name := ⟨⟨'f', [], rfl, rfl⟩, List.forall_mem_singleton.mpr rfl⟩
    generics := by
      intro c hc
      obtain rfl := Option.some.inj hc
      decide
    body := rfl }
  have hok : (Document.scan w.text).isOk ∧
      w.generics ++ '(' :: (parametersAfter w.parameters (Commands.ofComments w.lines) ++
        ')' :: (suffixAfter w.suffix (Commands.ofComments w.lines) ++ w.body)) =
      "<T: Into<u8>, const N: usize>(x: T, y: [u8; N])".toList ++
        " -> u16 where T: Copy \x7b x \x7d".toList := by
    decide +kernel
  have hscan : ∀ d ∈ (Document.scan w.text).toOption, w.Paired d ∧ w.Clear d := by decide +kernel
  obtain ⟨d, hd⟩ := Document.exists_of_isOk hok.1
  obtain ⟨hp, hc⟩ := hscan d (by rw [hd]; rfl)
  obtain ⟨g, hentries, -, -, -, -, hcommands, hrender⟩ := (extract_iff_clear hw hd hp false).mpr hc
  obtain ⟨q, hq⟩ : ∃ q, q = (applyCommands rules (adopt none g) (Commands.ofComments w.lines)).1 :=
    ⟨_, rfl⟩
  have hwritten := hrender none (Commands.ofComments w.lines)
  simp only [← hq] at hwritten
  refine ⟨d, g, Text.stacked (linesOf q) ++ (headerOf q).printed, hw, hd, hp, hc, hentries, ?_⟩
  rw [← hok.2, List.append_assoc, ← hwritten, hq, ← hcommands]

/-- The parentheses of a bound are taken for the parameters, and what stands behind them for the
return type. -/
theorem extract_takes_bound :
    let w : Declaration := {
      name := ['f']
      generics := "<F: Fn(u8) -> u8>".toList
      parameters := "x: F".toList
      suffix := " -> u8 ".toList
      body := "\x7b x(1) \x7d".toList }
    ∃ d g, w.Formed ∧ Document.scan w.text = .ok d ∧ w.Paired d ∧
      (extract d false).table.entries = [(['f'], g)] ∧
      g.details.generics = "<F: Fn".toList ∧ g.parameterText = some "u8".toList ∧
      (layout (applyCommands rules (adopt none g) { returnType := some "u16".toList }).1).render =
        "fn f<F: Fn(u8) -> u16 \x7b x(1) \x7d".toList := by
  intro w
  have hw : w.Formed := {
    lines := by simp [w]
    name := ⟨⟨'f', [], rfl, rfl⟩, List.forall_mem_singleton.mpr rfl⟩
    generics := by
      intro c hc
      obtain rfl := Option.some.inj hc
      decide
    body := rfl }
  have hok : (Document.scan w.text).isOk := by decide +kernel
  have hscan : ∀ d ∈ (Document.scan w.text).toOption, w.Paired d ∧
      ∃ g ∈ ((extract d false).table.entries.map (·.2)).head?,
        (extract d false).table.keys = [['f']] ∧
        g.details.generics = "<F: Fn".toList ∧ g.parameterText = some "u8".toList ∧
        (layout (applyCommands rules (adopt none g) { returnType := some "u16".toList }).1).render =
          "fn f<F: Fn(u8) -> u16 \x7b x(1) \x7d".toList := by
    decide +kernel
  obtain ⟨d, hd⟩ := Document.exists_of_isOk hok
  obtain ⟨hp, g, hg, hkeys, hgenerics, hparameters, hrender⟩ := hscan d (by rw [hd]; rfl)
  refine ⟨d, g, hw, hd, hp, ?_, hgenerics, hparameters, hrender⟩
  obtain ⟨⟨k, f⟩, hentries, hk⟩ := List.map_eq_singleton_iff.mp hkeys
  rw [hentries] at hg ⊢
  obtain rfl := Option.some.inj hg
  rw [← hk]

end Declaration

end Graft.Item
