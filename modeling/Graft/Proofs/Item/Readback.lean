import Graft.Proofs.Item.Written

set_option autoImplicit false

/-!
Reading back a function that was written from its parts. The brackets lead back to every part as
long as the signature is the first header outside comments and literals; an attribute can hold the
start of another one, which then takes the signature along.
-/

namespace Graft

namespace Item

open Graft.Item.Function

namespace Function

variable {source : Text} {d : Document}

theorem foundFrom_claimed (hd : Document.scan source = .ok d) {s : Span} {claimed : List Span}
    (hs : s ∈ claimed) (hstop : source.length ≤ s.stop) {fuel position : Nat}
    (hposition : s.start ≤ position) :
    foundFrom d fuel position claimed = [] := by
  rw [List.eq_nil_iff_forall_not_mem]
  intro f hf
  obtain ⟨hle, hfree⟩ := (foundFrom_ordered d fuel position claimed).1 f hf
  have hclaimed := hfree s hs (hposition.trans hle)
  have hlt := Found.lt_length (site_of_mem_foundFrom hf)
  rw [(Document.of_scan hd).1] at hlt
  omega

/-- The first header outside comments and literals, if its function reaches to the end. -/
structure IsOnly (d : Document) (f : Found) : Prop where
  site : Site d f.start f.header f.extent
  stop : f.extent.bodyStop = d.source.length
  first : ∀ m < f.start, d.maskAt? m = none → Header.canFollow (Header.precedes d.source m) →
    Header.read? (d.source.drop m) = none

/-- From a header outside comments and literals the search finds that header or one before it; a
mask that it comes to first ends before the header. -/
theorem find_unmasked (hd : Document.scan source = .ok d) {m position : Nat} {h : Header}
    (hmask : d.maskAt? m = none) (hfollow : Header.canFollow (Header.precedes d.source m))
    (hread : Header.read? (d.source.drop m) = some h) (hposition : position ≤ m) :
    ∃ start h', Header.find? d.source position = some (start, h') ∧ start ≤ m ∧
      ∀ mask, d.maskAt? start = some mask → mask.stop ≤ m := by
  obtain ⟨start, h', hfind, hle⟩ := Header.find_of_read hposition hfollow hread
  refine ⟨start, h', hfind, hle, fun mask hs => ?_⟩
  obtain ⟨hmem, hstart, hstop⟩ := Document.maskAt_spec hd hs
  by_contra hlt
  rw [Document.maskAt_of_mem hd hmem (by omega) (by omega)] at hmask
  contradiction

theorem IsOnly.foundFrom_eq (hd : Document.scan source = .ok d) {f : Found} (hf : IsOnly d f)
    {fuel position : Nat} (hposition : position ≤ f.start) (hfuel : f.start < fuel + position) :
    foundFrom d fuel position [] = [f] := by
  induction fuel generalizing position with
  | zero => omega
  | succ fuel ih =>
    obtain ⟨start, h, hfind, hle, hbefore⟩ :=
      find_unmasked hd hf.site.unmasked hf.site.follows hf.site.header hposition
    obtain ⟨hfrom, hread, hfollow⟩ := Header.find_spec hfind
    cases hmask : d.maskAt? start with
    | some mask =>
      have hstop := Document.lt_stop_of_maskAt hmask
      simp only [foundFrom, hfind, hmask]
      exact ih (hbefore mask hmask) (by omega)
    | none =>
      obtain rfl : start = f.start := by
        by_contra hne
        rw [hf.first start (by omega) hmask hfollow] at hread
        contradiction
      obtain rfl : f.header = h := Option.some.inj (hf.site.header.symm.trans hread)
      have hrest : foundFrom d fuel (f.start + f.header.length) [⟨f.start, f.extent.bodyStop⟩] =
          [] :=
        foundFrom_claimed hd (List.mem_singleton_self _) (by rw [hf.stop, (Document.of_scan hd).1])
          (Nat.le_add_right _ _)
      simp only [foundFrom, hfind, hmask, List.any_nil, hf.site.canStart, Bool.not_true,
        Bool.or_self, Bool.false_eq_true, if_false, hf.site.extent, hrest]

theorem IsOnly.found_eq (hd : Document.scan source = .ok d) {f : Found} (hf : IsOnly d f) :
    found d = [f] := by
  have hlt := Found.lt_length hf.site
  exact hf.foundFrom_eq hd (Nat.zero_le _) (by omega)

end Function

def writtenAs (f : Function) : Found := ⟨signatureOf f, headerOf f, extentOf f⟩

/-- Every part of a function is there again. -/
structure ReadsBack (f g : Function) : Prop where
  start : g.start = 0
  stop : g.stop = (layout f).render.length
  text : g.text = (layout f).render
  name : g.name = f.name
  visibility : g.visibility = f.visibility
  qualifiers : g.details.qualifiers = f.details.qualifiers
  abi : g.details.abi = f.details.abi
  generics : g.details.generics = f.details.generics
  parameters : g.parameterText = some (layout f).parameters
  suffix : g.details.suffix = f.details.suffix
  body : g.body = some (Layout.dropFinalNewlines (f.body.getD []))
  comments : g.comments = f.comments
  attributes : g.decorators = f.decorators
  indent : g.details.indent = []

section

variable {f : Function} {d : Document}

theorem attribute_of_comment {c : Text} (hc : "//".toList <+: c) : attribute? c = none := by
  obtain ⟨r, rfl⟩ := hc
  rfl

theorem lineStart_signature (hf : Writable f) :
    (layout f).render.lineStart (signatureOf f) = signatureOf f := by
  rw [render_layout hf.body]
  exact Text.lineStart_append (l := []) (Text.last_of_stacked _) (by simp) _

theorem attribute_brackets {a : Text} (ha : '\n' ∉ a) :
    attribute? ("#[".toList ++ a ++ "]".toList) = some a := by
  simp [attribute?, ha]

theorem isPrelude_of_mem (hf : Writable f) {l : Text} (hl : l ∈ linesOf f) :
    isPrelude l ∧ l.trim = l ∧ '\n' ∉ l := by
  rcases List.mem_append.mp hl with hl | hl
  · obtain ⟨hslashes, htrim, hnewline⟩ := hf.comments l hl
    refine ⟨?_, htrim, hnewline⟩
    have hstarts : l.startsWith "//".toList := List.isPrefixOf_iff_prefix.mpr hslashes
    simp only [isPrelude, hstarts, Bool.or_true, Bool.true_or]
  · obtain ⟨a, ha, rfl⟩ := List.mem_map.mp hl
    obtain ⟨-, hnewline, -⟩ := hf.attributes a ha
    refine ⟨?_, ?_, by simpa using hnewline⟩
    · simp only [isPrelude, attribute_brackets hnewline, Option.isSome_some, Bool.true_or]
    have hstart : Text.trimStart ("#[".toList ++ a ++ "]".toList) =
        "#[".toList ++ a ++ "]".toList := rfl
    rw [Text.trim, hstart]
    exact Text.dropLastWhile_concat _ (by decide)

section

variable (hf : Writable f) (hd : Document.scan (layout f).render = .ok d)

include hf hd

theorem leads_writtenAs : (writtenAs f).leads d := by
  rw [Found.leads, (Document.of_scan hd).1]
  simp only [writtenAs, lineStart_signature hf, Text.slice_self]
  rfl

theorem above_writtenAs :
    ((writtenAs f).above d).map (·.text) = linesOf f ∧ (writtenAs f).top d = 0 := by
  have hfuel : (linesOf f).length ≤ signatureOf f := Text.length_le_flatMap_concat _ _
  obtain ⟨es, hes, htexts, htop⟩ :=
    preludeAbove_stacked (fun l hl => isPrelude_of_mem hf hl) (render_layout hf.body)
    hfuel []
  have habove : (writtenAs f).above d = es := by
    rw [Found.above, if_pos (leads_writtenAs hf hd), (Document.of_scan hd).1]
    simp only [writtenAs, lineStart_signature hf, prelude]
    simpa [signatureOf] using hes
  rw [Found.top, habove, if_pos (leads_writtenAs hf hd), (Document.of_scan hd).1]
  simp only [writtenAs, lineStart_signature hf]
  exact ⟨htexts, htop⟩

theorem indent_writtenAs : ((writtenAs f).piece d).details.indent = [] := by
  have heq : ((writtenAs f).piece d).details.indent = if (writtenAs f).leads d then
      d.source.slice (d.source.lineStart (signatureOf f)) (signatureOf f) else [] := rfl
  rw [heq, if_pos (leads_writtenAs hf hd), (Document.of_scan hd).1, lineStart_signature hf,
    Text.slice_self]

theorem remarks_writtenAs : (writtenAs f).remarks d = f.comments := by
  have heq : (writtenAs f).remarks d =
      (((writtenAs f).above d).map (·.text)).filter fun l => (attribute? l).isNone := by
    rw [List.filter_map]
    rfl
  rw [heq, (above_writtenAs hf hd).1, linesOf, List.filter_append, List.filter_eq_self.mpr,
    List.filter_eq_nil_iff.mpr, List.append_nil]
  · intro l hl
    obtain ⟨a, ha, rfl⟩ := List.mem_map.mp hl
    rw [attribute_brackets (hf.attributes a ha).2.1]
    simp
  · intro c hc
    rw [attribute_of_comment (hf.comments c hc).1]
    rfl

theorem parts_writtenAs :
    ((writtenAs f).piece d).details.generics = f.details.generics ∧
      ((writtenAs f).piece d).parameterText = some (layout f).parameters ∧
      ((writtenAs f).piece d).details.suffix = f.details.suffix ∧
      ((writtenAs f).piece d).body = some (Layout.dropFinalNewlines (f.body.getD [])) := by
  have hsource := (Document.of_scan hd).1
  have hparted := parted hf
  have hdedent : ∀ t, Indentation.dedentTail t ((writtenAs f).piece d).details.indent =
      t := fun t => by
    rw [indent_writtenAs hf hd, Indentation.dedentTail_nil]
  refine ⟨?_, ?_, ?_, ?_⟩
  · have heq : ((writtenAs f).piece d).details.generics =
      d.source.slice (signatureOf f + (headerOf f).length) (extentOf f).opening := rfl
    rw [heq, hsource, hparted.generics]
  · have heq : ((writtenAs f).piece d).parameterText = some (Indentation.dedentTail
      (d.source.slice ((extentOf f).opening + 1) (extentOf f).closing)
        ((writtenAs f).piece d).details.indent) := rfl
    rw [heq, hdedent, hsource, hparted.parameters]
  · have heq : ((writtenAs f).piece d).details.suffix = Indentation.dedentTail
      (d.source.slice ((extentOf f).closing + 1) (extentOf f).bodyStart)
        ((writtenAs f).piece d).details.indent := rfl
    rw [heq, hdedent, hsource, hparted.suffix]
  · have heq : ((writtenAs f).piece d).body = some (Indentation.dedentTail
      (d.source.slice (extentOf f).bodyStart (extentOf f).bodyStop)
        ((writtenAs f).piece d).details.indent) := rfl
    rw [heq, hdedent, hsource, hparted.body]

end

theorem undirected_writtenAs (hf : Printable f) (hd : Document.scan (layout f).render = .ok d) :
    (writtenAs f).Undirected d := by
  intro l hl hnone
  have hmem : l.text ∈ linesOf f := by
    rw [← (above_writtenAs hf.toWritable hd).1]
    exact List.mem_map_of_mem hl
  rcases List.mem_append.mp hmem with hmem | hmem
  · exact hf.undirected _ hmem
  · obtain ⟨a, ha, heq⟩ := List.mem_map.mp hmem
    rw [← heq, attribute_brackets (hf.attributes a ha).2.1] at hnone
    simp at hnone

theorem readsBack (hf : Printable f) (hd : Document.scan (layout f).render = .ok d) :
    ReadsBack f ((writtenAs f).piece d) := by
  obtain ⟨habove, htop⟩ := above_writtenAs hf.toWritable hd
  obtain ⟨hgenerics, hparameters, hsuffix, hbody⟩ := parts_writtenAs hf.toWritable hd
  have hsource := (Document.of_scan hd).1
  have hstop : (writtenAs f).extent.bodyStop = (layout f).render.length := bodyStop_extentOf f
  have hattributes : ((writtenAs f).piece d).decorators = f.decorators := by
    have heq : ((writtenAs f).piece d).decorators =
        (((writtenAs f).above d).map (·.text)).filterMap fun l => (attribute? l).map Text.trim := by
      rw [List.filterMap_map]
      rfl
    have hnone : f.comments.filterMap (fun l => (attribute? l).map Text.trim) = [] := by
      rw [List.filterMap_eq_nil_iff]
      intro c hc
      rw [attribute_of_comment (hf.comments c hc).1]
      rfl
    rw [heq, habove, linesOf, List.filterMap_append, hnone, List.nil_append, List.filterMap_map]
    have hsome : ∀ a ∈ f.decorators, ((fun l => (attribute? l).map Text.trim) ∘
        fun a => "#[".toList ++ a ++ "]".toList) a = some a := by
      intro a ha
      obtain ⟨htrim, hnewline, -⟩ := hf.attributes a ha
      rw [Function.comp_apply, attribute_brackets hnewline, Option.map_some, htrim]
    rw [List.filterMap_congr hsome, List.filterMap_some]
  exact {
    start := by rw [Found.start_piece, htop]; rfl
    stop := by rw [Found.stop_piece, hstop]
    text := by
      rw [Found.text_piece, htop, hsource, hstop, Text.slice_eq, List.drop_zero, Nat.sub_zero,
        List.take_length]
    name := rfl
    visibility := rfl
    qualifiers := rfl
    abi := rfl
    generics := hgenerics
    parameters := hparameters
    suffix := hsuffix
    body := hbody
    comments := by rw [(undirected_writtenAs hf hd).comments_eq, remarks_writtenAs hf.toWritable hd]
    attributes := hattributes
    indent := indent_writtenAs hf.toWritable hd }

theorem Header.precedes_append (x y : Text) : precedes (x ++ y) x.length = x.getLast? := by
  rcases List.eq_nil_or_concat x with rfl | ⟨x, c, rfl⟩
  · rfl
  · simp [precedes]

theorem canFollow_of_blank {c : Char} (hc : Text.isBlank c) : Header.canFollow (some c) := by
  simp [Header.canFollow, Lexeme.isWord_of_isBlank hc, Lexeme.ne_of_isBlank hc (e := ':') rfl]

theorem canFollow_signature (hf : Writable f) :
    Header.canFollow (Header.precedes (layout f).render (signatureOf f)) := by
  rw [render_layout hf.body, signatureOf, Header.precedes_append]
  cases hc : (Text.stacked (linesOf f)).getLast? with
  | none => rfl
  | some c =>
    rw [Text.last_of_stacked _ c hc]
    exact canFollow_of_blank (by decide)

theorem read_signature (hf : Writable f) :
    Header.read? ((layout f).render.drop (signatureOf f)) = some (headerOf f) := by
  rw [(parted hf).rest]
  refine hf.header.read_printed fun c hc => ?_
  cases hgenerics : f.details.generics with
  | nil =>
    rw [hgenerics] at hc
    obtain rfl : c = '(' := by simpa using hc.symm
    decide
  | cons x xs =>
    rw [hgenerics] at hc
    obtain rfl : x = c := by simpa using hc
    exact hf.generics x (by rw [hgenerics]; rfl)

theorem site_signature (hf : Writable f) (hd : Document.scan (layout f).render = .ok d)
    (hfree : d.maskAt? (signatureOf f) = none) {e : Extent}
    (he : extent? d (signatureOf f + (headerOf f).length) = some e) :
    Site d (signatureOf f) (headerOf f) e := by
  have hsource := (Document.of_scan hd).1
  refine ⟨by rw [hsource, read_signature hf], by rw [hsource]; exact canFollow_signature hf,
    hfree, ?_, he⟩
  have hblank : Text.isBlankText ((layout f).render.slice (signatureOf f) (signatureOf f)) := by
    rw [Text.slice_self]
    rfl
  rw [canStart, hsource, lineStart_signature hf, hblank, Bool.true_or]

theorem site_writtenAs (hf : Printable f) (hd : Document.scan (layout f).render = .ok d)
    (hb : Bracketed f d) :
    Site d (signatureOf f) (headerOf f) (extentOf f) :=
  site_signature hf.toWritable hd hb.free (hb.extent_eq hf.toWritable hd)

end

theorem keywordsFrom_ne_nil {word x y : Text} {prev : Option Char} {n : Nat} {c : Char}
    (hword : word ≠ []) (hprev : Header.canFollow (lastOr prev x)) (hc : Text.isWord c = false) :
    keywordsFrom word prev n (x ++ (word ++ c :: y)) ≠ [] := by
  induction x generalizing prev n with
  | nil =>
    obtain ⟨w, ws, rfl⟩ := List.exists_cons_of_ne_nil hword
    have hprefix : (w :: ws).isPrefixOf (w :: (ws ++ c :: y)) :=
      List.isPrefixOf_iff_prefix.mpr ⟨c :: y, rfl⟩
    have hnext : ((w :: (ws ++ c :: y)).drop (w :: ws).length).head? = some c := by simp
    simp only [List.nil_append, List.cons_append, keywordsFrom]
    rw [lastOr_nil] at hprev
    rw [hprev, hprefix, hnext]
    simp [hc]
  | cons x xs ih =>
    simp only [List.cons_append, keywordsFrom]
    have hrest : keywordsFrom word (some x) (n + 1) (xs ++ (word ++ c :: y)) ≠ [] :=
      ih (by rwa [lastOr_cons] at hprev)
    split
    · simp
    · exact hrest

theorem lexes_comments {cs : List Text} (hcs : ∀ c ∈ cs, Lexeme.IsLineComment c)
    (prev : Option Char) :
    ∃ ls, (∀ z, Lexes prev (Text.stacked cs) ls z) ∧ ∀ n i, i < (Text.stacked cs).length →
      (Text.stacked cs)[i]? = some '\n' ∨
        ∃ s ∈ Document.masksFrom n ls, s.start ≤ n + i ∧ n + i < s.stop := by
  induction cs generalizing prev with
  | nil => exact ⟨[], fun z => .nil prev z, by simp [Text.stacked]⟩
  | cons c cs ih =>
    rw [List.forall_mem_cons] at hcs
    obtain ⟨ls, hls, hmasks⟩ := ih hcs.2 (some '\n')
    rw [Text.stacked_cons]
    refine ⟨.masked c :: .plain '\n' :: ls, fun z => ?_, fun n i hi => ?_⟩
    · refine .masked hcs.1.ne_nil ?_ (.plain (Lexeme.afterMask_blank (by decide) _ _) (hls z))
      obtain ⟨v, rfl, hv⟩ := hcs.1
      have hdrop : (v ++ '\n' :: (Text.stacked cs ++ z)).dropWhile (· != '\n') =
          '\n' :: (Text.stacked cs ++ z) := by
        rw [List.dropWhile_append_of_pos fun x hx => by simpa using ne_of_mem_of_not_mem hx hv]
        rfl
      simp [Lexeme.afterMask, hdrop]
    · rw [Document.masksFrom, Document.masksFrom]
      rcases Nat.lt_trichotomy i c.length with hlt | rfl | hgt
      · exact Or.inr ⟨⟨n, n + c.length⟩, by simp, by simp, by simpa using hlt⟩
      · exact Or.inl (by simp)
      · obtain ⟨j, rfl⟩ : ∃ j, i = c.length + (j + 1) := ⟨i - c.length - 1, by omega⟩
        have hget : (c ++ '\n' :: Text.stacked cs)[c.length + (j + 1)]? =
            (Text.stacked cs)[j]? := by
          rw [List.getElem?_append_right (by omega), Nat.add_sub_cancel_left,
            List.getElem?_cons_succ]
        rw [List.length_append, List.length_cons] at hi
        rcases hmasks (n + c.length + 1) j (by omega) with h | ⟨s, hs, hstart, hstop⟩
        · exact Or.inl (hget.trans h)
        · exact Or.inr ⟨s, by simp [hs], by omega, by omega⟩

section

variable {f : Function} {d : Document} {m : Nat} {h : Header}

theorem comments_le_of_read (hf : Writable f) (hd : Document.scan (layout f).render = .ok d)
    (hmask : d.maskAt? m = none) (hread : Header.read? ((layout f).render.drop m) = some h) :
    (Text.stacked f.comments).length ≤ m := by
  by_contra hlt
  have hcomments : ∀ c ∈ f.comments, Lexeme.IsLineComment c := by
    intro c hc
    obtain ⟨⟨v, rfl⟩, -, hnewline⟩ := hf.comments c hc
    exact ⟨v, rfl, fun hv => hnewline (by simp [hv])⟩
  obtain ⟨ls, hls, hmasks⟩ := lexes_comments hcomments none
  obtain ⟨z, hz⟩ : ∃ z, (layout f).render = Text.stacked f.comments ++ z := by
    rw [render_layout hf.body, linesOf, Text.stacked_append, List.append_assoc]
    exact ⟨_, rfl⟩
  rcases hmasks 0 m (by omega) with hnewline | ⟨s, hs, hstart, hstop⟩
  · obtain ⟨c, cs, hdrop, hblank, -⟩ := (Header.leads_of_read hread).exists_cons
    have hget : (layout f).render[m]? = some c := by
      have := congrArg (·[0]?) hdrop
      simpa using this
    rw [hz, List.getElem?_append_left (by omega), hnewline] at hget
    rw [← Option.some.inj hget] at hblank
    exact absurd hblank (by decide)
  · have hmem : s ∈ d.masks.toList := by
      obtain ⟨-, -, -, hmasks', -⟩ := Document.of_scan hd
      rw [hmasks', hz, (hls z).read_append]
      simp [Document.masksFrom_append, hs]
    rw [Document.maskAt_of_mem hd hmem (by omega) (by omega)] at hmask
    simp at hmask

theorem exists_attribute_at (hf : Writable f) {k : Nat} (hle : (Text.stacked f.comments).length ≤ k)
    (hlt : k < signatureOf f) :
    ∃ x a y, a ∈ f.decorators ∧ (layout f).render = x ++ ('#' :: '[' :: (a ++ ']' :: '\n' :: y)) ∧
      (∀ c ∈ x.getLast?, c = '\n') ∧ x.length ≤ k ∧ k ≤ x.length + (a.length + 3) := by
  have htext : Text.stacked (linesOf f) = Text.stacked f.comments ++
      Text.stacked (f.decorators.map fun a => "#[".toList ++ a ++ "]".toList) :=
    Text.stacked_append _ _
  have hlength := congrArg List.length htext
  rw [List.length_append] at hlength
  rw [signatureOf] at hlt
  have hwithin : k - (Text.stacked f.comments).length <
      (Text.stacked (f.decorators.map fun a => "#[".toList ++ a ++ "]".toList)).length := by omega
  obtain ⟨pre, l, post, hsplit, hpre, hl⟩ := Text.exists_line_of_lt hwithin
  obtain ⟨a, ha, rfl⟩ := List.mem_map.mp (show l ∈ f.decorators.map _ by rw [hsplit]; simp)
  refine ⟨Text.stacked (f.comments ++ pre), a,
    Text.stacked post ++ ((headerOf f).printed ++ (f.details.generics ++
    '(' :: ((layout f).parameters ++
      ')' :: (f.details.suffix ++ Layout.dropFinalNewlines (f.body.getD []))))),
    ha, ?_, Text.last_of_stacked _, ?_, ?_⟩
  · rw [render_layout hf.body, htext, hsplit]
    simp [Text.stacked_append, Text.stacked_cons]
  · rw [Text.stacked_append, List.length_append]
    omega
  · simp only [List.length_append, Text.stacked_append] at hl ⊢
    rw [show "#[".toList.length = 2 from rfl, show "]".toList.length = 1 from rfl] at hl
    omega

theorem keywords_attribute_ne_nil {t x a y q : Text} {g : Char} {k : Nat}
    (ht : t = x ++ ('#' :: '[' :: (a ++ ']' :: '\n' :: y))) (hxk : x.length ≤ k)
    (hkx : k ≤ x.length + (a.length + 3)) (hk : t.drop k = "fn".toList ++ g :: q)
    (hg : Text.isBlank g) (hfollow : Header.canFollow (Header.precedes t k)) :
    keywords "fn" a ≠ [] := by
  obtain ⟨j, rfl⟩ := Nat.exists_eq_add_of_le hxk
  rw [ht, List.drop_length_add_append] at hk
  cases j with
  | zero => simp at hk
  | succ j =>
    cases j with
    | zero => simp at hk
    | succ j =>
      simp only [List.drop_succ_cons] at hk
      have hj : j ≤ a.length := by
        by_contra hgt
        obtain rfl : j = a.length + 1 := by omega
        rw [List.drop_length_add_append] at hk
        simp at hk
      rw [List.drop_append_of_le_length hj] at hk
      -- The bracket that closes the attribute is no part of the keyword or the blank behind it.
      obtain ⟨cs, hcs⟩ : ∃ cs, a.drop j = "fn".toList ++ g :: cs := by
        have hk' : a.drop j ++ ']' :: '\n' :: y = ("fn".toList ++ [g]) ++ q := by simpa using hk
        rcases List.append_eq_append_iff.mp hk' with ⟨u, hu, hrest⟩ | ⟨u, hu, -⟩
        · cases u with
          | nil => exact ⟨[], by simpa using hu.symm⟩
          | cons c u =>
            have hmem : ']' ∈ "fn".toList ++ [g] := by
              rw [hu, ← (List.cons.inj hrest).1]
              simp
            have hne : g ≠ ']' := Lexeme.ne_of_isBlank hg (by decide)
            simp [hne.symm] at hmem
        · exact ⟨u, by simpa using hu⟩
      have hsplit : a = a.take j ++ ("fn".toList ++ g :: cs) := by rw [← hcs, List.take_append_drop]
      have hprev : Header.canFollow (lastOr none (a.take j)) := by
        by_cases hnil : a.take j = []
        · rw [hnil]
          rfl
        · have hfront : t = (x ++ "#[".toList ++ a.take j) ++ (a.drop j ++ ']' :: '\n' :: y) := by
            rw [ht]
            simp [← List.append_assoc (a.take j)]
          have hlength : (x ++ "#[".toList ++ a.take j).length = x.length + (j + 1 + 1) := by
            simp [Nat.min_eq_left hj]
          rw [hfront, ← hlength, Header.precedes_append,
            List.getLast?_append_of_ne_nil _ hnil] at hfollow
          rwa [lastOr_of_ne_nil hnil]
      rw [keywords, hsplit]
      exact keywordsFrom_ne_nil (by decide) hprev (Lexeme.isWord_of_isBlank hg)

theorem signature_lt_of_read (hf : Writable f) (hle : (Text.stacked f.comments).length ≤ m)
    (hfollow : Header.canFollow (Header.precedes (layout f).render m))
    (hread : Header.read? ((layout f).render.drop m) = some h) : signatureOf f < m + h.length := by
  obtain ⟨w, rest, hdrop, rfl, hw, -⟩ := Header.read_spec hread
  obtain ⟨v, hv⟩ : ∃ v, v = w.visibility ++ (w.qualifiers ++ w.abi) := ⟨_, rfl⟩
  obtain ⟨g, gs, hgap⟩ := List.exists_cons_of_ne_nil hw.gap_ne_nil
  have hlength : w.header.length = v.length + (2 + (w.gap.length + w.name.length)) := by
    simp only [Header.Written.header, Header.Written.text, hv, List.length_append, Nat.add_assoc]
    rfl
  have hstart : (layout f).render.drop m = v ++ ("fn".toList ++ g :: (gs ++ (w.name ++ rest))) := by
    rw [hdrop]
    simp [Header.Written.text, hv, hgap]
  have hkeyword : (layout f).render.drop (m + v.length) =
      "fn".toList ++ g :: (gs ++ (w.name ++ rest)) := by
    rw [← List.drop_drop, hstart, List.drop_left]
  by_contra hge
  have hgaplen : 0 < w.gap.length := by rw [hgap]; simp
  obtain ⟨x, a, y, ha, htext, -, hxk, hkx⟩ :=
    exists_attribute_at hf (k := m + v.length) (by omega) (by omega)
  have hblank : Text.isBlank g := List.all_eq_true.mp hw.gap g (by rw [hgap]; simp)
  have hprev : Header.canFollow (Header.precedes (layout f).render (m + v.length)) := by
    by_cases hnil : v = []
    · rw [hnil]
      exact hfollow
    · have hlength : ((layout f).render.take m ++ v).length = m + v.length := by
        rw [List.length_append, List.length_take, Nat.min_eq_left]
        by_contra hgt
        rw [List.drop_eq_nil_of_le (by omega)] at hstart
        simp at hstart
      have hlast := Header.precedes_append ((layout f).render.take m ++ v)
        ("fn".toList ++ g :: (gs ++ (w.name ++ rest)))
      rw [List.append_assoc, ← hstart, List.take_append_drop, hlength,
        List.getLast?_append_of_ne_nil _ hnil, List.getLast?_eq_some_getLast hnil] at hlast
      have hclosed : Text.Closed v := hv ▸ hw.visibility.append (hw.qualifiers.append hw.abi)
      rw [hlast]
      exact canFollow_of_blank (hclosed _ (List.getLast?_eq_some_getLast hnil))
  exact keywords_attribute_ne_nil htext hxk hkx hkeyword hblank hprev (hf.attributes a ha).2.2

theorem start_ne_signature (hf : Printable f) (hd : Document.scan (layout f).render = .ok d)
    (hmask : d.maskAt? m = none) (hfollow : Header.canFollow (Header.precedes (layout f).render m))
    (hread : Header.read? ((layout f).render.drop m) = some h) (hm : m < signatureOf f)
    {fuel position : Nat} {claimed : List Span} (hposition : position ≤ m) :
    ∀ g ∈ foundFrom d fuel position claimed, g.start ≠ signatureOf f := by
  have hsource := (Document.of_scan hd).1
  induction fuel generalizing position claimed with
  | zero => simp [foundFrom]
  | succ fuel ih =>
    obtain ⟨start, h', hfind, hle, hbefore⟩ :=
      find_unmasked hd hmask (hsource ▸ hfollow) (hsource ▸ hread) hposition
    obtain ⟨-, hread', hfollow'⟩ := Header.find_spec hfind
    rw [hsource] at hread' hfollow'
    cases hmask' : d.maskAt? start with
    | some mask =>
      simp only [foundFrom, hfind, hmask']
      exact ih (hbefore mask hmask')
    | none =>
      have hnext :=
        signature_lt_of_read hf.toWritable (comments_le_of_read hf.toWritable hd hmask' hread')
        hfollow' hread'
      intro g hg
      simp only [foundFrom, hfind, hmask'] at hg
      split at hg
      · have := le_start_of_mem_foundFrom hg
        omega
      · rcases List.mem_cons.mp hg with rfl | hg
        · simp only
          omega
        · have := le_start_of_mem_foundFrom hg
          omega

theorem leads_eq_false (hf : Writable f) (hd : Document.scan (layout f).render = .ok d) {g : Found}
    (hg : Site d g.start g.header g.extent) (hlt : g.start < signatureOf f) :
    g.leads d = false := by
  have hsource := (Document.of_scan hd).1
  have hread := hg.header
  rw [hsource] at hread
  obtain ⟨x, a, y, ha, htext, hx, hxk, hkx⟩ :=
    exists_attribute_at hf (comments_le_of_read hf hd hg.unmasked hread) hlt
  obtain ⟨j, hj⟩ := Nat.exists_eq_add_of_le hxk
  obtain ⟨line, hline⟩ : ∃ line, line = '#' :: '[' :: (a ++ [']']) := ⟨_, rfl⟩
  have hjle : j ≤ line.length := by
    rw [hline]
    simp only [List.length_cons, List.length_append]
    omega
  have hsplit : (layout f).render = x ++ (line.take j ++ (line.drop j ++ '\n' :: y)) := by
    rw [htext, ← List.append_assoc (line.take j), List.take_append_drop, hline]
    simp
  have hnewline : '\n' ∉ line.take j := by
    intro hmem
    have := List.mem_of_mem_take hmem
    rw [hline] at this
    simp [(hf.attributes a ha).2.1] at this
  have hlength : x.length + (line.take j).length = g.start := by
    rw [List.length_take, Nat.min_eq_left hjle, hj]
  have hslice : (layout f).render.slice ((layout f).render.lineStart g.start) g.start =
      line.take j := by
    rw [hsplit, ← hlength, Text.lineStart_append hx hnewline, Text.slice_append_left]
  rw [Found.leads, hsource, hslice]
  cases j with
  | zero =>
    obtain ⟨c, cs, hdrop, -, -, hmark, -⟩ := (Header.leads_of_read hread).exists_cons
    rw [hj, htext, Nat.add_zero, List.drop_left] at hdrop
    exact absurd (List.cons.inj hdrop).1.symm hmark
  | succ j =>
    rw [hline, List.take_succ_cons]
    rfl

theorem top_ne_zero_of_ne (hf : Writable f)
    (hd : Document.scan (layout f).render = .ok d) {g : Found}
    (hg : Site d g.start g.header g.extent) (hne : g.start ≠ signatureOf f) : g.top d ≠ 0 := by
  have hsource := (Document.of_scan hd).1
  by_cases hlead : g.leads d
  · have hgt : signatureOf f < g.start := by
      by_contra hle
      rw [leads_eq_false hf hd hg (by omega)] at hlead
      contradiction
    have hlength := Found.lt_length hg
    have hlinele := lineStart_le (layout f).render g.start
    rw [hsource] at hlength
    -- The signature starts a line of its own, which is no comment and no attribute.
    obtain ⟨c, cs, hdrop, hblank, -, hmark⟩ :=
      (Header.leads_of_read (read_signature hf)).exists_cons
    have hchar : (layout f).render[signatureOf f]? = some c := by
      have := congrArg (·[0]?) hdrop
      simpa using this
    have hstarts : startsLine (layout f).render (signatureOf f) := by
      have := startsLine_lineStart (layout f).render (signatureOf f)
      rwa [lineStart_signature hf] at this
    have hline : signatureOf f < (layout f).render.lineStart g.start := by
      by_contra hle
      have hmem :=
        Text.mem_slice (show (layout f).render.lineStart g.start ≤ signatureOf f by omega) hgt hchar
      rw [Found.leads, hsource] at hlead
      rw [List.all_eq_true.mp hlead c hmem] at hblank
      simp at hblank
    rw [Found.top, if_pos hlead, hsource]
    cases habove : g.above d with
    | nil =>
      simp only [topOf]
      omega
    | cons first rest =>
      have hmem : first ∈ preludeAbove (layout f).render ((layout f).render.lineStart g.start)
          ((layout f).render.lineStart g.start) [] := by
        rw [Found.above, if_pos hlead, hsource, prelude] at habove
        rw [habove]
        simp
      rcases lt_offset_of_mem_preludeAbove hstarts hchar hblank hmark hline (by omega) hmem
        with hlt | hnil
      · simp only [topOf]
        omega
      · simp at hnil
  · intro hzero
    rw [Found.top, Found.above, if_neg hlead, if_neg hlead, topOf] at hzero
    rw [Found.leads, hzero] at hlead
    exact hlead rfl

/-- Reading a written function gives back one function, with all its parts, exactly if no header
starts in front of the signature outside comments and literals. -/
theorem extract_render_iff (hf : Printable f) (hd : Document.scan (layout f).render = .ok d)
    (hb : Bracketed f d) (keepDirectives : Bool) :
    (∃ g, (extract d keepDirectives).table.entries = [(f.name, g)] ∧ ReadsBack f g ∧
        ∀ n, (extract d keepDirectives).commandsOf n = {}) ↔
      ∀ m < signatureOf f,
        d.maskAt? m = none → Header.canFollow (Header.precedes (layout f).render m) →
        Header.read? ((layout f).render.drop m) = none := by
  have hsource := (Document.of_scan hd).1
  constructor
  · rintro ⟨g, hentries, hg, -⟩ m hm hmask hfollow
    by_contra hsome
    obtain ⟨h, hread⟩ := Option.ne_none_iff_exists'.mp hsome
    have hmem : (f.name, g) ∈ (extract d keepDirectives).table.entries := by simp [hentries]
    rw [extract_eq] at hmem
    obtain ⟨-, pre, c, post, hsplit, -⟩ := Extraction.mem_addAll.mp hmem
    obtain ⟨x, hx, hbuild⟩ := List.mem_map.mp (show (g, c) ∈ (found d).map fun f =>
      build d keepDirectives f.start f.header f.extent by rw [hsplit]; simp)
    have hstart : g.start = x.top d := by
      rw [← Found.start_piece]
      exact (congrArg (·.1.start) hbuild).symm
    refine top_ne_zero_of_ne hf.toWritable hd (site_of_mem hx) ?_
      (by rw [hg.start] at hstart; omega)
    exact start_ne_signature hf hd hmask hfollow hread hm (Nat.zero_le m) x hx
  · intro hfirst
    have honly : IsOnly d (writtenAs f) := ⟨site_writtenAs hf hd hb,
      by rw [hsource]; exact bodyStop_extentOf f, by rwa [hsource]⟩
    have hextract : extract d keepDirectives =
        Extraction.addAll {} [((writtenAs f).piece d, {})] := by
      rw [extract_eq, honly.found_eq hd, List.map_singleton, (undirected_writtenAs hf hd).build_eq]
    rw [hextract]
    exact ⟨(writtenAs f).piece d, rfl, readsBack hf hd,
      fun n => Extraction.commandsOf_addAll (by simp; rfl) n⟩

end

/-- A function with every part, among them an attribute and a comment that end like headers. -/
theorem extract_render_iff_full :
    ∃ f d g, Printable f ∧ Document.scan (layout f).render = .ok d ∧ Bracketed f d ∧
      (layout f).render = "// see pub\n#[cfg(a)]\n".toList ++
        "pub(crate) const unsafe extern \"C\" fn a<T>(x: T) -> T \x7b x \x7d".toList ∧
      (extract d false).table.entries = [(['a'], g)] ∧ ReadsBack f g := by
  let f : Function := {
    name := ['a']
    kind := "fn".toList
    visibility := some "pub(crate)".toList
    decorators := ["cfg(a)".toList]
    parameterText := some "x: T".toList
    body := some "\x7b x \x7d".toList
    text := []
    comments := ["// see pub".toList]
    details := {
      qualifiers := ["const".toList, "unsafe".toList]
      abi := "extern \"C\"".toList
      generics := "<T>".toList
      suffix := " -> T ".toList } }
  have hf : Printable f := {
    comments := by
      intro c hc
      obtain rfl := List.mem_singleton.mp hc
      exact ⟨⟨" see pub".toList, rfl⟩, by decide +kernel, by decide⟩
    attributes := by
      intro a ha
      obtain rfl := List.mem_singleton.mp ha
      exact ⟨by decide +kernel, by decide, by decide +kernel⟩
    header := {
      visibility := by
        rintro v hv
        obtain rfl := Option.some.inj hv
        exact ⟨by decide +kernel, Or.inr ⟨[], "crate".toList, rfl, rfl, by decide, by decide⟩⟩
      qualifiers := by decide
      abi := Or.inr ⟨by decide +kernel, Or.inr ⟨['C'], rfl, by decide⟩⟩
      name := ⟨⟨'a', [], rfl, rfl⟩, List.forall_mem_singleton.mpr rfl⟩
      length := rfl }
    generics := by
      intro c hc
      obtain rfl : '<' = c := Option.some.inj hc
      decide
    body := ⟨" x \x7d".toList, rfl⟩
    undirected := List.forall_mem_singleton.mpr (by decide +kernel) }
  have hok : (Document.scan (layout f).render).isOk := by decide +kernel
  have hscan : ∀ d ∈ (Document.scan (layout f).render).toOption,
      Bracketed f d ∧ ∀ m < signatureOf f,
      d.maskAt? m = none → Header.canFollow (Header.precedes (layout f).render m) →
        Header.read? ((layout f).render.drop m) = none := by
    decide +kernel
  obtain ⟨d, hd⟩ := Document.exists_of_isOk hok
  obtain ⟨hb, hfirst⟩ := hscan d (by rw [hd]; rfl)
  obtain ⟨g, hentries, hg, -⟩ := (extract_render_iff hf hd hb false).mpr hfirst
  exact ⟨f, d, g, hf, hd, hb, by decide +kernel, hentries, hg⟩

/-- An attribute whose text starts a header, which the literals of attribute and body carry past the
signature; nothing is read back. -/
theorem extract_render_swallowed :
    ∃ f d, Printable f ∧ Document.scan (layout f).render = .ok d ∧ Bracketed f d ∧
      (layout f).render = "#[x(pub(\") extern \"))]\nfn a() \x7b print(\" fn x\") \x7d".toList ∧
      (extract d false).table.entries = [] := by
  let f : Function := {
    name := ['a']
    decorators := ["x(pub(\") extern \"))".toList]
    parameterText := some []
    body := some "\x7b print(\" fn x\") \x7d".toList
    details := { suffix := [' '] } }
  have hf : Printable f := {
    comments := by simp [f]
    attributes := by
      intro a ha
      obtain rfl := List.mem_singleton.mp ha
      exact ⟨by decide +kernel, by decide, by decide +kernel⟩
    header := {
      visibility := by simp [f, headerOf]
      qualifiers := by simp [f, headerOf]
      abi := Or.inl rfl
      name := ⟨⟨'a', [], rfl, rfl⟩, List.forall_mem_singleton.mpr rfl⟩
      length := rfl }
    generics := by simp [f]
    body := ⟨" print(\" fn x\") \x7d".toList, rfl⟩
    undirected := by simp [f] }
  have hok : (Document.scan (layout f).render).isOk := by decide +kernel
  have hscan : ∀ d ∈ (Document.scan (layout f).render).toOption, Bracketed f d ∧
      (extract d false).table.entries.length = 0 := by
    decide +kernel
  obtain ⟨d, hd⟩ := Document.exists_of_isOk hok
  obtain ⟨hb, hnone⟩ := hscan d (by rw [hd]; rfl)
  exact ⟨f, d, hf, hd, hb, by decide +kernel, List.length_eq_zero_iff.mp hnone⟩

end Item

end Graft
