import Graft.Proofs.Item.Spared

set_option autoImplicit false

/-!
Where a new function lands. A function that was written in an `impl` block goes into the first block
of the host with the same target, after the last function there. The end of that function can lie
behind the end of the block, since a header is read over quotes and braces alike. It cannot if the
header ends within the block and what stands around the parameters is balanced, for then its
brackets and those of the block would cross.
-/

namespace Graft.Item

namespace Document

/-- The brackets and semicolons from `start` up to `stop`, outside of comments and literals. -/
def between (d : Document) (start stop : Nat) : Text :=
  (d.tokens.toList.filter fun t => start ≤ t.offset && t.offset < stop).map (·.char)

theorem mem_between {d : Document} {start stop : Nat} {c : Char} :
    c ∈ d.between start stop ↔ ∃ n, ⟨c, n⟩ ∈ d.tokens.toList ∧ start ≤ n ∧ n < stop := by
  simp only [between, List.mem_map, List.mem_filter, Bool.and_eq_true, decide_eq_true_eq]
  constructor
  · rintro ⟨t, ⟨ht, hrange⟩, rfl⟩
    exact ⟨t.offset, ht, hrange⟩
  · rintro ⟨n, hn, hrange⟩
    exact ⟨⟨c, n⟩, ⟨hn, hrange⟩, rfl⟩

theorem not_mem_of_nest {stack t left : Text} (h : nest stack t = some left)
    (hstack : '\x7b' ∉ stack) (ht : '\x7b' ∉ t) : '\x7d' ∉ t := by
  fun_induction nest stack t with
  | case1 stack => simp
  | case2 stack c cs ho hc ih =>
    have hne : '\x7d' ≠ c := by rintro rfl; contradiction
    simpa [hne] using ih h hstack (by simp_all)
  | case3 stack c cs ho hc ih =>
    have hne : '\x7d' ≠ c := by rintro rfl; contradiction
    simpa [hne] using ih h (by simp_all) (by simp_all)
  | case4 c cs o ho => contradiction
  | case5 c cs o ho top rest htop ih =>
    have hne : '\x7d' ≠ c := by
      rintro rfl
      obtain rfl : o = '\x7b' := (Option.some.inj ho).symm
      simp_all
    simpa [hne] using ih h (by simp_all) (by simp_all)
  | case6 c cs o ho top rest htop => contradiction

theorem mem_of_implsFrom {d : Document} {start b : Nat} {ts : List Token} {t : Text}
    (h : (b, t) ∈ implsFrom d start ts) : ⟨'\x7b', b⟩ ∈ ts := by
  induction ts generalizing start with
  | nil => simp [implsFrom] at h
  | cons u ts ih =>
    unfold implsFrom at h
    simp only at h
    split at h
    · rename_i hbrace
      split at h
      · rcases List.mem_cons.mp h with heq | h
        · obtain ⟨rfl, -⟩ := Prod.mk.inj heq
          rw [← beq_iff_eq.mp hbrace]
          exact List.mem_cons_self
        · exact List.mem_cons_of_mem u (ih h)
      · exact List.mem_cons_of_mem u (ih h)
    · exact List.mem_cons_of_mem u (ih h)

variable {source : Text} {d : Document}

theorem brackets_of_impl (hd : scan source = .ok d) {b : Nat} {t : Text} (h : (b, t) ∈ d.impls) :
    ∃ c, d.Brackets '\x7b' '\x7d' b c := by
  have hmem := mem_of_implsFrom h
  obtain ⟨c, hc⟩ := exists_partner hd hmem (.inl rfl)
  exact ⟨c, brackets_of_partner hd (by decide) hmem hc⟩

theorem lt_of_enclosing {offset b c : Nat} (h : d.enclosing? offset = some b)
    (hc : d.partner? b = some c) :
    b < offset ∧ offset < c := by
  obtain ⟨t, ht, rfl⟩ := Option.map_eq_some_iff.mp h
  have hmem := (List.mem_filter.mp (List.mem_of_getLast? ht)).2
  simp only [hc, Option.any_some, Bool.and_eq_true, decide_eq_true_eq] at hmem
  exact ⟨hmem.1.2, hmem.2⟩

theorem unmasked_of_mem_tokens (hd : scan source = .ok d) {t : Token}
    (ht : t ∈ d.tokens.toList) {m : Span} (hm : m ∈ d.masks.toList) :
    ¬(m.start ≤ t.offset ∧ t.offset < m.stop) := by
  obtain ⟨ls, hlexes, -, htokens, hmasks, -⟩ := lexes_of_scan hd
  rw [htokens, mem_tokensFrom_iff fun u hu => hlexes.masked_ne_nil hu] at ht
  exact ht.2.2.2 m (hmasks ▸ hm)

theorem Brackets.closes_inside (hd : scan source = .ok d) {o c : Char} {b e p q : Nat}
    (hblock : d.Brackets '\x7b' '\x7d' b e) (h : d.Brackets o c p q) (hp : b < p)
    (he : p < e) : q < e := by
  have hne : (b, e) ≠ (p, q) := fun heq => by
    have := (Prod.mk.inj heq).1
    omega
  have huncrossed :=
    (matching_of_scan hd).nested _ (mem_partners hblock.partner) _ (mem_partners h.partner) hne
  have hlt := (partner_spec hd h.partner).1
  unfold Uncrossed at huncrossed
  omega

theorem Brackets.ne_of_mem (hd : scan source = .ok d) {b e n : Nat} {c : Char}
    (hblock : d.Brackets '\x7b' '\x7d' b e) (hn : ⟨c, n⟩ ∈ d.tokens.toList)
    (hc : c ≠ '\x7d') : n ≠ e := by
  rintro rfl
  have hchar := (char_of_mem_tokens hd hn).1
  rw [(char_of_mem_tokens hd hblock.closes).1] at hchar
  exact hc (Option.some.inj hchar).symm

end Document

open Document

namespace Function

/-- The brackets before the parameters, and those between the parameters and the body, match among
themselves. -/
def Found.Balanced (d : Document) (f : Found) : Prop :=
  nest [] (d.between (f.start + f.header.length) f.extent.opening) = some [] ∧
    nest [] (d.between (f.extent.closing + 1) f.extent.bodyStart) = some []

instance (d : Document) (f : Found) : Decidable (f.Balanced d) := by
  unfold Found.Balanced
  infer_instance

variable {source : Text} {d : Document} {f : Found}

theorem not_mem_between (hd : scan source = .ok d) (hf : Site d f.start f.header f.extent) :
    '\x7b' ∉ d.between (f.start + f.header.length) f.extent.opening ∧
      '\x7b' ∉ d.between (f.extent.closing + 1) f.extent.bodyStart := by
  obtain ⟨opening, body, stop, hopening, -, -, hbody, -, -, ho, hs, -⟩ :=
    extent_eq_some_iff.mp hf.extent
  refine ⟨fun h => ?_, fun h => ?_⟩
  · obtain ⟨n, hn, hle, hlt⟩ := mem_between.mp h
    have : opening.offset ≤ n := nextToken_le hd hopening hn (by simp only; omega) (by simp)
    omega
  · obtain ⟨n, hn, hle, hlt⟩ := mem_between.mp h
    have : body.offset ≤ n := nextToken_le hd hbody hn (by simp only; omega) (by simp)
    omega

theorem stop_le_of_balanced (hd : scan source = .ok d) (hf : Site d f.start f.header f.extent)
    (hbalanced : f.Balanced d) {b c : Nat} (hblock : d.Brackets '\x7b' '\x7d' b c)
    (hb : b < f.start) (hheader : f.start + f.header.length ≤ c) : f.extent.bodyStop ≤ c := by
  obtain ⟨hparameters, hbody⟩ := extent_tokens hd hf.extent
  obtain ⟨h₁, h₂, h₃, h₄, -⟩ := extent_spec hd hf.extent
  obtain ⟨hgenerics, hsuffix⟩ := not_mem_between hd hf
  -- Part by part: the block does not end before the parameters, in them, before the body or in it.
  have hopening : f.extent.opening < c := by
    have hne := hblock.ne_of_mem hd hparameters.opens (by decide)
    by_contra hlt
    exact not_mem_of_nest hbalanced.1 (by simp) hgenerics
      (mem_between.mpr ⟨c, hblock.closes, hheader, by omega⟩)
  have hclosing : f.extent.closing < c := hblock.closes_inside hd hparameters (by omega) hopening
  have hstart : f.extent.bodyStart < c := by
    have hne := hblock.ne_of_mem hd hbody.opens (by decide)
    by_contra hlt
    exact not_mem_of_nest hbalanced.2 (by simp) hsuffix
      (mem_between.mpr ⟨c, hblock.closes, hclosing, by omega⟩)
  have hstop := hblock.closes_inside hd hbody (by omega) hstart
  omega

end Function

open Graft.Item.Function

/-- The brace of the block that a function goes into. -/
def home? (d : Document) (f : Function) : Option Nat :=
  f.details.target.bind fun t => (d.impls.find? (·.2 == t)).map (·.1)

def members (T : Pieces Details) : Option Nat → List Function
  | some b => T.values.filter (·.details.block == some b)
  | none => T.values

def fallback (d : Document) : Option Nat → Int
  | some b => ((d.partner? b).getD d.source.length : Nat)
  | none => d.source.length

section

variable {source : Text} {d : Document} {T : Pieces Details} {f : Function}

theorem insertionPoint_eq (d : Document) (T : Pieces Details) (f : Function) :
    (insertionPoint d T f).1 =
      ((lastToEnd (members T (home? d f))).map (·.stop)).getD (fallback d (home? d f)) := by
  unfold insertionPoint
  generalize hbrace : f.details.target.bind _ = brace
  obtain rfl : home? d f = brace := hbrace
  cases home? d f with
  | none =>
    simp only [members]
    cases lastToEnd T.values <;> rfl
  | some b =>
    simp only [members]
    cases lastToEnd (T.values.filter (·.details.block == some b)) <;> rfl

theorem insertionPoint_of_block {t t' : Text} {b c : Nat} (ht : f.details.target = some t)
    (hfirst : d.impls.find? (·.2 == t) = some (b, t')) (hc : d.partner? b = some c) :
    ((∀ g ∈ T.values, g.details.block ≠ some b) ∧ (insertionPoint d T f).1 = c) ∨
      ∃ g ∈ T.values, g.details.block = some b ∧ (insertionPoint d T f).1 = g.stop ∧
        ∀ m ∈ T.values, m.details.block = some b → m.stop ≤ g.stop := by
  have hbrace : home? d f = some b := by
    rw [home?, ht, Option.bind_some]
    exact Option.map_eq_some_iff.mpr ⟨_, hfirst, rfl⟩
  simp only [insertionPoint_eq, hbrace, members]
  cases hlast : lastToEnd (T.values.filter (·.details.block == some b)) with
  | none =>
    have hnil := List.filter_eq_nil_iff.mp (lastToEnd_eq_none.mp hlast)
    exact Or.inl ⟨fun g hg => by simpa using hnil g hg, by simp [fallback, hc]⟩
  | some g =>
    obtain ⟨hg, hblock⟩ := List.mem_filter.mp (mem_of_lastToEnd hlast)
    exact Or.inr ⟨g, hg, by simpa using hblock, rfl,
      fun m hm hmb => stop_le_of_lastToEnd hlast m (List.mem_filter.mpr ⟨hm, by simpa using hmb⟩)⟩

theorem insertionPoint_of_no_block (hnone : ∀ b t, f.details.target = some t → (b, t) ∉ d.impls) :
    (T.values = [] ∧ (insertionPoint d T f).1 = d.source.length) ∨
      ∃ g ∈ T.values, (insertionPoint d T f).1 = g.stop ∧ ∀ m ∈ T.values, m.stop ≤ g.stop := by
  have hbrace : home? d f = none := by
    rw [home?, Option.bind_eq_none_iff]
    intro t ht
    rw [Option.map_eq_none_iff, List.find?_eq_none]
    rintro ⟨b, t'⟩ hmem heq
    obtain rfl : t' = t := by simpa using heq
    exact hnone b t' ht hmem
  simp only [insertionPoint_eq, hbrace, members]
  cases hlast : lastToEnd T.values with
  | none => exact Or.inl ⟨lastToEnd_eq_none.mp hlast, rfl⟩
  | some g => exact Or.inr ⟨g, mem_of_lastToEnd hlast, rfl, stop_le_of_lastToEnd hlast⟩

theorem insertionPoint_inside (hd : scan source = .ok d) (f : Function) :
    0 ≤ (insertionPoint d (extract d true).table f).1 ∧
      (insertionPoint d (extract d true).table f).1 ≤ source.length ∧
      ∀ m ∈ d.masks.toList, ¬(m.start < (insertionPoint d (extract d true).table f).1 ∧
        (insertionPoint d (extract d true).table f).1 < m.stop) := by
  have hsource := (of_scan hd).1
  have htoken : ∀ {t : Token}, t ∈ d.tokens.toList → t.offset < source.length := fun ht =>
    (List.getElem?_eq_some_iff.mp (char_of_mem_tokens hd ht).1).1
  rcases insertionPoint_cases d (extract d true).table f with
    ⟨p, hp, hpoint⟩ | ⟨b, t, c, -, -, hc, hpoint⟩ | hpoint
  · obtain ⟨g, hg, rfl⟩ := mem_values_extract.mp hp
    obtain ⟨-, -, -, -, u, hu, hstop⟩ := extent_spec hd (site_of_mem hg.mem).extent
    rw [Found.stop_piece, hstop] at hpoint
    have hlt := htoken hu
    refine ⟨by omega, by omega, fun m hm => ?_⟩
    have := unmasked_of_mem_tokens hd hu hm
    omega
  · obtain ⟨-, u, hu, rfl⟩ := partner_spec hd hc
    have hlt := htoken hu
    refine ⟨by omega, by omega, fun m hm => ?_⟩
    have := unmasked_of_mem_tokens hd hu hm
    omega
  · rw [hsource] at hpoint
    refine ⟨by omega, by omega, fun m hm => ?_⟩
    have := (mask_inside hd hm).2
    omega

/-- In a host whose functions are balanced around their parameters, a function whose target is that
of an `impl` block goes behind the brace of the first such block, and not behind its end exactly if
no function of that block has a header that runs over the end. Any other function goes behind the
one that ends last, or to the end of a host without functions. -/
theorem insertionPoint_lands (hd : scan source = .ok d) (hbalanced : ∀ g, IsLast d g → g.Balanced d)
    (f : Function) :
    (∀ t b t', f.details.target = some t → d.impls.find? (·.2 == t) = some (b, t') →
      ∃ c, d.Brackets '\x7b' '\x7d' b c ∧ b < (insertionPoint d (extract d true).table f).1 ∧
        ((insertionPoint d (extract d true).table f).1 ≤ c ↔
          ∀ g, IsLast d g → d.enclosing? g.start = some b → g.start + g.header.length ≤ c)) ∧
    ((∀ b t, f.details.target = some t → (b, t) ∉ d.impls) →
      ((extract d true).table.values = [] ∧
        (insertionPoint d (extract d true).table f).1 = source.length) ∨
      ∃ g ∈ (extract d true).table.values,
        (insertionPoint d (extract d true).table f).1 = g.stop ∧
          ∀ m ∈ (extract d true).table.values, m.stop ≤ g.stop) ∧
    0 ≤ (insertionPoint d (extract d true).table f).1 ∧
    (insertionPoint d (extract d true).table f).1 ≤ source.length ∧
    ∀ m ∈ d.masks.toList, ¬(m.start < (insertionPoint d (extract d true).table f).1 ∧
      (insertionPoint d (extract d true).table f).1 < m.stop) := by
  refine ⟨fun t b t' ht hfirst => ?_, fun hnone => ?_, insertionPoint_inside hd f⟩
  · obtain ⟨c, hblock⟩ := brackets_of_impl hd (List.mem_of_find?_eq_some hfirst)
    refine ⟨c, hblock, ?_⟩
    -- A function of the block is balanced, so its header decides where it ends.
    have hends : ∀ g, IsLast d g → d.enclosing? g.start = some b →
        b < g.extent.bodyStop ∧ (g.extent.bodyStop ≤ c ↔ g.start + g.header.length ≤ c) := by
      intro g hg hin
      have hsite := site_of_mem hg.mem
      obtain ⟨h₁, h₂, h₃, h₄, -⟩ := extent_spec hd hsite.extent
      have hlt := (lt_of_enclosing hin hblock.partner).1
      exact ⟨by omega, fun _ => by omega, stop_le_of_balanced hd hsite (hbalanced g hg) hblock hlt⟩
    rcases insertionPoint_of_block (T := (extract d true).table) ht hfirst hblock.partner with
      ⟨hempty, hpoint⟩ | ⟨p, hp, hin, hpoint, hlast⟩
    · have hlt := (partner_spec hd hblock.partner).1
      rw [hpoint]
      refine ⟨by omega, fun _ g hg hin => ?_, fun _ => Int.le_refl _⟩
      exact absurd hin (hempty _ (mem_values_extract.mpr ⟨g, hg, rfl⟩))
    · obtain ⟨x, hx, rfl⟩ := mem_values_extract.mp hp
      obtain ⟨hbehind, hwithin⟩ := hends x hx hin
      rw [hpoint, Found.stop_piece]
      refine ⟨by omega, fun hle g hg hg' => ?_, fun hheaders => ?_⟩
      · have hstop := hlast _ (mem_values_extract.mpr ⟨g, hg, rfl⟩) hg'
        rw [Found.stop_piece, Found.stop_piece] at hstop
        exact (hends g hg hg').2.mp (by omega)
      · exact Int.ofNat_le.mpr (hwithin.mpr (hheaders x hx hin))
  · rw [← (of_scan hd).1]
    exact insertionPoint_of_no_block hnone

end

/-- Of two blocks with the target the first takes the function, behind the one that is there. -/
theorem insertionPoint_lands_method :
    ∃ d s : Document, ∃ f ∈ (extract s false).table.values,
      scan ("impl A \x7b\n    fn a(x: u8) -> (u8, u8) \x7b (x, x) \x7d\n\x7d\n\n".toList ++
        "impl A \x7b\x7d\nfn z() \x7b\x7d\n".toList) = .ok d ∧
      scan "impl A \x7b\n    fn n() \x7b\x7d\n\x7d\n".toList = .ok s ∧
      (∀ g, IsLast d g → g.Balanced d) ∧ f.details.target = some ['A'] ∧
        d.Brackets '\x7b' '\x7d' 7 48 ∧
      7 < (insertionPoint d (extract d true).table f).1 ∧
        (insertionPoint d (extract d true).table f).1 ≤ 48 := by
  let host : Text :=
    "impl A \x7b\n    fn a(x: u8) -> (u8, u8) \x7b (x, x) \x7d\n\x7d\n\n".toList ++
      "impl A \x7b\x7d\nfn z() \x7b\x7d\n".toList
  let snippet : Text := "impl A \x7b\n    fn n() \x7b\x7d\n\x7d\n".toList
  have hhost : (scan host).toOption.map (fun d => (d.impls, d.partner? 7)) =
      some ([(7, ['A']), (58, ['A'])], some 48) := by
    decide +kernel
  have hlast : ∀ d ∈ (scan host).toOption, ∀ g ∈ lasting (found d),
      g.Balanced d ∧ (d.enclosing? g.start = some 7 → g.start + g.header.length ≤ 48) := by
    decide +kernel
  have hsnippet :
      (scan snippet).toOption.map (fun s => (extract s false).table.values.map (·.details.target)) =
      some [some ['A']] := by
    decide +kernel
  obtain ⟨d, hd, heq⟩ := Option.map_eq_some_iff.mp hhost
  obtain ⟨himpls, hpartner⟩ := Prod.mk.inj heq
  obtain ⟨s, hs, htargets⟩ := Option.map_eq_some_iff.mp hsnippet
  obtain ⟨f, hf, htarget⟩ := List.mem_map.mp (htargets ▸ List.mem_singleton_self (some ['A']))
  have hlast' : ∀ g, IsLast d g → g.Balanced d ∧
      (d.enclosing? g.start = some 7 → g.start + g.header.length ≤ 48) :=
    fun g hg => hlast d hd g (mem_lasting.mpr hg)
  have hbalanced : ∀ g, IsLast d g → g.Balanced d := fun g hg => (hlast' g hg).1
  obtain ⟨hblock, -⟩ := insertionPoint_lands (scan_of_toOption hd) hbalanced f
  obtain ⟨c, hbrackets, hbehind, hwithin⟩ := hblock ['A'] 7 ['A'] htarget (by rw [himpls]; rfl)
  obtain rfl : c = 48 := Option.some.inj (hbrackets.partner.symm.trans hpartner)
  exact ⟨d, s, f, hf, scan_of_toOption hd, scan_of_toOption hs, hbalanced, htarget,
    hbrackets, hbehind, hwithin.mpr fun g hg => (hlast' g hg).2⟩

/-- The header that is read at `pub` in the block runs through two strings to the `fn` in the second
one, which stands in a function behind the block. All is balanced, and still the new function lands
behind the block. -/
theorem insertionPoint_escapes :
    ∃ d s : Document, ∃ f ∈ (extract s false).table.values,
      scan ("impl A \x7b\n    m!(\n        pub(\") extern \")\n    );\n\x7d\n\n" ++
        "fn f() \x7b if \" fn y\" == g() \x7b h() \x7d \x7d\n").toList = .ok d ∧
      scan "impl A \x7b\n    fn n() \x7b\x7d\n\x7d\n".toList = .ok s ∧
      (∀ g, IsLast d g → g.Balanced d) ∧ f.details.target = some ['A'] ∧ d.impls = [(7, ['A'])] ∧
      d.partner? 7 = some 49 ∧ (insertionPoint d (extract d true).table f).1 = 86 := by
  let host : Text := ("impl A \x7b\n    m!(\n        pub(\") extern \")\n    );\n\x7d\n\n" ++
    "fn f() \x7b if \" fn y\" == g() \x7b h() \x7d \x7d\n").toList
  let snippet : Text := "impl A \x7b\n    fn n() \x7b\x7d\n\x7d\n".toList
  have hhost : (scan host).toOption.map (fun d => (d.impls, d.partner? 7)) =
      some ([(7, ['A'])], some 49) := by
    decide +kernel
  have hlast : ∀ d ∈ (scan host).toOption, ∀ g ∈ lasting (found d), g.Balanced d := by
    decide +kernel
  have hpoint : ∀ d ∈ (scan host).toOption, ∀ s ∈ (scan snippet).toOption,
      ∀ f ∈ (extract s false).table.values,
      f.details.target = some ['A'] ∧ (insertionPoint d (extract d true).table f).1 = 86 := by
    decide +kernel
  have hsnippet : (scan snippet).toOption.map (fun s => (extract s false).table.values.length) =
      some 1 := by
    decide +kernel
  obtain ⟨d, hd, heq⟩ := Option.map_eq_some_iff.mp hhost
  obtain ⟨himpls, hpartner⟩ := Prod.mk.inj heq
  obtain ⟨s, hs, hlength⟩ := Option.map_eq_some_iff.mp hsnippet
  obtain ⟨f, hvalues⟩ := List.length_eq_one_iff.mp hlength
  have hf : f ∈ (extract s false).table.values := by simp [hvalues]
  obtain ⟨htarget, hend⟩ := hpoint d hd s hs f hf
  exact ⟨d, s, f, hf, scan_of_toOption hd, scan_of_toOption hs,
    fun g hg => hlast d hd g (mem_lasting.mpr hg), htarget, himpls, hpartner, hend⟩

end Graft.Item
