import Graft.Merge
import Graft.Proofs.Item.Indented
import Graft.Proofs.Item.Merge

set_option autoImplicit false

/-!
When the outcome of a merge of Rust functions can be read. The span of a function takes in the lines
above it that look like comments or attributes, even inside another function or a literal; so a
merge of two sources that can be read may leave one that cannot. Where the spans that the snippet
touches can be cut out, the brackets left outside them decide.
-/

namespace Graft

theorem result_merge {n : Notation} {o : Options} {host snippet : Text} {r : Report}
    (hvalidates : o.validates) (hr : (mergeBy n o host snippet).result = .ok r) :
    (merge n o host snippet).result = (validate n r.text).map fun _ => r := by
  simp only [merge, hvalidates, if_true, Traced.result_bind, Traced.result_log, Traced.ok_bind, hr,
    Traced.result_ofExcept]
  cases validate n r.text with
  | error e => rfl
  | ok _ => simp [Except.map]

namespace Item

open Reconcile Lexeme Graft.Item.Function

section

variable {host : Text} {d : Document} {g : Function}

theorem cut_of_mem_tokens (hd : Document.scan host = .ok d) {t : Token} (ht : t ∈ d.tokens.toList) :
    Cut host (Lexeme.read none host).1 t.offset ∧
      Cut host (Lexeme.read none host).1 (t.offset + 1) ∧
      ∃ c, host[t.offset]? = some c ∧ Text.isBlank c = false := by
  obtain ⟨-, hread, htokens, -, -⟩ := Document.of_scan hd
  rw [htokens] at ht
  obtain ⟨hbefore, hafter, hchar⟩ := cut_token (Lexes.of_read (Prod.ext rfl hread)) ht
  obtain ⟨ls₁, ls₂, -, -, hstructural⟩ := exists_of_mem_tokensFrom ht
  exact ⟨hbefore, hafter, t.char, hchar, isBlank_of_isStructural hstructural⟩

theorem cut_stop (hd : Document.scan host = .ok d) (hg : g ∈ (extract d true).table.values) :
    Cut host (Lexeme.read none host).1 g.stop.toNat ∧
      ∃ c, host[g.stop.toNat - 1]? = some c ∧ Text.isBlank c = false := by
  obtain ⟨start, h, e, hsite, rfl⟩ := exists_site hg
  obtain ⟨-, -, -, -, t, ht, hstop⟩ := extent_spec hd hsite.extent
  have hoffset : (build d true start h e).1.stop.toNat = t.offset + 1 := hstop
  obtain ⟨-, hafter, hchar⟩ := cut_of_mem_tokens hd ht
  rw [hoffset]
  exact ⟨hafter, hchar⟩

theorem dropIndent_of_startsLine {n : Nat} (h : startsLine host n) :
    Text.dropLastWhile Text.isIndent (host.take n) = host.take n := by
  rw [startsLine_iff] at h
  rcases List.eq_nil_or_concat (host.take n) with hnil | ⟨x, c, hx⟩
  · rw [hnil]
    rfl
  · rw [List.concat_eq_append] at hx
    rw [hx, List.getLast?_concat] at h
    rw [hx, h c rfl]
    exact Text.dropLastWhile_concat x (by decide)

theorem steady_of_canStart {n : Nat} (h : canStart host n)
    (hlead : Text.isBlankText (host.slice (host.lineStart n) n) = false) :
    ∀ c ∈ (Text.dropLastWhile Text.isIndent (host.take n)).getLast?, isSteady c := by
  intro c hc
  by_cases hblank : Text.isBlank c
  · simp [isSteady, hblank]
  obtain ⟨x, hx⟩ := List.getLast?_eq_some_iff.mp hc
  obtain ⟨b, hb, hall⟩ := Text.exists_dropLastWhile_append Text.isIndent (host.take n)
  have htrim : Text.trimEnd (host.take n) = x ++ [c] := by
    rw [hb, hx, Text.trimEnd,
      Text.dropLastWhile_append_of_all _ fun e he => Text.isBlank_of_isIndent (hall e he)]
    exact Text.dropLastWhile_concat x (by simpa using hblank)
  simp only [canStart, hlead, htrim, List.getLast?_concat, Bool.false_or] at h
  simp only [isSteady, Bool.or_eq_true] at h ⊢
  tauto

theorem getLast?_take {n : Nat} (hpos : 0 < n) (hn : n ≤ host.length) :
    (host.take n).getLast? = host[n - 1]? := by
  rw [List.getLast?_take, if_neg (by omega), List.getElem?_eq_getElem (by omega), Option.some_or]

section

variable (hd : Document.scan host = .ok d)
include hd

theorem opening_of_startsLine {n : Nat} (hn : n ≤ host.length)
    (hmask : ∀ m, d.maskAt? n = some m → m.start = n) (hline : startsLine host n) :
    Opening host (Lexeme.read none host).1 n := by
  have hdrop := dropIndent_of_startsLine hline
  rw [startsLine_iff] at hline
  refine ⟨cut_of_maskAt hd hn hmask ?_, ?_, ?_, ?_⟩
  · intro c hc
    rw [hline c hc]
    exact isWord_of_isBlank (by decide)
  · rw [hdrop]
    intro c hc
    rw [hline c hc]
    decide
  · rw [hdrop]
    exact not_hangs_of_newline hline
  · intro hpos
    have hsome := getLast?_take hpos hn
    rw [List.getElem?_eq_getElem (by omega)] at hsome
    rw [hsome, hline _ hsome]
    exact Or.inl rfl

theorem opening_of_site {n : Nat} {h : Header} {e : Extent}
    (hsite : Site d n h e) (hn : n ≤ host.length) (hmask : ∀ m, d.maskAt? n = some m → m.start = n)
    (hlead : Text.isBlankText (host.slice (host.lineStart n) n) = false)
    (hquotes : ¬Hangs (Text.dropLastWhile Text.isIndent (host.take n))) :
    Opening host (Lexeme.read none host).1 n := by
  have hsource := (Document.of_scan hd).1
  have hcan := hsite.canStart
  have hfollows := hsite.follows
  have hheader := Header.not_breaks_of_read hsite.header
  rw [hsource] at hcan hfollows hheader
  refine ⟨cut_of_maskAt hd hn hmask ?_, steady_of_canStart hcan hlead, hquotes,
    fun _ => Or.inr hheader⟩
  intro c hc
  have hpos : n ≠ 0 := by
    rintro rfl
    simp at hc
  rw [getLast?_take (by omega) hn] at hc
  simp only [Header.precedes, if_neg hpos, Option.mem_def.mp hc, Header.canFollow, Option.map_some,
    Option.getD_some, Bool.not_eq_true', Bool.or_eq_false_iff] at hfollows
  exact hfollows.1

theorem opening_start (hg : g ∈ (extract d true).table.values)
    (hmask : ∀ m ∈ d.maskAt? g.start, m.start = g.start)
    (hquotes : ¬startsLine host g.start.toNat →
      ¬Hangs (Text.dropLastWhile Text.isIndent (host.take g.start.toNat))) :
    Opening host (Lexeme.read none host).1 g.start.toNat := by
  have hlen : g.start.toNat ≤ host.length := by
    have := (cut_stop hd hg).1.1
    have := (sound_of_mem hd hg).start_lt
    omega
  obtain ⟨start, h, e, hsite, rfl⟩ := exists_site hg
  obtain ⟨n, hn, -, hcases⟩ := start_build d true start h e
  have hnat : (build d true start h e).1.start.toNat = n := by
    rw [hn]
    rfl
  have hmask' : ∀ m, d.maskAt? n = some m → m.start = n := by
    intro m hm
    have := hmask m (by rwa [hn])
    omega
  rw [(Document.of_scan hd).1] at hcases
  rw [hnat] at hlen hquotes ⊢
  -- Where nothing stands before it on its line, no quote can hang.
  by_cases hline : startsLine host n
  · exact opening_of_startsLine hd hlen hmask' hline
  · obtain ⟨rfl, hlead⟩ := hcases.resolve_left hline
    exact opening_of_site hd hsite hlen hmask' hlead (hquotes hline)

theorem cut_insertionPoint (f : Function) :
    0 ≤ (insertionPoint d (extract d true).table f).1 ∧
      Cut host (Lexeme.read none host).1 (insertionPoint d (extract d true).table f).1.toNat := by
  obtain ⟨hsource, hread, -, -, -⟩ := Document.of_scan hd
  have hend : Cut host (Lexeme.read none host).1 d.source.length := by
    rw [hsource]
    exact cut_length (Lexes.of_read (Prod.ext rfl hread))
  simp only [insertionPoint]
  split
  · rename_i g hg
    have hmem : g ∈ (extract d true).table.values := by
      have := mem_of_lastToEnd hg
      split at this
      · exact (List.mem_filter.mp this).1
      · exact this
    have hsound := sound_of_mem hd hmem
    have := hsound.start_nonneg
    have := hsound.start_lt
    exact ⟨by simp only; omega, (cut_stop hd hmem).1⟩
  · rename_i b _ _
    refine ⟨by simp only; omega, ?_⟩
    cases hpartner : d.partner? b with
    | none => exact hend
    | some p =>
      obtain ⟨-, t, ht, rfl⟩ := Document.partner_spec hd hpartner
      exact (cut_of_mem_tokens hd ht).1
  · exact ⟨by simp only; omega, hend⟩

end

end

/-- The functions that the snippet touches can be cut out of the host, and those it puts in are
whole. -/
structure Separable (host : Text) (d : Document) (new : Extraction Details) : Prop where
  /-- No span lies within another. -/
  apart : ∀ f ∈ touched (extract d true).table new, ∀ g ∈ touched (extract d true).table new,
    f.start ≤ g.start → g.stop ≤ f.stop → f.name = g.name
  /-- No span starts inside a comment or literal. -/
  unmasked : ∀ g ∈ touched (extract d true).table new, ∀ m ∈ d.maskAt? g.start, m.start = g.start
  /-- No quote before a function could make a literal with what follows it. -/
  quotes : ∀ g ∈ touched (extract d true).table new, ¬startsLine host g.start.toNat →
    ¬Hangs (Text.dropLastWhile Text.isIndent (host.take g.start.toNat))
  /-- What is put in can be read on its own. -/
  whole : ∀ f ∈ survivors rules new.commandsOf new.table.entries, Whole (layout f).render

section

variable {host : Text} {d : Document} {new : Extraction Details} {placement : Placement}

theorem Separable.fits (hsep : Separable host d new) (hd : Document.scan host = .ok d) {e : Edit}
    (he : e ∈ edits d placement new) : Fits host (Lexeme.read none host).1 e := by
  have hwhole : ∀ t ∈ e.text, Whole t := by
    intro t ht
    obtain ⟨f, hf, i, hi, rfl⟩ := text_of_mem_edits hd he ht
    exact (hsep.whole f hf).indent hi
  rcases mem_edits_cases hd he with ⟨g, hg, hstart, hstop⟩ | ⟨f, hstart, hstop, htext⟩
  · have hmem := (mem_touched.mp hg).1
    have hsound := sound_of_mem hd hmem
    have hlt : e.start ≠ e.stop := by
      have := hsound.start_lt
      omega
    refine ⟨hstart ▸ hsound.start_nonneg, by rw [hstart, hstop]; exact Int.le_of_lt hsound.start_lt,
      fun h => absurd h hlt, fun _ => ?_, fun _ => ?_, fun h => absurd h hlt, hwhole⟩
    · rw [hstart]
      exact opening_start hd hmem (hsep.unmasked g hg) (hsep.quotes g hg)
    · rw [hstop]
      exact cut_stop hd hmem
  · obtain ⟨hnonneg, hcut⟩ := cut_insertionPoint hd f
    rw [← hstart] at hnonneg hcut
    have hpoint : ¬e.start < e.stop := by omega
    exact ⟨hnonneg, by omega, fun _ => hcut, fun h => absurd h hpoint, fun h => absurd h hpoint,
      fun _ => htext, hwhole⟩

theorem Separable.pairwise_apart (hsep : Separable host d new) (hd : Document.scan host = .ok d) :
    (edits d placement new).Pairwise Apart := by
  have hpoint : ∀ {a b : Edit}, a.start = a.stop ∨ b.start = b.stop → Apart a b := by
    intro a b hor ha hb
    omega
  rw [edits, Edit.plan_eq, List.pairwise_append]
  refine ⟨?_, ?_, ?_⟩
  · have hnodup := (extract_keyed d true).values_nodup.sublist (Edit.map_fst_goneOf_sublist
      (extract d true).table
      (run rules placement new.commandsOf (extract d true).table new.table.entries) placement)
    rw [List.pairwise_map]
    refine (List.pairwise_map.mp hnodup).imp_of_mem ?_
    intro f g hf hg hne _ _
    have hf := mem_touched_of_mem_goneOf hd hf
    have hg := mem_touched_of_mem_goneOf hd hg
    have hname : f.1.name ≠ g.1.name := fun h =>
      hne ((extract_keyed d true).eq_of_name_eq (mem_touched.mp hf).1 (mem_touched.mp hg).1 h)
    exact ⟨fun h => hname (hsep.apart _ hf _ hg h.1 h.2),
      fun h => hname (hsep.apart _ hg _ hf h.1 h.2).symm⟩
  · exact List.pairwise_map.mpr (List.pairwise_of_forall fun _ _ => hpoint (Or.inl rfl))
  · intro a _ b hb
    obtain ⟨q, -, rfl⟩ := List.mem_map.mp hb
    exact hpoint (Or.inr rfl)

end

/-- The brackets and semicolons of the host outside the functions that the snippet touches. -/
def remaining (d : Document) (new : Extraction Details) : Text :=
  (d.tokens.toList.filter fun t => isOutside (extract d true).table new t.offset).map (·.char)

/-- Whether a merge can be read is decided by the brackets that it leaves, if the functions that the
snippet touches can be cut out. -/
theorem merge_valid_iff_remaining_nests {o : Options} (hstrict : o.isStrict = false)
    (hvalidates : o.validates) {host snippet : Text} {d s : Document}
    (hd : Document.scan host = .ok d) (hs : Document.scan snippet = .ok s)
    (hsep : Separable host d (extract s false)) :
    (Document.nest [] (remaining d (extract s false)) = some [] →
      ∃ report, (Graft.merge .item o host snippet).result = .ok report) ∧
    (Document.nest [] (remaining d (extract s false)) ≠ some [] →
      ∃ fault, (Graft.merge .item o host snippet).result = .error (.invalid .item fault)) := by
  obtain ⟨report, hreport, htext⟩ := merge_lenient hstrict hd hs
  have hmerged : (mergeBy .item o host snippet).result = .ok report := hreport
  have hfits : ∀ e ∈ edits d (o.placement.getD .inPlace) (extract s false),
      Fits host (Lexeme.read none host).1 e := fun e he => hsep.fits hd he
  have hscan := scan_applyEdits_iff hd hfits (hsep.pairwise_apart hd)
  rw [isFree_edits hd, ← htext] at hscan
  rw [result_merge hvalidates hmerged]
  constructor
  · intro hnest
    obtain ⟨d', hd'⟩ := hscan.mpr hnest
    exact ⟨report, by simp [validate, check, read, hd', Except.map]⟩
  · intro hnest
    cases hfault : Document.scan report.text with
    | ok d' => exact absurd (hscan.mp ⟨d', hfault⟩) hnest
    | error fault => exact ⟨fault, by simp [validate, check, read, hfault, Except.map]⟩

/-- A deletion, a new body with a brace in a string, and a function that is new to its block. -/
theorem merge_valid_iff_remaining_nests_impl :
    ∃ d s report,
      Document.scan
        "fn a() \x7b\x7d\n\nimpl P \x7b\n    // old\n    fn b() \x7b 1 \x7d\n\x7d\n".toList =
        .ok d ∧
      Document.scan ("// @delete\nfn a() \x7b\x7d\n".toList ++
        "impl P \x7b\n  fn b() \x7b \"\x7d\" \x7d\n  fn c() \x7b\x7d\n\x7d\n".toList) = .ok s ∧
      Separable d.source d (extract s false) ∧
      remaining d (extract s false) = "\x7b\x7d".toList ∧
      (Graft.merge .item {} d.source s.source).result = .ok report := by
  let host : Text :=
    "fn a() \x7b\x7d\n\nimpl P \x7b\n    // old\n    fn b() \x7b 1 \x7d\n\x7d\n".toList
  let snippet : Text :=
    "// @delete\nfn a() \x7b\x7d\n".toList ++
      "impl P \x7b\n  fn b() \x7b \"\x7d\" \x7d\n  fn c() \x7b\x7d\n\x7d\n".toList
  have hscans : (Document.scan host).isOk ∧ (Document.scan snippet).isOk := by decide +kernel
  have hspans : ∀ d ∈ (Document.scan host).toOption, ∀ s ∈ (Document.scan snippet).toOption,
      (∀ f ∈ touched (extract d true).table (extract s false),
        (∀ g ∈ touched (extract d true).table (extract s false),
          f.start ≤ g.start → g.stop ≤ f.stop → f.name = g.name) ∧
        (∀ m ∈ d.maskAt? f.start, m.start = f.start) ∧ startsLine host f.start.toNat) ∧
      remaining d (extract s false) = "\x7b\x7d".toList := by decide +kernel
  have htexts : ∀ s ∈ (Document.scan snippet).toOption,
      ∀ f ∈ survivors rules (extract s false).commandsOf (extract s false).table.entries,
        (Document.scan (layout f).render).isOk ∧
        (Lexeme.read none (layout f).render).1.getLast? = some (.plain '\x7d') ∧
        '\'' ∉ (layout f).render := by decide +kernel
  obtain ⟨d, hd⟩ := Document.exists_of_isOk hscans.1
  obtain ⟨s, hs⟩ := Document.exists_of_isOk hscans.2
  have hsome : s ∈ (Document.scan snippet).toOption := by rw [hs]; rfl
  obtain ⟨hspans, hremaining⟩ := hspans d (by rw [hd]; rfl) s hsome
  have hsource := (Document.of_scan hd).1
  have hsep : Separable host d (extract s false) := by
    refine ⟨fun f hf => (hspans f hf).1, fun f hf => (hspans f hf).2.1,
      fun f hf hnot => absurd (hspans f hf).2.2 hnot, ?_⟩
    intro f hf
    obtain ⟨hok, hlast, hquote⟩ := htexts s hsome f hf
    exact ⟨Document.exists_of_isOk hok, ⟨'\x7d', hlast, rfl⟩, not_hangs_of_not_mem hquote⟩
  have hnest : Document.nest [] (remaining d (extract s false)) = some [] := by
    rw [hremaining]
    decide
  obtain ⟨report, hreport⟩ := (merge_valid_iff_remaining_nests (o := {}) rfl rfl hd hs hsep).1 hnest
  refine ⟨d, s, report, hd, hs, ?_, hremaining, ?_⟩
  · rwa [hsource]
  · rwa [hsource, (Document.of_scan hs).1]

def isInvalid {α : Type} : Except Error α → Bool
  | .error (.invalid .item _) => true
  | _ => false

theorem eq_of_isInvalid {α : Type} {r : Except Error α} (h : isInvalid r) :
    ∃ fault, r = .error (.invalid .item fault) := by
  unfold isInvalid at h
  split at h
  · exact ⟨_, rfl⟩
  · contradiction

/-- The lines above a function are taken for comments wherever they stand: a line of the function
before it goes with the deletion, and its brace is missing. -/
theorem merge_takes_brace_of_neighbour :
    ∃ d s fault,
      Document.scan "fn a() \x7b x\n*y \x7d\nfn b() \x7b\x7d\n".toList = .ok d ∧
      Document.scan "// @delete\nfn b() \x7b\x7d\n".toList = .ok s ∧
      (Graft.merge .item {} d.source s.source).result = .error (.invalid .item fault) := by
  let host : Text := "fn a() \x7b x\n*y \x7d\nfn b() \x7b\x7d\n".toList
  let snippet : Text := "// @delete\nfn b() \x7b\x7d\n".toList
  have hscans : (Document.scan host).isOk ∧ (Document.scan snippet).isOk := by decide +kernel
  have hfails : isInvalid (Graft.merge .item {} host snippet).result := by decide +kernel
  obtain ⟨d, hd⟩ := Document.exists_of_isOk hscans.1
  obtain ⟨s, hs⟩ := Document.exists_of_isOk hscans.2
  obtain ⟨fault, hfault⟩ := eq_of_isInvalid hfails
  refine ⟨d, s, fault, hd, hs, ?_⟩
  rwa [(Document.of_scan hd).1, (Document.of_scan hs).1]

end Item

end Graft
