import Graft.Proofs.Item.Found
import Graft.Proofs.Item.Structure
import Graft.Proofs.Kept

set_option autoImplicit false

/-!
The span of a function, part by part: the lines above it, its header, generics, parameters, suffix
and body follow each other in the source, with nothing between them.
-/

namespace Graft

namespace Text

theorem newline_not_mem_line (t : Text) (n : Nat) : '\n' ∉ t.slice (t.lineStart n) n := by
  have hlen : t.lineStart n = ((t.take n).rdropWhile (· != '\n')).length :=
    Item.Function.lineStart_eq t n
  have hslice : t.slice (t.lineStart n) n = (t.take n).rtakeWhile (· != '\n') := by
    have hparts := List.rdropWhile_append_rtakeWhile (p := (· != '\n')) (l := t.take n)
    rw [slice, hlen]
    conv_lhs => arg 2; rw [← hparts]
    exact List.drop_left
  rw [hslice]
  intro hmem
  simpa using List.mem_rtakeWhile_imp hmem

end Text

namespace Item.Document

variable {source : Text} {d : Document}

theorem char_of_mem_tokens (h : scan source = .ok d) {t : Token} (ht : t ∈ d.tokens.toList) :
    source[t.offset]? = some t.char ∧ isStructural t.char := by
  obtain ⟨ls, hlexes, -, htokens, -, -⟩ := lexes_of_scan h
  rw [htokens, mem_tokensFrom_iff fun u hu => hlexes.masked_ne_nil hu, hlexes.text_eq,
    Nat.sub_zero] at ht
  exact ⟨ht.2.1, ht.2.2.1⟩

theorem partner_brackets (h : scan source = .ok d) {a b : Nat} (hp : d.partner? a = some b) :
    ∃ s ∈ d.tokens.toList, ∃ t ∈ d.tokens.toList, s.offset = a ∧ t.offset = b ∧
      opener? t.char = some s.char := by
  obtain ⟨-, -, htokens, -, hpair⟩ := of_scan h
  simpa [htokens] using (pairing_of_pair hpair).brackets (a, b) (mem_partners hp)

theorem opener_unique {c c' opener : Char} (h : opener? c = some opener)
    (h' : opener? c' = some opener) : c = c' := by
  obtain ⟨rfl, rfl⟩ | ⟨rfl, rfl⟩ := opener_cases h
  · obtain ⟨rfl, -⟩ | ⟨-, habsurd⟩ := opener_cases h'
    · rfl
    · simp at habsurd
  · obtain ⟨-, habsurd⟩ | ⟨rfl, -⟩ := opener_cases h'
    · simp at habsurd
    · rfl

/-- Tokens of these two kinds that are partners. -/
structure Brackets (d : Document) (opener closer : Char) (a b : Nat) : Prop where
  opens : ⟨opener, a⟩ ∈ d.tokens.toList
  closes : ⟨closer, b⟩ ∈ d.tokens.toList
  partner : d.partner? a = some b

theorem brackets_of_partner (h : scan source = .ok d) {opener closer : Char}
    (hkind : opener? closer = some opener) {a b : Nat} (ha : ⟨opener, a⟩ ∈ d.tokens.toList)
    (hp : d.partner? a = some b) : d.Brackets opener closer a b := by
  obtain ⟨s, hs, ⟨c, b⟩, ht, rfl, rfl, hc⟩ := partner_brackets h hp
  have hopener : s.char = opener := by
    have hchar := (char_of_mem_tokens h hs).1
    rw [(char_of_mem_tokens h ha).1] at hchar
    exact (Option.some.inj hchar).symm
  obtain rfl := opener_unique (hopener ▸ hc) hkind
  exact ⟨ha, ht, hp⟩

theorem char_of_partner (h : scan source = .ok d) {a b : Nat} {c : Char} (hc : source[a]? = some c)
    (hp : d.partner? a = some b) : ∃ x, source[b]? = some x ∧ opener? x = some c := by
  obtain ⟨s, hs, t, ht, rfl, rfl, hkind⟩ := partner_brackets h hp
  rw [(char_of_mem_tokens h hs).1] at hc
  exact ⟨t.char, (char_of_mem_tokens h ht).1, by rw [hkind, hc]⟩

section

variable (hd : scan source = .ok d)
include hd

theorem mask_inside {m : Span} (hm : m ∈ d.masks.toList) :
    m.start < m.stop ∧ m.stop ≤ source.length := by
  obtain ⟨ls, hlexes, -, -, hmasks, -⟩ := lexes_of_scan hd
  rw [hmasks] at hm
  have hinside := mem_masksFrom (fun u hu => hlexes.masked_ne_nil hu) hm
  rwa [hlexes.text_eq, Nat.zero_add] at hinside

theorem matching_of_scan : Matching d.tokens.toList d.partners := by
  obtain ⟨ls, -, -, htokens, -, hpair⟩ := lexes_of_scan hd
  rw [htokens]
  refine matching_of_pair hpair (tokensFrom_sorted 0 ls) fun t ht => ?_
  exact (char_of_mem_tokens hd (htokens ▸ ht)).2

theorem exists_pair {t : Token} (ht : t ∈ d.tokens.toList)
    (hclose : t.char = '\x7d' ∨ t.char = ')') : ∃ a, (a, t.offset) ∈ d.partners := by
  have hmem : t.offset ∈ (closers d.tokens.toList).map (·.offset) :=
    List.mem_map_of_mem (List.mem_filter.mpr ⟨ht, by simpa using hclose⟩)
  obtain ⟨⟨a, b⟩, hab, hb⟩ := List.mem_map.mp ((matching_of_scan hd).closes.mem_iff.mpr hmem)
  obtain rfl : b = t.offset := hb
  exact ⟨a, hab⟩

theorem partner_of_mem {a b : Nat} (hab : (a, b) ∈ d.partners) : d.partner? a = some b := by
  have hsome : (d.partner? a).isSome := by
    rw [partner?, List.lookup_isSome_iff]
    exact ⟨(a, b), hab, by simp⟩
  obtain ⟨b', hb'⟩ := Option.isSome_iff_exists.mp hsome
  have heq := (matching_of_scan hd).functional _ hab _ (mem_partners hb') rfl
  rw [hb', (Prod.mk.inj heq).2]

theorem exists_partner {t : Token} (ht : t ∈ d.tokens.toList)
    (hopen : t.char = '\x7b' ∨ t.char = '(') : ∃ b, d.partner? t.offset = some b := by
  have hmem : t.offset ∈ (openers d.tokens.toList).map (·.offset) :=
    List.mem_map_of_mem (List.mem_filter.mpr ⟨ht, by simpa using hopen⟩)
  obtain ⟨⟨a, b⟩, hab, ha⟩ := List.mem_map.mp ((matching_of_scan hd).opens.mem_iff.mpr hmem)
  obtain rfl : a = t.offset := ha
  exact ⟨b, partner_of_mem hd hab⟩

end

end Item.Document

namespace Item.Function

/-- The entry is the line from its offset up to the newline at `stop`. -/
structure PreludeLine.Stands (source : Text) (l : PreludeLine) (stop : Nat) : Prop where
  le : l.offset ≤ stop
  newline : source[stop]? = some '\n'
  line : '\n' ∉ source.slice l.offset stop
  text : l.text = Text.trim (source.slice l.offset stop)
  isPrelude : isPrelude l.text

theorem PreludeLine.Stands.fullLine_eq {source : Text} {l : PreludeLine} {stop : Nat}
    (h : l.Stands source stop) : fullLine source l.offset = source.slice l.offset (stop + 1) := by
  have hrest : source.drop l.offset = source.slice l.offset stop ++
      '\n' :: source.drop (stop + 1) := by
    obtain ⟨hlt, hget⟩ := List.getElem?_eq_some_iff.mp h.newline
    rw [← hget, ← List.drop_eq_getElem_cons hlt, Text.slice_append_drop source h.le]
  have htake : ∀ c ∈ source.slice l.offset stop, (c != '\n') = true := fun c hc => by
    simpa using ne_of_mem_of_not_mem hc h.line
  rw [fullLine, hrest, List.takeWhile_append_of_pos htake, Text.slice_eq_concat h.le h.newline]
  simp

theorem PreludeLine.Stands.exists_ink {source : Text} {l : PreludeLine} {stop : Nat}
    (h : l.Stands source stop) :
    ∃ i c, l.offset ≤ i ∧ i < stop ∧ source[i]? = some c ∧ Text.isBlank c = false ∧
      '\n' ∉ source.slice l.offset i := by
  have hshows : Text.isBlankText (source.slice l.offset stop) = false := by
    rw [Bool.eq_false_iff]
    intro hblank
    have hprelude := h.isPrelude
    rw [h.text, Text.trim, Text.trimStart,
      List.dropWhile_eq_nil_iff.mpr (List.all_eq_true.mp hblank)] at hprelude
    contradiction
  obtain ⟨c, hmem, hc⟩ := List.all_eq_false.mp hshows
  obtain ⟨j, hj, rfl⟩ := List.getElem_of_mem hmem
  have hlength := Text.length_slice_le source l.offset stop
  refine ⟨l.offset + j, _, Nat.le_add_right _ j, by omega, ?_, by simpa using hc,
    fun hnewline => h.line ?_⟩
  · rw [← Text.getElem?_slice (b := stop) (Nat.le_add_right _ j) (by omega),
      Nat.add_sub_cancel_left, List.getElem?_eq_getElem]
  · exact (Text.slice_infix_slice source (Nat.le_refl _) (Nat.le_add_right _ j) (by omega)).subset
      hnewline

def topOf (ls : List PreludeLine) (n : Nat) : Nat :=
  match ls with
  | first :: _ => first.offset
  | [] => n

theorem newline_of_startsLine {source : Text} {n : Nat} (hn : 0 < n) (hle : n ≤ source.length)
    (h : startsLine source n) : source[n - 1]? = some '\n' := by
  have hlast : (source.take n).getLast? = source[n - 1]? := by
    rw [List.getLast?_eq_getElem?, List.length_take, Nat.min_eq_left hle,
      List.getElem?_take_of_lt (by omega)]
  obtain ⟨c, hc⟩ : ∃ c, source[n - 1]? = some c := ⟨source[n - 1], List.getElem?_eq_getElem _⟩
  rw [hc, startsLine_iff.mp h c (by rw [hlast, hc]; rfl)]

theorem preludeAbove_spec {source : Text} (fuel : Nat) {n : Nat} (hline : startsLine source n)
    (hle : n ≤ source.length) (acc : List PreludeLine) :
    ∃ ls, preludeAbove source fuel n acc = ls ++ acc ∧
      (∀ l ∈ ls, ∃ stop, l.Stands source stop ∧ stop < n) ∧ topOf ls n ≤ n ∧
      ls.flatMap (fun l => fullLine source l.offset) = source.slice (topOf ls n) n := by
  induction fuel generalizing n acc with
  | zero => exact ⟨[], rfl, by simp, Nat.le_refl n, by simp [topOf]⟩
  | succ fuel ih =>
    unfold preludeAbove
    split
    · exact ⟨[], rfl, by simp, Nat.le_refl n, by simp [topOf]⟩
    · rename_i hn
      simp only
      split
      · rename_i hprelude
        have hprevious := lineStart_le source (n - 1)
        obtain ⟨ls, hls, hstands, htop, htext⟩ :=
          ih (startsLine_lineStart source (n - 1)) (by omega)
          (⟨source.lineStart (n - 1),
            Text.trim (source.slice (source.lineStart (n - 1)) (n - 1))⟩ :: acc)
        have hlast : PreludeLine.Stands source
            ⟨source.lineStart (n - 1), Text.trim (source.slice (source.lineStart (n - 1)) (n - 1))⟩
              (n - 1) :=
          ⟨hprevious, newline_of_startsLine (by omega) hle hline, Text.newline_not_mem_line _ _,
            rfl, hprelude⟩
        have htop' : topOf (ls ++ [⟨source.lineStart (n - 1),
            Text.trim (source.slice (source.lineStart (n - 1)) (n - 1))⟩]) n =
            topOf ls (source.lineStart (n - 1)) := by
          cases ls <;> rfl
        refine ⟨ls ++ [_], by rw [hls, List.append_assoc]; rfl, ?_, by omega, ?_⟩
        · intro l hl
          rcases List.mem_append.mp hl with hl | hl
          · obtain ⟨stop, hstop, hlt⟩ := hstands l hl
            exact ⟨stop, hstop, by omega⟩
          · obtain rfl := List.mem_singleton.mp hl
            exact ⟨n - 1, hlast, by omega⟩
        · rw [List.flatMap_append, htext, List.flatMap_singleton, hlast.fullLine_eq, htop',
            Nat.sub_add_cancel (by omega)]
          exact Text.slice_append_slice source htop (by omega)
      · exact ⟨[], rfl, by simp, Nat.le_refl n, by simp [topOf]⟩

section

variable {source : Text} {d : Document} {e : Extent}

theorem brace_of_mem {c : Char} (h : c ∈ "\x7b;".toList) (hsemicolon : c ≠ ';') : c = '\x7b' := by
  have hcases : c = '\x7b' ∨ c = ';' := by simpa using h
  exact hcases.resolve_right hsemicolon

section

variable {headerStop : Nat} (hd : Document.scan source = .ok d) (he : extent? d headerStop = some e)
include hd he

theorem extent_tokens :
    d.Brackets '(' ')' e.opening e.closing ∧
      d.Brackets '\x7b' '\x7d' e.bodyStart (e.bodyStop - 1) := by
  obtain ⟨opening, body, stop, hopening, hparen, hclosing, hbody, hsemicolon, hstop, ho, hs, hb⟩ :=
    extent_eq_some_iff.mp he
  obtain ⟨hopening, -, -⟩ := Document.nextToken_spec hd hopening
  obtain ⟨hbody, -, hkind⟩ := Document.nextToken_spec hd hbody
  have hbrace := brace_of_mem hkind hsemicolon
  rw [ho, hs, hb, Nat.add_sub_cancel]
  refine ⟨Document.brackets_of_partner hd (by decide) ?_ hclosing,
    Document.brackets_of_partner hd (by decide) ?_ hstop⟩
  · rwa [← hparen]
  · rwa [← hbrace]

theorem extent_brackets :
    source[e.opening]? = some '(' ∧ source[e.closing]? = some ')' ∧
      source[e.bodyStart]? = some '\x7b' ∧
      source[e.bodyStop - 1]? = some '\x7d' := by
  obtain ⟨hparameters, hbody⟩ := extent_tokens hd he
  exact ⟨(Document.char_of_mem_tokens hd hparameters.opens).1,
    (Document.char_of_mem_tokens hd hparameters.closes).1,
    (Document.char_of_mem_tokens hd hbody.opens).1, (Document.char_of_mem_tokens hd hbody.closes).1⟩

theorem stop_le_length : e.bodyStop ≤ source.length := by
  obtain ⟨-, -, -, hlast⟩ := extent_brackets hd he
  obtain ⟨hlt, -⟩ := List.getElem?_eq_some_iff.mp hlast
  omega

end

theorem slice_extent (hd : Document.scan source = .ok d) {start headerStop : Nat}
    (hstart : start ≤ headerStop) (he : extent? d headerStop = some e) :
    source.slice start e.bodyStop = source.slice start headerStop ++
      (source.slice headerStop e.opening ++
      '(' :: (source.slice (e.opening + 1) e.closing ++
        ')' :: (source.slice (e.closing + 1) e.bodyStart ++
          source.slice e.bodyStart e.bodyStop))) := by
  obtain ⟨h₁, h₂, h₃, h₄, -⟩ := extent_spec hd he
  obtain ⟨hopen, hclose, -, -⟩ := extent_brackets hd he
  rw [Text.slice_append_slice source (show e.closing + 1 ≤ e.bodyStart by omega) (by omega),
    ← Text.slice_eq_cons hclose (by omega),
    Text.slice_append_slice source (show e.opening + 1 ≤ e.closing by omega) (by omega),
    ← Text.slice_eq_cons hopen (by omega), Text.slice_append_slice source h₁ (by omega),
    Text.slice_append_slice source hstart (by omega)]

end

namespace Found

def leads (d : Document) (f : Found) : Bool :=
  Text.isBlankText (d.source.slice (d.source.lineStart f.start) f.start)

/-- The lines above that belong to the function. -/
def above (d : Document) (f : Found) : List PreludeLine :=
  if f.leads d then prelude d.source (d.source.lineStart f.start) else []

def top (d : Document) (f : Found) : Nat :=
  topOf (f.above d) (if f.leads d then d.source.lineStart f.start else f.start)

theorem start_piece (d : Document) (f : Found) : (f.piece d).start = f.top d := by
  unfold top topOf
  rfl

theorem stop_piece (d : Document) (f : Found) : (f.piece d).stop = f.extent.bodyStop := rfl

theorem text_piece (d : Document) (f : Found) :
    (f.piece d).text = d.source.slice (f.top d) f.extent.bodyStop := by
  unfold top topOf
  rfl

variable {source : Text} {d : Document} {f : Found}

theorem above_spec (hd : Document.scan source = .ok d) (hstart : f.start ≤ source.length)
    (hlead : f.leads d) :
    (∀ l ∈ f.above d, ∃ stop, l.Stands source stop ∧ stop < source.lineStart f.start) ∧
      f.top d ≤ source.lineStart f.start ∧
      (f.above d).flatMap (fun l => fullLine source l.offset) =
        source.slice (f.top d) (source.lineStart f.start) := by
  have hsource := (Document.of_scan hd).1
  have hline := lineStart_le source f.start
  obtain ⟨ls, hls, hstands, htop, htext⟩ := preludeAbove_spec (source.lineStart f.start)
    (startsLine_lineStart source f.start) (by omega) []
  have habove : f.above d = ls := by
    rw [above, if_pos hlead, hsource, prelude, hls, List.append_nil]
  rw [top, habove, if_pos hlead, hsource]
  exact ⟨hstands, htop, htext⟩

theorem lt_length (hf : Site d f.start f.header f.extent) : f.start < d.source.length := by
  by_contra hge
  have hread := hf.header
  rw [List.drop_eq_nil_of_le (by omega)] at hread
  contradiction

theorem top_le (f : Found) (hd : Document.scan source = .ok d)
    (hf : Site d f.start f.header f.extent) :
    f.top d ≤ f.start := by
  have hsource := (Document.of_scan hd).1
  have hlength := lt_length hf
  have hline := lineStart_le source f.start
  rw [hsource] at hlength
  by_cases hlead : f.leads d
  · have hle := (above_spec hd (Nat.le_of_lt hlength) hlead).2.1
    omega
  · rw [top, above, if_neg hlead, if_neg hlead]
    exact Nat.le_refl _

theorem top_lt (f : Found) (hd : Document.scan source = .ok d)
    (hf : Site d f.start f.header f.extent) :
    f.top d < f.extent.bodyStop := by
  obtain ⟨h₁, h₂, h₃, h₄, -⟩ := extent_spec hd hf.extent
  have hle := f.top_le hd hf
  omega

theorem visible (hd : Document.scan source = .ok d) (hf : Site d f.start f.header f.extent) :
    Edit.Visible source (f.top d) f.extent.bodyStop := by
  have hsource := (Document.of_scan hd).1
  have hlength := lt_length hf
  obtain ⟨h₁, h₂, h₃, h₄, -⟩ := extent_spec hd hf.extent
  have hline := lineStart_le source f.start
  rw [hsource] at hlength
  -- The header starts with ink.
  have hink : ∃ c, source[f.start]? = some c ∧ Text.isBlank c = false := by
    obtain ⟨c, cs, hdrop, hc, -⟩ := (Header.leads_of_read hf.header).exists_cons
    refine ⟨c, ?_, hc⟩
    have hget := congrArg (·[0]?) hdrop
    simpa [hsource] using hget
  have hle := f.top_le hd hf
  have hfirst : ∃ i c, f.top d ≤ i ∧ i ≤ f.start ∧ source[i]? = some c ∧ Text.isBlank c = false ∧
      '\n' ∉ source.slice (f.top d) i := by
    obtain ⟨c, hget, hc⟩ := hink
    by_cases hlead : f.leads d
    · obtain ⟨hstands, -, -⟩ := above_spec hd (Nat.le_of_lt hlength) hlead
      cases habove : f.above d with
      | nil =>
        have htop : f.top d = source.lineStart f.start := by
          rw [top, habove, if_pos hlead, hsource]
          rfl
        rw [htop]
        exact ⟨f.start, c, hline, Nat.le_refl _, hget, hc, Text.newline_not_mem_line _ _⟩
      | cons first rest =>
        have htop : f.top d = first.offset := by rw [top, habove]; rfl
        obtain ⟨stop, hfirst, hstop⟩ := hstands first (by rw [habove]; simp)
        obtain ⟨i, c, h₁, h₂, hi, hc, hnewline⟩ := hfirst.exists_ink
        rw [htop]
        exact ⟨i, c, h₁, by omega, hi, hc, hnewline⟩
    · have htop : f.top d = f.start := by
        rw [top, above, if_neg hlead, if_neg hlead]
        rfl
      rw [htop]
      exact ⟨f.start, c, Nat.le_refl _, Nat.le_refl _, hget, hc, by simp⟩
  obtain ⟨i, c, hti, hi, hget, hc, hnewline⟩ := hfirst
  refine ⟨⟨i, c, hti, by omega, hget, hc, hnewline⟩,
    source.slice (f.top d) (f.extent.bodyStop - 1), '\x7d', ?_, by decide⟩
  obtain ⟨-, -, -, hlast⟩ := extent_brackets hd hf.extent
  rw [← Text.slice_eq_concat (by omega) hlast, Nat.sub_add_cancel (by omega)]

end Found

end Item.Function

end Graft
