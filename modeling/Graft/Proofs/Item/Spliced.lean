import Graft.Proofs.Item.Cut

set_option autoImplicit false

/-!
Edits of a source that can be read. If each edit takes away what lies between two cuts and puts in a
whole text, then the outcome can be read as far as its comments and literals go, and its brackets
and semicolons are those of the source that are left with those of the texts put in.
-/

namespace Graft

namespace Item

open Lexeme

/-- The brackets and semicolons of a text. -/
def outline (t : Text) : Text := shape (Lexeme.read none t).1

theorem Firm.outline_eq {t σ : Text} (h : Firm t σ) :
    (Lexeme.read none t).2 = none ∧ outline t = σ := by
  obtain ⟨ls, rfl, h⟩ := h
  have hread := (h [] (by simp [Breaks])).read_eq
  simp [outline, hread]

/-- A text that can be read on its own and ends with a bracket, with no quote left hanging. -/
structure Whole (t : Text) : Prop where
  readable : ∃ d, Document.scan t = .ok d
  bracket : ∃ c, (Lexeme.read none t).1.getLast? = some (.plain c) ∧ Document.isStructural c
  quotes : ¬Hangs t

namespace Whole

variable {t : Text}

theorem lexes (h : Whole t) : Lexes none t (Lexeme.read none t).1 [] :=
  Lexes.of_read (Prod.ext rfl (Document.scan_isOk_iff.mp h.readable).1)

theorem nest_outline (h : Whole t) : Document.nest [] (outline t) = some [] :=
  (Document.scan_isOk_iff.mp h.readable).2

theorem solid (h : Whole t) :
    Solid t (outline t) ∧ ∃ x c, t = x ++ [c] ∧ Document.isStructural c := by
  obtain ⟨c, hlast, hc⟩ := h.bracket
  obtain ⟨ls, hls⟩ := List.getLast?_eq_some_iff.mp hlast
  have hlexes := h.lexes
  have htext := hlexes.text_eq
  rw [hls, List.flatMap_append] at htext
  have hconcat : t = ls.flatMap Lexeme.text ++ [c] := by
    rw [← htext]
    rfl
  refine ⟨?_, _, c, hconcat, hc⟩
  have hquotes := h.quotes
  rw [outline, hls]
  rw [hls, hconcat] at hlexes
  rw [hconcat] at hquotes ⊢
  exact hlexes.solid (isStructural_spec hc).2.2.2.1 hquotes

end Whole

section

variable {x b σ τ : Text}

theorem isBlankText_of_isIndent (hb : ∀ c ∈ b, Text.isIndent c) : b.isBlankText :=
  List.all_eq_true.mpr fun c hc => Text.isBlank_of_isIndent (hb c hc)

theorem solid_of_dropIndent (h : Solid (x.dropLastWhile Text.isIndent) σ) : Solid x σ := by
  obtain ⟨b, hb, hall⟩ := Text.exists_dropLastWhile_append Text.isIndent x
  rw [hb]
  exact h.append_blanks (isBlankText_of_isIndent hall)

theorem midWord_of_dropIndent (h : midWord (lastOr none (x.dropLastWhile Text.isIndent)) = false) :
    midWord (lastOr none x) = false := by
  obtain ⟨b, hb, hall⟩ := Text.exists_dropLastWhile_append Text.isIndent x
  rw [hb, lastOr_append]
  exact midWord_lastOr h fun c hc =>
    isWord_of_isBlank (Text.isBlank_of_isIndent (hall c (List.mem_of_getLast? hc)))

theorem eq_nil_of_firm_nil (h : Firm [] σ) : σ = [] := by
  obtain ⟨ls, rfl, h⟩ := h
  rw [(h [] (by simp [Breaks])).eq_nil]
  rfl

end

/-- Where a span can start: at a cut, after characters that are settled. -/
structure Opening (source : Text) (ls : List Lexeme) (a : Nat) : Prop where
  cut : Cut source ls a
  steady : ∀ c ∈ (Text.dropLastWhile Text.isIndent (source.take a)).getLast?, isSteady c
  quotes : ¬Hangs (Text.dropLastWhile Text.isIndent (source.take a))
  line : 0 < a → (source.take a).getLast? = some '\n' ∨ ¬Breaks (source.drop a)

/-- What an edit of the source must be like. -/
structure Fits (source : Text) (ls : List Lexeme) (e : Edit) : Prop where
  nonneg : 0 ≤ e.start
  le : e.start ≤ e.stop
  cut : e.start = e.stop → Cut source ls e.start.toNat
  opening : e.start < e.stop → Opening source ls e.start.toNat
  closing : e.start < e.stop → Cut source ls e.stop.toNat ∧
    ∃ c, source[e.stop.toNat - 1]? = some c ∧ Text.isBlank c = false
  inserted : e.start = e.stop → e.text.isSome
  whole : ∀ t ∈ e.text, Whole t

/-- What is written is of the given shape, and as long as there is more to come it is settled. -/
structure Written (source : Text) (ls : List Lexeme) (p : Edit.Progress) (σ : Text) : Prop where
  cut : Cut source ls p.cursor
  firm : Firm p.out σ
  solid : p.cursor < source.length → Solid (p.out.dropLastWhile Text.isIndent) σ
  calm : p.cursor < source.length →
    midWord (lastOr none (p.out.dropLastWhile Text.isIndent)) = false

section

variable {source : Text} {ls : List Lexeme} {p : Edit.Progress} {σ : Text}
variable {a n : Nat} {out : Text} {e : Edit} {es : List Edit}

theorem Cut.ink_slice_of_blank {b : Nat} (ha : Cut source ls a) (hab : a ≤ b)
    (hb : b ≤ source.length) (hblank : Text.isBlankText (source.slice a b)) :
    ((skeleton ls).slice a b).ink = [] := by
  obtain ⟨ms, hms, hshape⟩ := ha.slice (ha.skip hab hb hblank) hab
  rw [← List.append_nil (source.slice a b)] at hms
  obtain ⟨ms', rfl, hms'⟩ := hms.of_blanks hblank
  rw [← hshape, hms'.eq_nil, List.append_nil, shape_blanks hblank]

theorem Written.copy (h : Written source ls p σ) (hlt : p.cursor < source.length)
    (ha : Opening source ls a) :
    Solid (Text.dropLastWhile Text.isIndent (p.out ++ source.slice p.cursor (max a p.cursor)))
        (σ ++ ((skeleton ls).slice p.cursor a).ink) ∧
      midWord (lastOr none (Text.dropLastWhile Text.isIndent
        (p.out ++ source.slice p.cursor (max a p.cursor)))) = false := by
  rcases Nat.le_total a p.cursor with hle | hle
  · rw [Nat.max_eq_right hle, Text.slice_self, Text.slice_of_le hle, List.append_nil, Text.ink_nil,
      List.append_nil]
    exact ⟨h.solid hlt, h.calm hlt⟩
  rw [Nat.max_eq_left hle]
  obtain ⟨ms, hms, hshape⟩ := h.cut.slice ha.cut hle
  rw [← hshape]
  have htake := (Text.take_append_slice source hle).symm
  by_cases hindent : Text.dropLastWhile Text.isIndent (source.slice p.cursor a) = []
  · -- Only indentation is copied, so what was written is settled as before.
    obtain ⟨b, hb, hall⟩ := Text.exists_dropLastWhile_append Text.isIndent (source.slice p.cursor a)
    rw [hindent, List.nil_append] at hb
    rw [hb] at hms ⊢
    have hblank := isBlankText_of_isIndent hall
    rw [← List.append_nil b] at hms
    obtain ⟨ms', rfl, hms'⟩ := hms.of_blanks hblank
    rw [Text.dropLastWhile_append_of_all _ hall, hms'.eq_nil, List.append_nil, shape_blanks hblank,
      List.append_nil]
    exact ⟨h.solid hlt, h.calm hlt⟩
  · have hne : source.slice p.cursor a ≠ [] := fun hnil => hindent (by rw [hnil]; rfl)
    have hsteady := ha.steady
    have hquotes := ha.quotes
    have hpos : 0 < a := by
      by_contra hzero
      rw [Text.slice_of_le (by omega)] at hne
      exact hne rfl
    have hline := ha.line hpos
    rw [htake, Text.dropLastWhile_append_of_ne_nil _ hindent] at hsteady hquotes
    rw [List.getLast?_append_of_ne_nil _ hindent] at hsteady
    rw [htake, List.getLast?_append_of_ne_nil _ hne] at hline
    rw [Text.dropLastWhile_append_of_ne_nil _ hindent]
    have hout : midWord (lastOr none p.out) = false := midWord_of_dropIndent (h.calm hlt)
    constructor
    · refine (solid_of_dropIndent (h.solid hlt)).append hout ?_
      exact hms.solid_dropIndent hsteady (fun hangs => hquotes (hangs.append _)) hline
    · rw [lastOr_append]
      exact midWord_lastOr hout fun c hc => (isSteady_spec (hsteady c hc)).2.2

theorem Written.copy_firm (h : Written source ls p σ) (ha : Cut source ls a) :
    Firm (p.out ++ source.slice p.cursor (max a p.cursor))
      (σ ++ ((skeleton ls).slice p.cursor a).ink) := by
  rcases Nat.le_total a p.cursor with hle | hle
  · rw [Nat.max_eq_right hle, Text.slice_self, Text.slice_of_le hle, List.append_nil, Text.ink_nil,
      List.append_nil]
    exact h.firm
  rw [Nat.max_eq_left hle]
  rcases Nat.lt_or_ge p.cursor source.length with hlt | hge
  · obtain ⟨ms, hms, hshape⟩ := h.cut.slice ha hle
    rw [← hshape]
    refine (solid_of_dropIndent (h.solid hlt)).append_firm (midWord_of_dropIndent (h.calm hlt)) ?_
    exact ⟨ms, rfl, fun y hy => hms.exchange (Or.inl hy)⟩
  · have hend : a = p.cursor := Nat.le_antisymm (Nat.le_trans ha.1 hge) hle
    rw [hend, Text.slice_self, Text.slice_self, List.append_nil, Text.ink_nil, List.append_nil]
    exact h.firm

theorem Written.of_solid (hcut : Cut source ls n)
    (hsolid : Solid (out.dropLastWhile Text.isIndent) σ)
    (hcalm : midWord (lastOr none (out.dropLastWhile Text.isIndent)) = false) :
    Written source ls ⟨out, n⟩ σ :=
  ⟨hcut, (solid_of_dropIndent hsolid).firm, fun _ => hsolid, fun _ => hcalm⟩

theorem Whole.append {t : Text} (ht : Whole t) (hout : Solid out σ)
    (hcalm : midWord (lastOr none out) = false) :
    Solid (Text.dropLastWhile Text.isIndent (out ++ t)) (σ ++ outline t) ∧
      midWord (lastOr none (Text.dropLastWhile Text.isIndent (out ++ t))) = false := by
  obtain ⟨hsolid, x, c, hx, hc⟩ := ht.solid
  obtain ⟨-, -, hword, -, hindent⟩ := isStructural_spec hc
  have hkeep : Text.dropLastWhile Text.isIndent (out ++ t) = out ++ t := by
    rw [hx, ← List.append_assoc, Text.dropLastWhile_concat _ hindent]
  rw [hkeep]
  refine ⟨hout.append hcalm hsolid, ?_⟩
  rw [lastOr_append]
  exact midWord_lastOr hcalm (by simp [hx, hword])

theorem lineEnd_le {t : Text} (h : Edit.lineEnd? t = some n) : n ≤ t.length := by
  obtain ⟨stop, rest, -, heq, hn⟩ := Edit.eq_of_lineEnd h
  rw [heq, hn]
  simp only [List.length_append]
  omega

theorem closeGap_spec (source : Text) {p : Edit.Progress} (hp : p.cursor ≤ source.length) :
    p.cursor ≤ (Edit.closeGap source p).cursor ∧ (Edit.closeGap source p).cursor ≤ source.length ∧
      Text.isBlankText (source.slice p.cursor (Edit.closeGap source p).cursor) ∧
      Text.dropLastWhile Text.isIndent (Edit.closeGap source p).out =
        Text.dropLastWhile Text.isIndent p.out := by
  have hidem : ∀ t : Text, Text.dropLastWhile Text.isIndent (t.dropLastWhile Text.isIndent) =
      t.dropLastWhile Text.isIndent := List.rdropWhile_idempotent Text.isIndent
  have hbound : ∀ {c n : Nat}, c ≤ source.length → Edit.lineEnd? (source.drop c) = some n →
      c + n ≤ source.length := by
    intro c n hc hn
    have := lineEnd_le hn
    rw [List.length_drop] at this
    omega
  have hblank : ∀ {c n : Nat}, Edit.lineEnd? (source.drop c) = some n →
      Text.isBlankText (source.slice c (c + n)) :=
    fun hn => Text.ink_eq_nil_iff.mp (Edit.ink_slice_of_lineEnd hn)
  unfold Edit.closeGap
  split
  · exact ⟨Nat.le_refl _, hp, by rw [Text.slice_self]; rfl, rfl⟩
  · rename_i n hn
    have hfirst : p.cursor + n ≤ source.length := hbound hp hn
    simp only
    split
    · rename_i m hm
      split
      · refine ⟨by simp only; omega, hbound hfirst hm, ?_, hidem _⟩
        have hall := Text.slice_append_slice source (Nat.le_add_right p.cursor n)
          (Nat.le_add_right (p.cursor + n) m)
        rw [← Text.ink_eq_nil_iff, ← hall, Text.ink_append, Text.ink_eq_nil_iff.mpr (hblank hn),
          Text.ink_eq_nil_iff.mpr (hblank hm)]
        rfl
      · exact ⟨by simp only; omega, hfirst, hblank hn, hidem _⟩
    · exact ⟨by simp only; omega, hfirst, hblank hn, hidem _⟩

theorem Written.delete (hcut : Cut source ls n) (hsolid : Solid (out.dropLastWhile Text.isIndent) σ)
    (hcalm : midWord (lastOr none (out.dropLastWhile Text.isIndent)) = false) :
    Written source ls (Edit.delete source ⟨out, n⟩) σ ∧
      n ≤ (Edit.delete source ⟨out, n⟩).cursor ∧
      Text.isBlankText (source.slice n (Edit.delete source ⟨out, n⟩).cursor) := by
  obtain ⟨hle, hlen, hblank, hout⟩ := closeGap_spec source (p := ⟨out, n⟩) hcut.1
  have hnext : Cut source ls (Edit.closeGap source ⟨out, n⟩).cursor := hcut.skip hle hlen hblank
  rw [← hout] at hsolid hcalm
  simp only [Edit.delete]
  split
  · rename_i hrest
    have hall : Text.isBlankText (source.slice n source.length) := by
      have hend := Text.slice_append_drop source hlen
      rw [List.drop_length, List.append_nil] at hend
      rw [← Text.ink_eq_nil_iff, ← Text.slice_append_slice source hle hlen, Text.ink_append,
        Text.ink_eq_nil_iff.mpr hblank, hend, Text.ink_eq_nil_iff.mpr hrest]
      rfl
    refine ⟨⟨hcut.skip hcut.1 (Nat.le_refl _) hall,
      (solid_of_dropIndent hsolid).firm.trimEnd, ?_, ?_⟩, hcut.1, hall⟩
    · intro hlt
      exact absurd hlt (Nat.lt_irrefl _)
    · intro hlt
      exact absurd hlt (Nat.lt_irrefl _)
  · exact ⟨.of_solid hnext hsolid hcalm, hle, hblank⟩

theorem midWord_newline (x : Text) : midWord (lastOr none (x ++ ['\n'])) = false := by
  rw [lastOr_append]
  rfl

theorem Firm.lead (hout : Firm out σ) :
    Solid (Edit.lead out) σ ∧ midWord (lastOr none (Edit.lead out)) = false := by
  have hfirm := hout.trimEnd
  unfold Edit.lead
  split
  · rename_i hempty
    rw [List.isEmpty_iff.mp hempty] at hfirm
    rw [eq_nil_of_firm_nil hfirm]
    exact ⟨solid_nil, rfl⟩
  · split
    · exact ⟨hfirm.append_newline, midWord_newline _⟩
    · have htwo : out.trimEnd ++ ['\n', '\n'] = (out.trimEnd ++ ['\n']) ++ ['\n'] := by simp
      rw [htwo]
      exact ⟨hfirm.append_newline.append_blanks (by decide), midWord_newline _⟩

theorem Written.insert {t : Text} (hcut : Cut source ls n) (hout : Firm out σ) (ht : Whole t) :
    Written source ls (Edit.insert source t ⟨out, n⟩) (σ ++ outline t) := by
  obtain ⟨hsolid, hcalm⟩ := hout.lead
  obtain ⟨htext, htextCalm⟩ := ht.append hsolid hcalm
  obtain ⟨tail, htail, heq⟩ := Edit.insert_eq source t ⟨out, n⟩
  rw [heq]
  rcases htail with rfl | rfl
  · rw [List.append_nil]
    exact .of_solid hcut htext htextCalm
  · have hkeep : Text.dropLastWhile Text.isIndent (Edit.lead out ++ t ++ ['\n']) =
        Edit.lead out ++ t ++ ['\n'] := Text.dropLastWhile_concat _ (by decide)
    refine .of_solid hcut ?_ ?_
    · rw [hkeep]
      exact (solid_of_dropIndent htext).append_blanks (by decide)
    · rw [hkeep]
      exact midWord_newline _

def Ahead (n : Nat) (es : List Edit) : Prop := ∀ e ∈ es, e.start < e.stop → n < e.stop.toNat

def outlined (e : Edit) : Edit := { e with text := e.text.map outline }

theorem isFree_outlined (es : List Edit) : Edit.isFree (es.map outlined) = Edit.isFree es := by
  funext i
  rw [Edit.isFree, Edit.isFree, List.any_map]
  rfl

theorem ink_outline (t : Text) : (outline t).ink = outline t := by
  rw [outline, ← ink_skeleton, Text.ink, Text.ink, List.filter_filter]
  simp

theorem lt_of_blank (he : Fits source ls e) (hspan : e.start < e.stop) {b : Nat}
    (ha : a < e.stop.toNat) (hblank : Text.isBlankText (source.slice a b)) : b < e.stop.toNat := by
  by_contra hle
  obtain ⟨-, c, hc, hink⟩ := he.closing hspan
  have hmem : c ∈ source.slice a b := by
    rw [Text.slice, List.mem_iff_getElem?]
    refine ⟨e.stop.toNat - 1 - a, ?_⟩
    rw [List.getElem?_drop, List.getElem?_take, if_pos (by omega)]
    rwa [Nat.add_sub_cancel' (by omega)]
  rw [List.all_eq_true.mp hblank c hmem] at hink
  contradiction

theorem step_written (h : Written source ls p σ) (he : Fits source ls e)
    (hes : ∀ e' ∈ es, Fits source ls e') (hahead : Ahead p.cursor (e :: es))
    (hnext : ∀ e' ∈ es, e'.start < e'.stop → e.stop < e'.stop) :
    ∃ τ, Written source ls (Edit.step source p e) τ ∧ Ahead (Edit.step source p e).cursor es ∧
      τ ++ (Edit.weave (skeleton ls) (Edit.step source p e).cursor (es.map outlined)).ink =
        σ ++ (Edit.weave (skeleton ls) p.cursor ((e :: es).map outlined)).ink := by
  have hnonneg := he.nonneg
  have hlater : ∀ e' ∈ es, e'.start < e'.stop →
      p.cursor < e'.stop.toNat ∧ e.stop.toNat < e'.stop.toNat := by
    intro e' he' hspan
    have := hnext e' he' hspan
    have := hahead e' (List.mem_cons_of_mem e he') hspan
    have := he.le
    omega
  simp only [Edit.step, List.map_cons, Edit.weave, outlined, Text.ink_append]
  rcases Int.lt_or_eq_of_le he.le with hspan | hpoint
  · -- A span: the cursor is before its end, so there is source left and all is settled.
    obtain ⟨hcut, -⟩ := he.closing hspan
    have hbefore := hahead e (by simp) hspan
    have hstop : max e.stop.toNat p.cursor = e.stop.toNat := Nat.max_eq_left (Nat.le_of_lt hbefore)
    obtain ⟨hsolid, hcalm⟩ := h.copy (Nat.lt_of_lt_of_le hbefore hcut.1) (he.opening hspan)
    rw [hstop]
    cases htext : e.text with
    | none =>
      obtain ⟨hwritten, hle, hblank⟩ := Written.delete hcut hsolid hcalm
      refine ⟨_, hwritten, ?_, ?_⟩
      · intro e' he' hspan'
        exact lt_of_blank (hes e' he') hspan' (hlater e' he' hspan').2 hblank
      · have hskip := hcut.ink_slice_of_blank hle hwritten.cut.1 hblank
        simp only
        rw [Edit.ink_weave_skip _ hle hskip]
        simp
    | some t =>
      obtain ⟨htsolid, htcalm⟩ := (he.whole t htext).append (solid_of_dropIndent hsolid)
        (midWord_of_dropIndent hcalm)
      simp only [if_neg (Int.ne_of_lt hspan)]
      refine ⟨_, .of_solid hcut htsolid htcalm, ?_, ?_⟩
      · intro e' he' hspan'
        exact (hlater e' he' hspan').2
      · simp [ink_outline]
  · -- A point: the line ends there, so nothing need be settled before.
    obtain ⟨t, htext⟩ := Option.isSome_iff_exists.mp (he.inserted hpoint)
    have hcut : Cut source ls (max e.start.toNat p.cursor) := by
      rcases Nat.le_total e.start.toNat p.cursor with hle | hle
      · rw [Nat.max_eq_right hle]
        exact h.cut
      · rw [Nat.max_eq_left hle]
        exact he.cut hpoint
    have hwritten := Written.insert hcut (h.copy_firm (he.cut hpoint)) (he.whole t htext)
    simp only [htext, if_pos hpoint]
    refine ⟨_, hwritten, ?_, ?_⟩
    · intro e' he' hspan'
      have := hlater e' he' hspan'
      simp only [Edit.insert]
      omega
    · simp [Edit.insert, ink_outline, hpoint]

theorem foldl_step_written (h : Written source ls p σ) (hfits : ∀ e ∈ es, Fits source ls e)
    (hahead : Ahead p.cursor es)
    (hsorted : es.Pairwise fun e e' => e'.start < e'.stop → e.stop < e'.stop) :
    ∃ τ, Written source ls (es.foldl (Edit.step source) p) τ ∧
      τ ++ Text.ink ((skeleton ls).drop (es.foldl (Edit.step source) p).cursor) =
        σ ++ (Edit.weave (skeleton ls) p.cursor (es.map outlined)).ink := by
  induction es generalizing p σ with
  | nil => exact ⟨σ, h, rfl⟩
  | cons e es ih =>
    obtain ⟨hfirst, htail⟩ := List.pairwise_cons.mp hsorted
    have hes : ∀ e' ∈ es, Fits source ls e' := fun e' he' => hfits e' (List.mem_cons_of_mem e he')
    obtain ⟨τ, hstep, hahead', hweave⟩ := step_written h (hfits e (by simp)) hes hahead hfirst
    obtain ⟨τ', hrun, hweave'⟩ := ih hstep hes hahead' htail
    exact ⟨τ', hrun, hweave'.trans hweave⟩

end

def Apart (a b : Edit) : Prop :=
  a.start < a.stop → b.start < b.stop →
    ¬(a.start ≤ b.start ∧ b.stop ≤ a.stop) ∧ ¬(b.start ≤ a.start ∧ a.stop ≤ b.stop)

section

variable {source : Text} {ls : List Lexeme} {edits : List Edit}

theorem pairwise_stop_mergeSort (hspan : ∀ e ∈ edits, e.start ≤ e.stop)
    (hapart : edits.Pairwise Apart) :
    (edits.mergeSort Edit.before).Pairwise fun e e' => e'.start < e'.stop → e.stop < e'.stop := by
  have hperm : (edits.mergeSort Edit.before).Perm edits := List.mergeSort_perm edits Edit.before
  have hsymm : ∀ {a b : Edit}, Apart a b → Apart b a := fun h hb ha => (h ha hb).symm
  have hboth := (Edit.pairwise_start_mergeSort edits).and ((hperm.pairwise_iff hsymm).mpr hapart)
  refine hboth.imp_of_mem ?_
  rintro a b ha - ⟨hstart, hapart⟩ hb
  have := hspan a (hperm.mem_iff.mp ha)
  by_cases hpoint : a.start = a.stop
  · omega
  · have := (hapart (by omega) hb).1
    omega

theorem firm_applyEdits (hlexes : Lexes none source ls []) (hfits : ∀ e ∈ edits, Fits source ls e)
    (hapart : edits.Pairwise Apart) :
    Firm (applyEdits source edits)
      (Edit.weave (skeleton ls) 0 ((edits.mergeSort Edit.before).map outlined)).ink := by
  have hperm : (edits.mergeSort Edit.before).Perm edits := List.mergeSort_perm edits Edit.before
  have hstart : Written source ls {} [] := .of_solid (cut_zero hlexes) solid_nil rfl
  have hahead : Ahead 0 (edits.mergeSort Edit.before) := by
    intro e he hspan
    have := (hfits e (hperm.mem_iff.mp he)).nonneg
    omega
  obtain ⟨τ, hwritten, hweave⟩ := foldl_step_written hstart
    (fun e he => hfits e (hperm.mem_iff.mp he)) hahead
    (pairwise_stop_mergeSort (fun e he => (hfits e he).le) hapart)
  generalize hp : (edits.mergeSort Edit.before).foldl (Edit.step source) {} = p at hwritten hweave
  have hrest : ∀ t : Text, t.length = source.length →
      t.slice p.cursor source.length = t.drop p.cursor := by
    intro t ht
    rw [Text.slice, ← ht, List.take_length]
  have hlen : (skeleton ls).length = source.length := by
    rw [length_skeleton, hlexes.text_eq]
  have hfirm := hwritten.copy_firm (cut_length hlexes)
  rw [Nat.max_eq_left hwritten.cut.1, hrest source rfl, hrest _ hlen, hweave,
    List.nil_append] at hfirm
  simp only [applyEdits, hp]
  split
  · exact hfirm.append_newline.firm
  · exact hfirm

end

/-- Edits that fit leave a source that can be read exactly if the brackets outside them match. -/
theorem scan_applyEdits_iff {source : Text} {d : Document} {edits : List Edit}
    (hd : Document.scan source = .ok d)
    (hfits : ∀ e ∈ edits, Fits source (Lexeme.read none source).1 e)
    (hapart : edits.Pairwise Apart) :
    (∃ d', Document.scan (applyEdits source edits) = .ok d') ↔
      Document.nest [] ((d.tokens.toList.filter fun t => Edit.isFree edits t.offset).map (·.char)) =
        some [] := by
  have hlexes : Lexes none source (Lexeme.read none source).1 [] :=
    Lexes.of_read (Prod.ext rfl (Document.of_scan hd).2.1)
  have htokens := (Document.of_scan hd).2.2.1
  generalize (Lexeme.read none source).1 = ls at hfits hlexes htokens
  obtain ⟨hread, hshape⟩ := (firm_applyEdits hlexes hfits hapart).outline_eq
  have hperm : (edits.mergeSort Edit.before).Perm edits := List.mergeSort_perm edits Edit.before
  have hinterleaved := (Edit.weave_interleaved (skeleton ls)
    ((edits.mergeSort Edit.before).map outlined) 0
    (List.pairwise_map.mpr (Edit.pairwise_start_mergeSort edits)) (by
      intro e he
      obtain ⟨e', he', rfl⟩ := List.mem_map.mp he
      exact (hfits e' (hperm.mem_iff.mp he')).le)).ink
  rw [List.drop_zero, ← hshape, ink_pickFrom_skeleton] at hinterleaved
  have hblocks :
      ∀ b ∈ (((edits.mergeSort Edit.before).map outlined).filterMap (·.text)).map Text.ink,
      Document.nest [] b = some [] := by
    intro b hb
    simp only [List.filterMap_map, List.mem_map, List.mem_filterMap, Function.comp, outlined,
      Option.map_eq_some_iff] at hb
    obtain ⟨-, ⟨e, he, t, ht, rfl⟩, rfl⟩ := hb
    rw [ink_outline]
    exact ((hfits e (hperm.mem_iff.mp he)).whole t ht).nest_outline
  rw [Document.scan_isOk_iff]
  change _ ∧ Document.nest [] (outline _) = _ ↔ _
  rw [Document.nest_interleaved hinterleaved hblocks, isFree_outlined,
    Edit.isFree_of_perm hperm, htokens]
  simp [hread]

end Item

end Graft
