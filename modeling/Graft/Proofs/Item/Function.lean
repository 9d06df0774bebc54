import Graft.Proofs.Item.Document
import Graft.Proofs.Item.Header
import Graft.Proofs.Table

set_option autoImplicit false

/-!
The functions found in a source. Each was read at a site: a header outside comments and literals,
with parameters and a body. So a function ends after it starts, is indented by blanks, and is
entered under its own name.
-/

namespace Graft.Item

namespace Header

variable {r t : Text} {w : String} {h : Header} {n : Nat}

theorem mem_of_read (hr : read? t = some h) : 'f' ∈ t := by
  obtain ⟨w, rest, rfl, -⟩ := read_spec hr
  simp [Written.text]

theorem not_breaks_of_read (hr : read? t = some h) : ¬Lexeme.Breaks t := by
  intro hbreaks
  cases t with
  | nil => contradiction
  | cons c t =>
    obtain rfl : c = '\n' := by simpa [Lexeme.Breaks] using hbreaks
    have hnone : read? ('\n' :: t) = none := rfl
    rw [hnone] at hr
    contradiction

def precedes (source : Text) (n : Nat) : Option Char := if n = 0 then none else source[n - 1]?

theorem findFrom_spec {source : Text} {prev : Option Char} (ht : t = source.drop n)
    (hprev : prev = precedes source n) :
    (∀ start h, findFrom? prev n t = some (start, h) →
      n ≤ start ∧ read? (source.drop start) = some h ∧ canFollow (precedes source start)) ∧
    ∀ m, n ≤ m → canFollow (precedes source m) →
      (∀ start h, findFrom? prev n t = some (start, h) → m < start) →
      read? (source.drop m) = none := by
  induction t generalizing n prev with
  | nil =>
    have hlength := List.drop_eq_nil_iff.mp ht.symm
    exact ⟨by simp [findFrom?], fun m hm _ _ => by rw [List.drop_eq_nil_of_le (by omega)]; rfl⟩
  | cons c cs ih =>
    have hlt : n < source.length := by
      have := congrArg List.length ht
      simp only [List.length_cons, List.length_drop] at this
      omega
    have htail := ht
    rw [List.drop_eq_getElem_cons hlt, List.cons.injEq] at htail
    have hnext : some c = precedes source (n + 1) := by simp [precedes, htail.1, hlt]
    obtain ⟨hfound, hbefore⟩ := ih htail.2 hnext
    unfold findFrom?
    split
    · rename_i h' hread
      obtain ⟨hcan, hread⟩ := Option.ite_none_right_eq_some.mp hread
      refine ⟨fun start h heq => ?_, fun m hm _ hafter => absurd (hafter n h' rfl) (by omega)⟩
      obtain ⟨rfl, rfl⟩ := Prod.mk.inj (Option.some.inj heq)
      exact ⟨Nat.le_refl _, ht ▸ hread, hprev ▸ hcan⟩
    · rename_i hnone
      refine ⟨fun start h heq => ?_, fun m hm hfollow hafter => ?_⟩
      · obtain ⟨hle, hspec⟩ := hfound start h heq
        exact ⟨by omega, hspec⟩
      · rcases Nat.eq_or_lt_of_le hm with rfl | hlater
        · rwa [if_pos (hprev ▸ hfollow), ht] at hnone
        · exact hbefore m hlater hfollow hafter

theorem find_spec {source : Text} {start : Nat} (hf : find? source n = some (start, h)) :
    n ≤ start ∧ read? (source.drop start) = some h ∧ canFollow (precedes source start) :=
  (findFrom_spec rfl rfl).1 start h hf

theorem find_of_read {source : Text} {m : Nat} (hn : n ≤ m)
    (hfollow : canFollow (precedes source m)) (hread : read? (source.drop m) = some h) :
    ∃ start h', find? source n = some (start, h') ∧ start ≤ m := by
  by_contra hnone
  push Not at hnone
  rw [(findFrom_spec rfl rfl).2 m hn hfollow hnone] at hread
  contradiction

end Header

namespace Function

variable {keepDirectives : Bool} {f : Function}

structure Site (d : Document) (start : Nat) (h : Header) (e : Extent) : Prop where
  header : Header.read? (d.source.drop start) = some h
  follows : Header.canFollow (Header.precedes d.source start)
  unmasked : d.maskAt? start = none
  canStart : canStart d.source start
  extent : extent? d (start + h.length) = some e

/-- A function found in a source: where its header starts, the header, and its brackets. -/
structure Found where
  start : Nat
  header : Header
  extent : Extent
  deriving DecidableEq

namespace Found

def piece (d : Document) (f : Found) : Function := (build d true f.start f.header f.extent).1

def commands (d : Document) (f : Found) : Commands := (build d true f.start f.header f.extent).2

end Found

section

variable {d : Document} {fuel : Nat} {claimed : List Span} {f : Found}

def foundFrom (d : Document) : Nat → Nat → List Span → List Found
  | 0, _, _ => []
  | fuel + 1, position, claimed =>
    match Header.find? d.source position with
    | none => []
    | some (start, h) =>
      match d.maskAt? start with
      | some mask => foundFrom d fuel mask.stop claimed
      | none =>
        let next := start + h.length
        let skip :=
          claimed.any (fun s => s.start ≤ start && start < s.stop) || !canStart d.source start
        match if skip then none else extent? d next with
        | none => foundFrom d fuel next claimed
        | some e => ⟨start, h, e⟩ :: foundFrom d fuel next (⟨start, e.bodyStop⟩ :: claimed)

/-- Every function of a source with a body that lies in no other, namesakes included. -/
def found (d : Document) : List Found := foundFrom d (d.source.length + 1) 0 []

theorem extractFrom_eq (d : Document) (keepDirectives : Bool) (fuel position : Nat)
    (claimed : List Span) (x : Extraction Details) :
    extractFrom d keepDirectives fuel position claimed x =
      x.addAll ((foundFrom d fuel position claimed).map fun f =>
        build d keepDirectives f.start f.header f.extent) := by
  induction fuel generalizing position claimed x with
  | zero => rfl
  | succ fuel ih =>
    cases hfind : Header.find? d.source position with
    | none => simp only [extractFrom, foundFrom, hfind]; rfl
    | some result =>
      obtain ⟨start, h⟩ := result
      cases hmask : d.maskAt? start with
      | some mask => simpa only [extractFrom, foundFrom, hfind, hmask] using ih _ _ x
      | none =>
        simp only [extractFrom, foundFrom, hfind, hmask]
        generalize
          (if claimed.any (fun s => s.start ≤ start && start < s.stop) || !canStart d.source start
          then none else extent? d (start + h.length)) = e
        cases e with
        | none => exact ih _ _ x
        | some e => exact ih _ _ _

theorem extract_eq (d : Document) (keepDirectives : Bool) :
    extract d keepDirectives =
      Extraction.addAll {} ((found d).map fun f =>
        build d keepDirectives f.start f.header f.extent) :=
  extractFrom_eq d keepDirectives _ _ _ _

/-- The induction over the search: it goes on further right, or comes to a function outside the
claimed regions and claims its own. -/
theorem foundFrom_induction {motive : Nat → List Span → List Found → Prop}
    (hend : ∀ position claimed, motive position claimed [])
    (hpass : ∀ position next claimed fs,
        position ≤ next → motive next claimed fs → motive position claimed fs)
    (hfind : ∀ position claimed f fs, position ≤ f.start → Site d f.start f.header f.extent →
      (∀ s ∈ claimed, s.start ≤ f.start → s.stop ≤ f.start) →
      motive (f.start + f.header.length) (⟨f.start, f.extent.bodyStop⟩ :: claimed) fs →
      motive position claimed (f :: fs)) (fuel position : Nat) (claimed : List Span) :
    motive position claimed (foundFrom d fuel position claimed) := by
  induction fuel generalizing position claimed with
  | zero => exact hend _ _
  | succ fuel ih =>
    unfold foundFrom
    split
    · exact hend _ _
    · rename_i start h hheader
      obtain ⟨hle, hread, hfollow⟩ := Header.find_spec hheader
      split
      · rename_i mask hmask
        have hinside := Document.lt_stop_of_maskAt hmask
        exact hpass _ _ _ _ (by omega) (ih _ _)
      · rename_i hmask
        simp only
        split
        · exact hpass _ _ _ _ (by omega) (ih _ _)
        · rename_i e hextent
          split at hextent
          · contradiction
          · rename_i hskip
            simp only [Bool.not_eq_true, Bool.or_eq_false_iff, Bool.not_eq_false',
              List.any_eq_false, Bool.and_eq_true, decide_eq_true_eq, not_and, Nat.not_lt] at hskip
            exact hfind _ _ ⟨start, h, e⟩ _ hle ⟨hread, hfollow, hmask, hskip.2, hextent⟩
              hskip.1 (ih _ _)

theorem site_of_mem_foundFrom {position : Nat} (hf : f ∈ foundFrom d fuel position claimed) :
    Site d f.start f.header f.extent := by
  refine foundFrom_induction (d := d) (motive := fun _ _ fs =>
    ∀ g ∈ fs, Site d g.start g.header g.extent)
    ?_ ?_ ?_ fuel position claimed f hf
  · intro _ _ g hg
    contradiction
  · exact fun _ _ _ _ _ hfs => hfs
  · exact fun _ _ g fs _ hg _ hfs => List.forall_mem_cons.mpr ⟨hg, hfs⟩

theorem site_of_mem (hf : f ∈ found d) : Site d f.start f.header f.extent :=
  site_of_mem_foundFrom hf

theorem extract_keyed (d : Document) (keepDirectives : Bool) :
    (extract d keepDirectives).table.Keyed := by
  rw [extract_eq]
  exact Extraction.keyed_addAll Pieces.keyed_empty _

theorem exists_found {keepDirectives : Bool} {p : Function}
    (hp : p ∈ (extract d keepDirectives).table.values) :
    ∃ f ∈ found d, p = (build d keepDirectives f.start f.header f.extent).1 := by
  rw [extract_eq] at hp
  obtain ⟨⟨k, p⟩, hmem, rfl⟩ := List.mem_map.mp hp
  obtain ⟨-, pre, c, post, heq, -⟩ := Extraction.mem_addAll.mp hmem
  have hbuilt : (p, c) ∈ (found d).map fun f =>
      build d keepDirectives f.start f.header f.extent := by simp [heq]
  obtain ⟨f, hf, hfp⟩ := List.mem_map.mp hbuilt
  exact ⟨f, hf, (congrArg Prod.fst hfp).symm⟩

end

theorem exists_site {d : Document} (hf : f ∈ (extract d keepDirectives).table.values) :
    ∃ start h e, Site d start h e ∧ f = (build d keepDirectives start h e).1 := by
  obtain ⟨g, hg, rfl⟩ := exists_found hf
  exact ⟨g.start, g.header, g.extent, site_of_mem hg, rfl⟩

theorem extract_blank {d : Document} (hblank : d.source.isBlankText) (keepDirectives : Bool) :
    (extract d keepDirectives).table.values = [] := by
  rw [List.eq_nil_iff_forall_not_mem]
  intro f hf
  obtain ⟨start, h, e, hsite, -⟩ := exists_site hf
  have hmem := List.mem_of_mem_drop (Header.mem_of_read hsite.header)
  have := List.all_eq_true.mp hblank _ hmem
  revert this
  decide

theorem lineStart_le (t : Text) (offset : Nat) : t.lineStart offset ≤ offset := by
  simp only [Text.lineStart, List.length_take]
  omega

theorem lineStart_eq (t : Text) (offset : Nat) :
    t.lineStart offset = (Text.dropLastWhile (· != '\n') (t.take offset)).length := by
  have hsum := congrArg List.length
    (List.takeWhile_append_dropWhile (p := (· != '\n')) (l := (t.take offset).reverse))
  rw [List.length_append, List.length_reverse] at hsum
  rw [Text.dropLastWhile, List.length_reverse, Text.lineStart]
  omega

def startsLine (source : Text) (n : Nat) : Bool := (source.take n).getLast?.all (· == '\n')

theorem startsLine_iff {source : Text} {n : Nat} :
    startsLine source n ↔ ∀ c ∈ (source.take n).getLast?, c = '\n' := by
  simp [startsLine, Option.all_eq_true]

theorem startsLine_lineStart (t : Text) (offset : Nat) : startsLine t (t.lineStart offset) := by
  rw [startsLine_iff]
  have hprefix : (t.take offset).rdropWhile (· != '\n') <+: t :=
    (List.rdropWhile_prefix _ _).trans (List.take_prefix _ _)
  have hlen : ((t.take offset).rdropWhile (· != '\n')).length = t.lineStart offset :=
    (lineStart_eq t offset).symm
  have htake := List.prefix_iff_eq_take.mp hprefix
  rw [hlen] at htake
  intro c hc
  rw [← htake] at hc
  obtain ⟨hne, rfl⟩ := List.mem_getLast?_eq_getLast hc
  have := List.rdropWhile_last_not (· != '\n') _ hne
  simpa using this

theorem offset_of_mem_preludeAbove {source : Text} {fuel lineStart : Nat} {acc : List PreludeLine}
    {l : PreludeLine} (h : l ∈ preludeAbove source fuel lineStart acc) :
    (l.offset < lineStart ∧ startsLine source l.offset) ∨ l ∈ acc := by
  induction fuel generalizing lineStart acc with
  | zero => exact Or.inr h
  | succ fuel ih =>
    unfold preludeAbove at h
    split at h
    · exact Or.inr h
    · have hprevious := lineStart_le source (lineStart - 1)
      simp only at h
      split at h
      · rcases ih h with ⟨hlt, hline⟩ | hmem
        · exact Or.inl ⟨by omega, hline⟩
        · rcases List.mem_cons.mp hmem with rfl | hmem
          · exact Or.inl ⟨by simp only; omega, startsLine_lineStart source _⟩
          · exact Or.inr hmem
      · exact Or.inr h

section

variable {source : Text} {d : Document} {e : Extent}

theorem extent_eq_some_iff {headerStop : Nat} :
    extent? d headerStop = some e ↔
      ∃ opening body stop, d.nextToken? headerStop "(\x7b;".toList = some opening ∧
        opening.char = '(' ∧
        d.partner? opening.offset = some e.closing ∧
        d.nextToken? (e.closing + 1) "\x7b;".toList = some body ∧ body.char ≠ ';' ∧
        d.partner? body.offset = some stop ∧ e.opening = opening.offset ∧
          e.bodyStart = body.offset ∧
        e.bodyStop = stop + 1 := by
  constructor
  · intro he
    simp only [extent?, Option.bind_eq_bind, Option.bind_eq_some_iff] at he
    obtain ⟨opening, hopening, he⟩ := he
    split at he
    · simp at he
    · rename_i hparen
      simp only [Option.bind_eq_some_iff] at he
      obtain ⟨closing, hclosing, body, hbody, he⟩ := he
      split at he
      · simp at he
      · rename_i hsemicolon
        simp only [Option.pure_def, Option.bind_eq_some_iff, Option.some.injEq] at he
        obtain ⟨stop, hstop, rfl⟩ := he
        exact ⟨opening, body, stop, hopening, by simpa using hparen, hclosing, hbody,
          by simpa using hsemicolon, hstop, rfl, rfl, rfl⟩
  · rintro ⟨opening, body, stop, hopening, hparen, hclosing, hbody, hsemicolon, hstop, ho, hs, hb⟩
    obtain ⟨_, closing, _, _⟩ := e
    simp only at ho hs hb
    subst ho hs hb
    unfold extent?
    rw [hopening]
    simp only [Option.bind_eq_bind, Option.bind_some, hparen, hclosing, hbody, hstop]
    simpa using hsemicolon

theorem extent_spec (hd : Document.scan source = .ok d) {headerStop : Nat}
    (he : extent? d headerStop = some e) :
    headerStop ≤ e.opening ∧ e.opening < e.closing ∧ e.closing < e.bodyStart ∧
      e.bodyStart + 1 < e.bodyStop ∧ ∃ t ∈ d.tokens.toList, e.bodyStop = t.offset + 1 := by
  obtain ⟨opening, body, stop, hopening, -, hclosing, hbody, -, hstop, ho, hs, hb⟩ :=
    extent_eq_some_iff.mp he
  have h₁ := (Document.nextToken_spec hd hopening).2.1
  have h₂ := (Document.partner_spec hd hclosing).1
  have h₃ := (Document.nextToken_spec hd hbody).2.1
  obtain ⟨h₄, t, ht, rfl⟩ := Document.partner_spec hd hstop
  refine ⟨?_, ?_, ?_, ?_, t, ht, hb⟩ <;> omega

theorem start_build (d : Document) (keepDirectives : Bool) (start : Nat) (h : Header) (e : Extent) :
    ∃ n : Nat, (build d keepDirectives start h e).1.start = n ∧ n ≤ start ∧
      (startsLine d.source n ∨ n = start ∧
        Text.isBlankText (d.source.slice (d.source.lineStart start) start) = false) := by
  refine ⟨_, rfl, ?_⟩
  have hline := lineStart_le d.source start
  split
  · rename_i first rest habove
    split at habove
    · have hmem : first ∈ prelude d.source (d.source.lineStart start) := by
        rw [habove]
        simp
      rcases offset_of_mem_preludeAbove hmem with ⟨hlt, hnewline⟩ | hnil
      · exact ⟨by omega, Or.inl hnewline⟩
      · simp at hnil
    · contradiction
  · split
    · exact ⟨hline, Or.inl (startsLine_lineStart d.source start)⟩
    · rename_i hlead
      exact ⟨Nat.le_refl _, Or.inr ⟨rfl, by simpa using hlead⟩⟩

theorem isBlankText_indent_build (d : Document) (keepDirectives : Bool) (start : Nat) (h : Header)
    (e : Extent) : (build d keepDirectives start h e).1.details.indent.isBlankText := by
  simp only [build]
  split
  · assumption
  · rfl

end

/-- What holds of every function found in a source that can be read. -/
structure Sound (f : Function) : Prop where
  origin : f.origin = .host
  named : f.anonymous = false
  start_nonneg : 0 ≤ f.start
  start_lt : f.start < f.stop
  indent : f.details.indent.isBlankText

theorem sound_of_mem {source : Text} {d : Document} (hd : Document.scan source = .ok d)
    (hf : f ∈ (extract d keepDirectives).table.values) : Sound f := by
  obtain ⟨start, h, e, hsite, rfl⟩ := exists_site hf
  obtain ⟨n, hn, hle, -⟩ := start_build d keepDirectives start h e
  obtain ⟨h₁, h₂, h₃, h₄, -⟩ := extent_spec hd hsite.extent
  have hstop : (build d keepDirectives start h e).1.stop = e.bodyStop := rfl
  exact ⟨rfl, rfl, by omega, by omega, isBlankText_indent_build ..⟩

end Function

end Graft.Item
