import Graft.Edit
import Mathlib.Data.List.DropRight
import Mathlib.Data.List.Induction
import Mathlib.Data.List.Infix
import Mathlib.Data.List.Perm.Basic
import Mathlib.Data.List.TakeWhile

set_option autoImplicit false

/-!
What edits do to the ink of a text, that is to its characters other than blanks. Applying edits
moves blanks about, but the ink is that of a plain weave: the source up to each edit, what the edit
puts in, and the source from where the edit ends.
-/

namespace Graft

namespace Text

variable {kept out t : Text} {p : Char → Bool} {c : Char} {a b n : Nat}

/-- A text without its blanks. -/
def ink (t : Text) : Text := t.filter (!isBlank ·)

@[simp] theorem ink_nil : ink [] = [] := rfl

@[simp] theorem ink_append (a b : Text) : ink (a ++ b) = ink a ++ ink b := List.filter_append ..

theorem ink_cons (c : Char) (t : Text) :
    ink (c :: t) = if isBlank c then ink t else c :: ink t := by
  by_cases h : isBlank c <;> simp [ink, h]

theorem ink_eq_nil_iff : ink t = [] ↔ t.isBlankText := by
  simp [ink, isBlankText]

theorem ink_dropLastWhile (hp : ∀ c, p c → isBlank c) (t : Text) :
    ink (t.dropLastWhile p) = ink t := by
  have hdrop : ∀ u : Text, (u.dropWhile p).filter (!isBlank ·) = u.filter (!isBlank ·) := by
    intro u
    induction u with
    | nil => rfl
    | cons c u ih =>
      by_cases hc : p c
      · rw [List.dropWhile_cons_of_pos hc, ih]
        simp [hp c hc]
      · rw [List.dropWhile_cons_of_neg hc]
  unfold ink dropLastWhile
  rw [List.filter_reverse, hdrop, ← List.filter_reverse, List.reverse_reverse]

@[simp] theorem ink_trimEnd (t : Text) : ink t.trimEnd = ink t :=
  ink_dropLastWhile (fun _ h => h) t

theorem isBlank_of_isIndent (h : isIndent c) : isBlank c := by
  simp only [isIndent, Bool.or_eq_true, beq_iff_eq] at h
  rcases h with rfl | rfl <;> decide

theorem dropLastWhile_append_of_all (a : Text) {b : Text} (hb : ∀ c ∈ b, p c) :
    dropLastWhile p (a ++ b) = dropLastWhile p a := by
  induction b using List.reverseRecOn with
  | nil => rw [List.append_nil]
  | append_singleton b c ih =>
    have hdrop : dropLastWhile p ((a ++ b) ++ [c]) = dropLastWhile p (a ++ b) :=
      List.rdropWhile_concat_pos _ _ _ (hb c (by simp))
    rw [← List.append_assoc, hdrop]
    exact ih fun e he => hb e (by simp [he])

theorem dropLastWhile_concat (a : Text) (hc : p c = false) :
    dropLastWhile p (a ++ [c]) = a ++ [c] :=
  List.rdropWhile_concat_neg _ _ _ (by simp [hc])

theorem exists_dropLastWhile_append (p : Char → Bool) (t : Text) :
    ∃ b, t = dropLastWhile p t ++ b ∧ ∀ c ∈ b, p c := by
  induction t using List.reverseRecOn with
  | nil => exact ⟨[], rfl, by simp⟩
  | append_singleton t c ih =>
    by_cases hc : p c
    · obtain ⟨b, hb, hall⟩ := ih
      have hdrop : dropLastWhile p (t ++ [c]) = dropLastWhile p t :=
        List.rdropWhile_concat_pos _ _ _ hc
      refine ⟨b ++ [c], ?_, ?_⟩
      · rw [hdrop, ← List.append_assoc, ← hb]
      · intro e he
        rcases List.mem_append.mp he with he | he
        · exact hall e he
        · rw [List.mem_singleton.mp he]
          exact hc
    · exact ⟨[], by rw [dropLastWhile_concat t (by simpa using hc), List.append_nil], by simp⟩

theorem dropLastWhile_append_of_ne_nil (a : Text) {b : Text} (hb : dropLastWhile p b ≠ []) :
    dropLastWhile p (a ++ b) = a ++ dropLastWhile p b := by
  obtain ⟨r, hr, hall⟩ := exists_dropLastWhile_append p b
  have hlast : p ((dropLastWhile p b).getLast hb) = false :=
    Bool.eq_false_iff.mpr (List.rdropWhile_last_not p b hb)
  have hcut := List.dropLast_append_getLast hb
  conv_lhs => rw [hr]
  rw [← List.append_assoc, dropLastWhile_append_of_all _ hall, ← hcut, ← List.append_assoc,
    dropLastWhile_concat _ hlast]

theorem splitWhen_ne_nil (p : Char → Bool) (t : Text) : splitWhen p t ≠ [] := by
  unfold splitWhen
  split
  · simp
  · split
    · simp
    · split <;> simp

theorem join_append_cons (sep : Text) (ts : List Text) (u : Text) (us : List Text) :
    join sep (ts ++ u :: us) = ts.flatMap (· ++ sep) ++ join sep (u :: us) := by
  induction ts with
  | nil => rfl
  | cons t ts ih =>
    obtain ⟨v, vs, hvs⟩ :=
      List.exists_cons_of_ne_nil (List.append_ne_nil_of_right_ne_nil ts (List.cons_ne_nil u us))
    rw [List.cons_append, hvs, join, List.intercalate_cons_cons, ← join, ← hvs, ih]
    simp

theorem join_concat (sep : Text) (ts : List Text) (t : Text) :
    join sep (ts ++ [t]) = ts.flatMap (· ++ sep) ++ t := by
  rw [join_append_cons, join, List.intercalate_singleton]

theorem join_cons (sep t : Text) {ts : List Text} (hts : ts ≠ []) :
    join sep (t :: ts) = t ++ sep ++ join sep ts := by
  obtain ⟨u, us, rfl⟩ := List.exists_cons_of_ne_nil hts
  simpa using join_append_cons sep [t] u us

theorem join_append (sep t u : Text) (ts : List Text) :
    join sep ((t ++ u) :: ts) = t ++ join sep (u :: ts) := by
  by_cases hts : ts = []
  · simp [hts, join]
  · simp [join_cons _ _ hts]

theorem join_splitOn (sep : Char) (t : Text) : join [sep] (t.splitOn sep) = t := by
  unfold splitOn
  induction t with
  | nil => rfl
  | cons c t ih =>
    obtain ⟨piece, pieces, hsplit⟩ := List.exists_cons_of_ne_nil (splitWhen_ne_nil (· == sep) t)
    rw [hsplit] at ih
    rw [splitWhen, hsplit]
    split
    · next hc =>
      rw [join_cons _ _ (List.cons_ne_nil _ _), ih, beq_iff_eq.mp hc]
      rfl
    · exact (join_append [sep] [c] piece pieces).trans (congrArg _ ih)

theorem slice_eq (t : Text) (a b : Nat) : t.slice a b = (t.drop a).take (b - a) := by
  rw [slice, List.drop_take]

@[simp] theorem slice_self (t : Text) (a : Nat) : t.slice a a = [] := by
  simp [slice_eq]

theorem slice_of_le (h : b ≤ a) : t.slice a b = [] := by
  simp [slice_eq, h]

theorem slice_max (t : Text) (a b : Nat) : t.slice a (max b a) = t.slice a b := by
  rcases Nat.le_total b a with h | h
  · rw [Nat.max_eq_right h, slice_self, slice_of_le h]
  · rw [Nat.max_eq_left h]

theorem slice_append_slice (t : Text) {c : Nat} (hab : a ≤ b) (hbc : b ≤ c) :
    t.slice a b ++ t.slice b c = t.slice a c := by
  obtain ⟨m, rfl⟩ := Nat.exists_eq_add_of_le hab
  obtain ⟨n, rfl⟩ := Nat.exists_eq_add_of_le hbc
  have hall : a + m + n - a = m + n := by omega
  rw [slice_eq, slice_eq, slice_eq, Nat.add_sub_cancel_left, Nat.add_sub_cancel_left, hall,
    List.take_add, List.drop_drop]

theorem slice_append_drop (t : Text) (h : a ≤ b) : t.slice a b ++ t.drop b = t.drop a := by
  obtain ⟨m, rfl⟩ := Nat.exists_eq_add_of_le h
  rw [slice_eq, Nat.add_sub_cancel_left, ← List.drop_drop, List.take_append_drop]

theorem take_append_slice (t : Text) (h : a ≤ b) : t.take a ++ t.slice a b = t.take b := by
  rw [slice_eq, ← List.take_add, Nat.add_sub_cancel' h]

theorem slice_eq_cons (hc : t[a]? = some c) (hab : a < b) :
    t.slice a b = c :: t.slice (a + 1) b := by
  obtain ⟨ha, rfl⟩ := List.getElem?_eq_some_iff.mp hc
  rw [slice_eq, slice_eq, List.drop_eq_getElem_cons ha, ← List.take_succ_cons]
  congr 1
  omega

theorem slice_eq_concat (hab : a ≤ b) (hc : t[b]? = some c) :
    t.slice a (b + 1) = t.slice a b ++ [c] := by
  rw [← slice_append_slice t hab (Nat.le_succ b), slice_eq_cons hc (Nat.lt_succ_self b), slice_self]

theorem ink_drop_of_blank (h : a ≤ b) (hb : ink (t.slice a b) = []) :
    ink (t.drop b) = ink (t.drop a) := by
  rw [← slice_append_drop t h, ink_append, hb, List.nil_append]

/-- `out` is the characters of the first text, in order, with each of the blocks put in somewhere as
a whole. -/
inductive Interleaved : Text → List Text → Text → Prop
  | nil : Interleaved [] [] []
  | char (c : Char) {kept : Text} {blocks : List Text} {out : Text} :
    Interleaved kept blocks out → Interleaved (c :: kept) blocks (c :: out)
  | block (b : Text) {kept : Text} {blocks : List Text} {out : Text} :
    Interleaved kept blocks out → Interleaved kept (b :: blocks) (b ++ out)

theorem Interleaved.append (t : Text) {blocks : List Text} (h : Interleaved kept blocks out) :
    Interleaved (t ++ kept) blocks (t ++ out) := by
  induction t with
  | nil => exact h
  | cons c t ih => exact ih.char c

theorem Interleaved.refl (t : Text) : Interleaved t [] t := by
  simpa using Interleaved.nil.append t

theorem Interleaved.ink {blocks : List Text} (h : Interleaved kept blocks out) :
    Interleaved kept.ink (blocks.map Text.ink) out.ink := by
  induction h with
  | nil => exact .nil
  | char c _ ih =>
    rw [ink_cons, ink_cons]
    split
    · exact ih
    · exact ih.char c
  | block b _ ih =>
    rw [ink_append]
    exact ih.block b.ink

/-- The characters whose offsets, counted from `n`, pass a test. -/
def pickFrom (p : Nat → Bool) : Nat → Text → Text
  | _, [] => []
  | n, c :: cs => if p n then c :: pickFrom p (n + 1) cs else pickFrom p (n + 1) cs

def pick (t : Text) (p : Nat → Bool) : Text := pickFrom p 0 t

theorem pickFrom_append (p : Nat → Bool) (n : Nat) (a b : Text) :
    pickFrom p n (a ++ b) = pickFrom p n a ++ pickFrom p (n + a.length) b := by
  induction a generalizing n with
  | nil => simp [pickFrom]
  | cons c a ih =>
    have hlen : n + 1 + a.length = n + (a.length + 1) := by omega
    by_cases h : p n <;> simp [pickFrom, h, ih, hlen]

theorem pickFrom_congr {p q : Nat → Bool} (h : ∀ i, n ≤ i → i < n + t.length → p i = q i) :
    pickFrom p n t = pickFrom q n t := by
  induction t generalizing n with
  | nil => rfl
  | cons c t ih =>
    have hn : p n = q n := h n (Nat.le_refl n) (by simp)
    have ht : pickFrom p (n + 1) t = pickFrom q (n + 1) t :=
      ih fun i hi hlt => h i (by omega) (by simp only [List.length_cons]; omega)
    simp only [pickFrom, hn, ht]

theorem pickFrom_const (b : Bool) (n : Nat) (t : Text) :
    pickFrom (fun _ => b) n t = if b then t else [] := by
  induction t generalizing n with
  | nil => simp [pickFrom]
  | cons c t ih => cases b <;> simp_all [pickFrom]

theorem pickFrom_true {p : Nat → Bool} (h : ∀ i, n ≤ i → i < n + t.length → p i) :
    pickFrom p n t = t := by
  rw [pickFrom_congr (q := fun _ => true) h, pickFrom_const, if_pos rfl]

theorem pickFrom_false {p : Nat → Bool} (h : ∀ i, n ≤ i → i < n + t.length → p i = false) :
    pickFrom p n t = [] := by
  rw [pickFrom_congr (q := fun _ => false) h, pickFrom_const, if_neg (by decide)]

theorem pickFrom_drop (p : Nat → Bool) (t : Text) (h : a ≤ b) :
    pickFrom p a (t.drop a) = pickFrom p a (t.slice a b) ++ pickFrom p b (t.drop b) := by
  rw [← slice_append_drop t h, pickFrom_append]
  rcases Nat.lt_or_ge b t.length with hb | hb
  · have hlen : a + (t.slice a b).length = b := by
      simp only [slice_eq, List.length_take, List.length_drop]
      omega
    rw [hlen]
  · rw [List.drop_eq_nil_of_le hb]
    simp [pickFrom]

theorem mem_of_mem_pickFrom {p : Nat → Bool} (h : c ∈ pickFrom p n t) : c ∈ t := by
  induction t generalizing n with
  | nil => exact h
  | cons e t ih =>
    unfold pickFrom at h
    split at h
    · rcases List.mem_cons.mp h with rfl | h
      · exact List.mem_cons_self
      · exact List.mem_cons_of_mem e (ih h)
    · exact List.mem_cons_of_mem e (ih h)

theorem length_slice (h : b ≤ t.length) : (t.slice a b).length = b - a := by
  simp only [slice_eq, List.length_take, List.length_drop]
  omega

theorem length_slice_le (t : Text) (a b : Nat) : (t.slice a b).length ≤ b - a := by
  simp only [slice_eq, List.length_take]
  omega

end Text

namespace Edit

variable {a b n : Nat} {source : Text}

/-- The source from `cursor` on with the edits carried out and no blank touched. -/
def weave (source : Text) : Nat → List Edit → Text
  | cursor, [] => source.drop cursor
  | cursor, e :: es =>
    source.slice cursor e.start.toNat ++ e.text.getD [] ++ weave source (max e.stop.toNat cursor) es

theorem ink_weave_skip (source : Text) (h : a ≤ b) (hb : (source.slice a b).ink = [])
    (es : List Edit) : (weave source b es).ink = (weave source a es).ink := by
  induction es generalizing a b with
  | nil => exact Text.ink_drop_of_blank h hb
  | cons e es ih =>
    -- The edit may start or stop among the blanks that are skipped.
    have hpart : ∀ m n, a ≤ m → m ≤ n → n ≤ b → (source.slice m n).ink = [] := by
      intro m n ham hmn hnb
      rw [← Text.slice_append_slice source h (Nat.le_refl b),
        ← Text.slice_append_slice source ham (Nat.le_trans hmn hnb),
        ← Text.slice_append_slice source hmn hnb] at hb
      simp only [Text.ink_append, List.append_eq_nil_iff] at hb
      exact hb.1.2.1
    have hnext : (weave source (max e.stop.toNat b) es).ink =
        (weave source (max e.stop.toNat a) es).ink := by
      rcases Nat.le_total e.stop.toNat b with hsb | hsb
      · rw [Nat.max_eq_right hsb]
        exact ih (by omega) (hpart _ _ (by omega) (by omega) (Nat.le_refl b))
      · rw [Nat.max_eq_left hsb, Nat.max_eq_left (Nat.le_trans h hsb)]
    have hslice : (source.slice b e.start.toNat).ink = (source.slice a e.start.toNat).ink := by
      rcases Nat.le_total e.start.toNat b with hsb | hsb
      · rw [Text.slice_of_le hsb]
        rcases Nat.le_total e.start.toNat a with hsa | hsa
        · rw [Text.slice_of_le hsa]
        · exact (hpart _ _ (Nat.le_refl a) hsa hsb).symm
      · rw [← Text.slice_append_slice source h hsb, Text.ink_append, hb, List.nil_append]
    simp only [weave, Text.ink_append, hslice, hnext]

/-- `q` comes from `p` by moving blanks: none is written that shows, none is skipped that shows. -/
structure Shifted (source : Text) (p q : Progress) : Prop where
  out : q.out.ink = p.out.ink
  rest : ∀ es, (weave source q.cursor es).ink = (weave source p.cursor es).ink

theorem Shifted.refl (source : Text) (p : Progress) : Shifted source p p :=
  ⟨rfl, fun _ => rfl⟩

theorem Shifted.trans {p q s : Progress} (h : Shifted source p q) (h' : Shifted source q s) :
    Shifted source p s :=
  ⟨h'.out.trans h.out, fun es => (h'.rest es).trans (h.rest es)⟩

theorem weave_past (ha : source.length ≤ a) (hb : source.length ≤ b) (es : List Edit) :
    weave source a es = weave source b es := by
  induction es generalizing a b with
  | nil => simp [weave, List.drop_eq_nil_of_le ha, List.drop_eq_nil_of_le hb]
  | cons e es ih =>
    have hslice : ∀ c, source.length ≤ c → source.slice c e.start.toNat = [] := by
      intro c hc
      simp [Text.slice_eq, List.drop_eq_nil_of_le hc]
    rw [weave, weave, hslice a ha, hslice b hb,
      ih (Nat.le_trans ha (Nat.le_max_right _ _)) (Nat.le_trans hb (Nat.le_max_right _ _))]

theorem ink_indentation (t : Text) : t.indentation.ink = [] := by
  rw [Text.ink_eq_nil_iff, Text.isBlankText, List.all_eq_true]
  intro c hc
  exact Text.isBlank_of_isIndent (List.mem_takeWhile_imp hc)

theorem eq_of_lineEnd {t : Text} (h : lineEnd? t = some n) :
    ∃ stop rest, (stop = ['\n'] ∨ stop = ['\r', '\n']) ∧ t = t.indentation ++ stop ++ rest ∧
      n = t.indentation.length + stop.length := by
  have hsplit : t = t.indentation ++ t.drop t.indentation.length :=
    List.prefix_append_drop (List.takeWhile_prefix _)
  simp only [lineEnd?] at h
  split at h
  · rename_i rest heq
    change t.drop t.indentation.length = _ at heq
    refine ⟨['\n'], rest, Or.inl rfl, ?_, (Option.some.inj h).symm⟩
    conv_lhs => rw [hsplit, heq]
    simp
  · rename_i rest heq
    change t.drop t.indentation.length = _ at heq
    refine ⟨['\r', '\n'], rest, Or.inr rfl, ?_, (Option.some.inj h).symm⟩
    conv_lhs => rw [hsplit, heq]
    simp
  · contradiction

theorem ink_slice_of_lineEnd (h : lineEnd? (source.drop a) = some n) :
    (source.slice a (a + n)).ink = [] := by
  obtain ⟨stop, rest, hstop, heq, hn⟩ := eq_of_lineEnd h
  have htake : source.slice a (a + n) = Text.indentation (source.drop a) ++ stop := by
    have htake : (Text.indentation (source.drop a) ++ stop ++ rest).take
        (Text.indentation (source.drop a) ++ stop).length =
          Text.indentation (source.drop a) ++ stop := List.take_left
    rw [← heq, List.length_append, ← hn] at htake
    rw [Text.slice_eq, Nat.add_sub_cancel_left, htake]
  rw [htake, Text.ink_append, ink_indentation]
  rcases hstop with rfl | rfl <;> decide

theorem closeGap_shifted (source : Text) (p : Progress) : Shifted source p (closeGap source p) := by
  have hout : (p.out.dropLastWhile Text.isIndent).ink = p.out.ink :=
    Text.ink_dropLastWhile (fun _ => Text.isBlank_of_isIndent) _
  have hskip : ∀ {c n : Nat}, lineEnd? (source.drop c) = some n → ∀ es,
      (weave source (c + n) es).ink = (weave source c es).ink :=
    fun hn => ink_weave_skip source (Nat.le_add_right _ _) (ink_slice_of_lineEnd hn)
  unfold closeGap
  split
  · exact Shifted.refl source p
  · rename_i n hn
    have hfirst : Shifted source p ⟨p.out.dropLastWhile Text.isIndent, p.cursor + n⟩ :=
      ⟨hout, hskip hn⟩
    simp only
    split
    · rename_i m hm
      split
      · exact hfirst.trans ⟨rfl, hskip hm⟩
      · exact hfirst
    · exact hfirst

theorem delete_shifted (source : Text) (p : Progress) : Shifted source p (delete source p) := by
  simp only [delete]
  split
  · rename_i hblank
    refine (closeGap_shifted source p).trans ⟨Text.ink_trimEnd _, ?_⟩
    intro es
    generalize (closeGap source p).cursor = c at hblank
    rcases Nat.le_total c source.length with hc | hc
    · apply ink_weave_skip source hc
      have hall := Text.slice_append_drop source hc
      rw [List.drop_length, List.append_nil] at hall
      rw [hall]
      exact Text.ink_eq_nil_iff.mpr hblank
    · rw [weave_past (Nat.le_refl _) hc]
  · exact closeGap_shifted source p

def lead (out : Text) : Text :=
  if out.trimEnd.isEmpty then []
  else out.trimEnd ++ (if out.trimEnd.getLast? == some '\x7b' then ['\n'] else ['\n', '\n'])

theorem insert_eq (source text : Text) (p : Progress) :
    ∃ tail : Text, (tail = [] ∨ tail = ['\n']) ∧
      insert source text p = ⟨lead p.out ++ text ++ tail, p.cursor⟩ := by
  refine ⟨_, ?_, rfl⟩
  split
  · exact Or.inl rfl
  · split
    · exact Or.inl rfl
    · exact Or.inr rfl

theorem ink_lead (out : Text) : (lead out).ink = out.ink := by
  unfold lead
  split
  · rename_i hempty
    rw [← Text.ink_trimEnd out, List.isEmpty_iff.mp hempty]
  · rw [Text.ink_append, Text.ink_trimEnd]
    split <;> exact List.append_nil _

theorem ink_insert (source text : Text) (p : Progress) :
    (insert source text p).out.ink = p.out.ink ++ text.ink := by
  obtain ⟨tail, htail, heq⟩ := insert_eq source text p
  have hblank : tail.ink = [] := by
    rcases htail with rfl | rfl <;> rfl
  rw [heq, Text.ink_append, Text.ink_append, ink_lead, hblank, List.append_nil]

/-- The invariant of the run: what is written and what is still to be woven. -/
theorem step_weave (source : Text) (p : Progress) (e : Edit) (es : List Edit) :
    (step source p e).out.ink ++ (weave source (step source p e).cursor es).ink =
      p.out.ink ++ (weave source p.cursor (e :: es)).ink := by
  simp only [step, weave, Text.slice_max, Text.ink_append]
  cases htext : e.text with
  | none =>
    have hshift := delete_shifted source
      ⟨p.out ++ source.slice p.cursor e.start.toNat, max e.stop.toNat p.cursor⟩
    simp only
    rw [hshift.out, hshift.rest]
    simp
  | some text =>
    simp only
    split
    · rename_i heq
      rw [ink_insert]
      simp [insert, heq]
    · simp

theorem foldl_step_weave (source : Text) (es : List Edit) (p : Progress) :
    ((es.foldl (step source) p).out ++ source.drop (es.foldl (step source) p).cursor).ink =
      p.out.ink ++ (weave source p.cursor es).ink := by
  induction es generalizing p with
  | nil => simp [weave]
  | cons e es ih => rw [List.foldl_cons, ih, step_weave]

theorem ink_applyEdits (source : Text) (edits : List Edit) :
    (applyEdits source edits).ink = (weave source 0 (edits.mergeSort before)).ink := by
  have hrun := foldl_step_weave source (edits.mergeSort before) {}
  simp only [applyEdits]
  split
  · rw [Text.ink_append, hrun]
    simp [Text.ink_cons]
    decide
  · rw [hrun]
    rfl

/-- The offsets that an edit takes away. -/
def covers (e : Edit) (i : Nat) : Bool := e.start.toNat ≤ i && i < e.stop.toNat

/-- An offset that no edit takes away. -/
def isFree (es : List Edit) (i : Nat) : Bool := !es.any (covers · i)

theorem isFree_cons (e : Edit) (es : List Edit) (i : Nat) :
    isFree (e :: es) i = (!covers e i && isFree es i) := by
  simp [isFree]

theorem isFree_of_perm {es es' : List Edit} (h : es.Perm es') : isFree es = isFree es' := by
  funext i
  rw [isFree, isFree, Bool.not_inj_iff, Bool.eq_iff_iff, List.any_eq_true, List.any_eq_true]
  simp only [h.mem_iff]

theorem weave_interleaved (source : Text) (es : List Edit) (cursor : Nat)
    (hsorted : es.Pairwise fun a b => a.start ≤ b.start) (hspan : ∀ e ∈ es, e.start ≤ e.stop) :
    Text.Interleaved (Text.pickFrom (isFree es) cursor (source.drop cursor))
      (es.filterMap (·.text)) (weave source cursor es) := by
  induction es generalizing cursor with
  | nil =>
    rw [Text.pickFrom_true (by simp [isFree])]
    exact Text.Interleaved.refl _
  | cons e es ih =>
    obtain ⟨hfirst, htail⟩ := List.pairwise_cons.mp hsorted
    have he : e.start ≤ e.stop := hspan e (by simp)
    have ih := ih (max e.stop.toNat cursor) htail fun x hx => hspan x (by simp [hx])
    have hstart : max e.start.toNat cursor ≤ max e.stop.toNat cursor := by omega
    -- What is left of the source falls into three: before the edit, in it, and after it.
    have hbefore : Text.pickFrom (isFree (e :: es)) cursor
        (source.slice cursor (max e.start.toNat cursor)) = source.slice cursor e.start.toNat := by
      rcases Nat.le_total e.start.toNat cursor with hc | hc
      · rw [Nat.max_eq_right hc, Text.slice_self, Text.slice_of_le hc]
        rfl
      · rw [Nat.max_eq_left hc]
        apply Text.pickFrom_true
        intro i _ hi
        have hlen := Text.length_slice_le source cursor e.start.toNat
        simp only [isFree, covers, List.any_cons, List.any_eq_false, Bool.not_eq_true',
          Bool.or_eq_false_iff, Bool.and_eq_false_iff, decide_eq_false_iff_not]
        refine ⟨Or.inl (by omega), ?_⟩
        intro x hx
        have := hfirst x hx
        simp only [Bool.and_eq_true, decide_eq_true_eq]
        omega
    have hcovered : Text.pickFrom (isFree (e :: es)) (max e.start.toNat cursor)
        (source.slice (max e.start.toNat cursor) (max e.stop.toNat cursor)) = [] := by
      apply Text.pickFrom_false
      intro i hi hlt
      have hlen := Text.length_slice_le source (max e.start.toNat cursor) (max e.stop.toNat cursor)
      have hcov : covers e i = true := by
        simp only [covers, Bool.and_eq_true, decide_eq_true_eq]
        omega
      rw [isFree_cons, hcov]
      rfl
    have hafter : Text.pickFrom (isFree (e :: es)) (max e.stop.toNat cursor)
        (source.drop (max e.stop.toNat cursor)) =
        Text.pickFrom (isFree es) (max e.stop.toNat cursor)
          (source.drop (max e.stop.toNat cursor)) := by
      apply Text.pickFrom_congr
      intro i hi _
      have hcov : covers e i = false := by
        simp only [covers, Bool.and_eq_false_iff, decide_eq_false_iff_not]
        omega
      rw [isFree_cons, hcov]
      rfl
    rw [Text.pickFrom_drop _ _ (Nat.le_max_right e.start.toNat cursor),
      Text.pickFrom_drop _ _ hstart, hbefore, hcovered, hafter, List.nil_append, weave,
      List.append_assoc]
    refine Text.Interleaved.append _ ?_
    cases htext : e.text with
    | none => simpa [htext] using ih
    | some text => simpa [htext] using ih.block text

theorem before_trans (a b c : Edit) (hab : before a b) (hbc : before b c) : before a c := by
  simp only [before, Bool.or_eq_true, Bool.and_eq_true, decide_eq_true_eq, beq_iff_eq] at *
  omega

theorem before_total (a b : Edit) : before a b || before b a := by
  simp only [before, Bool.or_eq_true, Bool.and_eq_true, decide_eq_true_eq, beq_iff_eq]
  omega

theorem pairwise_start_mergeSort (edits : List Edit) :
    (edits.mergeSort before).Pairwise fun a b => a.start ≤ b.start := by
  refine (List.pairwise_mergeSort before_trans before_total edits).imp ?_
  intro a b h
  simp only [before, Bool.or_eq_true, Bool.and_eq_true, decide_eq_true_eq, beq_iff_eq] at h
  omega

/-- The ink of an edited text: that of the source outside all edits, in order, and that of each text
put in, once and as a whole. -/
theorem applyEdits_interleaved (source : Text) (edits : List Edit)
    (hspan : ∀ e ∈ edits, e.start ≤ e.stop) :
    ∃ texts : List Text, texts.Perm (edits.filterMap (·.text)) ∧
      Text.Interleaved (source.pick (isFree edits)).ink (texts.map Text.ink)
        (applyEdits source edits).ink := by
  have hperm : (edits.mergeSort before).Perm edits := List.mergeSort_perm edits before
  have hweave :=
    weave_interleaved source (edits.mergeSort before) 0 (pairwise_start_mergeSort edits)
    fun e he => hspan e (hperm.mem_iff.mp he)
  rw [isFree_of_perm hperm, List.drop_zero] at hweave
  refine ⟨(edits.mergeSort before).filterMap (·.text), hperm.filterMap _, ?_⟩
  rw [ink_applyEdits]
  exact hweave.ink

end Edit

end Graft
