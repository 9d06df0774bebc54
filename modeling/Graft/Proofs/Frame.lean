import Graft.Proofs.ClassMerge
import Graft.Proofs.Strict

set_option autoImplicit false

/-!
Documents with some stretches replaced, and the merge of classes that replaces them: which classes
of the document a snippet addresses, what their tables come to, and which classes are put behind the
document.
-/

namespace Graft

open Reconcile

namespace Text

theorem isBlankText_of_trimEnd {t : Text} (h : t.trimEnd = []) : t.isBlankText := by
  rw [← ink_eq_nil_iff, ← ink_trimEnd, h, ink_nil]

theorem trimEnd_trimEnd_append (t u : Text) :
    (t.trimEnd ++ u).trimEnd = t.trimEnd ++ u.trimEnd := by
  by_cases hu : u.trimEnd = []
  · have hall : ∀ c ∈ u, isBlank c := List.all_eq_true.mp (isBlankText_of_trimEnd hu)
    rw [hu, List.append_nil, trimEnd, dropLastWhile_append_of_all _ hall]
    exact List.rdropWhile_idempotent isBlank t
  · exact dropLastWhile_append_of_ne_nil _ hu

end Text

namespace ClassMerge

def gaps (source : Text) : Nat → List (Nat × Nat) → List Text
  | cursor, [] => [source.drop cursor]
  | cursor, r :: rs => source.slice cursor r.1 :: gaps source r.2 rs

def stitch (gaps bodies : List Text) : Text :=
  (gaps.zip (bodies ++ [[]])).flatMap fun e => e.1 ++ e.2

/-- Stretches that lie in a text of that length, in order and apart from each other. -/
def InOrder (length : Nat) (ranges : List (Nat × Nat)) : Prop :=
  (∀ r ∈ ranges, r.1 ≤ r.2 ∧ r.2 ≤ length) ∧ ranges.Pairwise fun r s => r.2 ≤ s.1

instance (length : Nat) (ranges : List (Nat × Nat)) : Decidable (InOrder length ranges) :=
  inferInstanceAs (Decidable (_ ∧ _))

theorem InOrder.sublist {length : Nat} {ranges ranges' : List (Nat × Nat)}
    (h : InOrder length ranges) (hsublist : ranges'.Sublist ranges) : InOrder length ranges' :=
  ⟨fun r hr => h.1 r (hsublist.subset hr), h.2.sublist hsublist⟩

/-- The text is the source with each of the stretches replaced by a body. What stands before,
between and behind them is the same in both. -/
structure Framed (source text : Text) (ranges : List (Nat × Nat)) (bodies : List Text) : Prop where
  length_eq : bodies.length = ranges.length
  source_eq : source = stitch (gaps source 0 ranges) (ranges.map fun r => source.slice r.1 r.2)
  text_eq : text = stitch (gaps source 0 ranges) bodies

@[simp] theorem stitch_cons (g b : Text) (gs bs : List Text) :
    stitch (g :: gs) (b :: bs) = g ++ b ++ stitch gs bs := by
  simp [stitch]

@[simp] theorem stitch_nil (g : Text) : stitch [g] [] = g := by simp [stitch]

theorem stitch_slices {source : Text} {ranges : List (Nat × Nat)} {cursor : Nat}
    (h : InOrder source.length ranges) (hcursor : ∀ r ∈ ranges, cursor ≤ r.1) :
    stitch (gaps source cursor ranges) (ranges.map fun r => source.slice r.1 r.2) =
      source.drop cursor := by
  induction ranges generalizing cursor with
  | nil => simp [gaps]
  | cons r ranges ih =>
    obtain ⟨hbounds, hpairs⟩ := h
    -- The rest starts where this stretch stops, which is not behind any of the others.
    obtain ⟨hnext, hpairs⟩ := List.pairwise_cons.mp hpairs
    have hr := (hbounds r List.mem_cons_self).1
    have hle := hcursor r List.mem_cons_self
    rw [gaps, List.map_cons, stitch_cons,
      ih ⟨fun s hs => hbounds s (List.mem_cons_of_mem r hs), hpairs⟩ hnext,
      Text.slice_append_slice source hle hr, Text.slice_append_drop source (Nat.le_trans hle hr)]

theorem replaceFrom_eq_stitch (source : Text) (cursor : Nat) (rs : List Replacement) :
    replaceFrom source cursor rs =
      stitch (gaps source cursor (rs.map fun r => (r.start, r.stop))) (rs.map (·.text)) := by
  induction rs generalizing cursor with
  | nil => simp [replaceFrom, gaps]
  | cons r rs ih => simp [replaceFrom, gaps, ih]

theorem framed_replaceFrom (source : Text) (rs : List Replacement)
    (h : InOrder source.length (rs.map fun r => (r.start, r.stop))) :
    Framed source (replaceFrom source 0 rs) (rs.map fun r => (r.start, r.stop))
      (rs.map (·.text)) where
  length_eq := by simp
  source_eq := (stitch_slices h fun r _ => Nat.zero_le r.1).symm
  text_eq := replaceFrom_eq_stitch source 0 rs

def following (separator : Text) : List Text → Text
  | [] => []
  | [c] => separator ++ c ++ ['\n']
  | c :: cs => (separator ++ c).trimEnd ++ following separator cs

/-- A document with some classes behind it; where there is one, the document loses its final
blanks. -/
def extended (separator document : Text) (classes : List Text) : Text :=
  if classes.isEmpty then document else document.trimEnd ++ following separator classes

theorem foldl_addClass (separator document : Text) (classes : List Text) :
    classes.foldl (addClass separator) document = extended separator document classes := by
  induction classes generalizing document with
  | nil => rfl
  | cons c cs ih =>
    rw [List.foldl_cons, ih]
    cases cs with
    | nil => simp [addClass, extended, following]
    | cons d cs =>
      -- The class behind this one drops the newline that it was given.
      have hfeed : (separator ++ (c ++ ['\n'])).trimEnd = (separator ++ c).trimEnd := by
        rw [← List.append_assoc]
        exact Text.dropLastWhile_append_of_all _ (by simp; decide)
      simp only [addClass, extended, following, List.isEmpty_cons, Bool.false_eq_true, if_false,
        List.append_assoc, Text.trimEnd_trimEnd_append, hfeed]

/-- A class of the snippet with that name addresses the class of the document with that number: the
container the first one, any other class the last one of its name. -/
def Addresses (o : Options) (names : List Text) (name : Text) (i : Nat) : Prop :=
  if o.isContainer name then i = 0 ∧ names ≠ []
  else names[i]? = some name ∧ name ∉ names.drop (i + 1)

instance (o : Options) (names : List Text) (name : Text) (i : Nat) :
    Decidable (Addresses o names name i) :=
  inferInstanceAs (Decidable (if o.isContainer name then i = 0 ∧ names ≠ [] else _ ∧ _))

/-- The classes of the document that some classes of a snippet address, with their numbers. -/
def addressed {α : Type} (o : Options) (hosts : List α) (hostName : α → Text) (names : List Text) :
    List (α × Nat) :=
  hosts.zipIdx.filter fun e => names.any fun name => Addresses o (hosts.map hostName) name e.2

def isUnknown (o : Options) (names : List Text) (name : Text) : Bool :=
  !o.isContainer name && !names.contains name

theorem find?_reverse_range {p : Nat → Bool} {n i : Nat} :
    (List.range n).reverse.find? p = some i ↔ i < n ∧ p i ∧ ∀ j, i < j → j < n → p j = false := by
  induction n with
  | zero => simp
  | succ n ih =>
    rw [List.range_succ, List.reverse_append, List.reverse_singleton, List.singleton_append,
      List.find?_cons]
    cases hn : p n with
    | true =>
      constructor
      · intro h
        obtain rfl := Option.some.inj h
        exact ⟨Nat.lt_succ_self n, hn, fun j hj hj' => absurd hj (by omega)⟩
      · rintro ⟨hi, -, hlast⟩
        by_cases heq : i = n
        · rw [heq]
        · have := hlast n (by omega) (Nat.lt_succ_self n)
          simp [hn] at this
    | false =>
      rw [ih]
      constructor
      · rintro ⟨hi, hpi, hlast⟩
        refine ⟨by omega, hpi, fun j hj hj' => ?_⟩
        by_cases heq : j = n
        · rw [heq, hn]
        · exact hlast j hj (by omega)
      · rintro ⟨hi, hpi, hlast⟩
        have hne : i ≠ n := fun heq => by simp [heq, hn] at hpi
        exact ⟨by omega, hpi, fun j hj hj' => hlast j hj (by omega)⟩

theorem hostIndex?_eq_some_iff {o : Options} {names : List Text} {name : Text} {i : Nat} :
    hostIndex? o names name = some i ↔ Addresses o names name i := by
  unfold hostIndex? Addresses
  by_cases hcontainer : o.isContainer name
  · cases names <;> simp [hcontainer, eq_comm]
  · simp only [hcontainer, Bool.false_eq_true, if_false, find?_reverse_range, beq_iff_eq,
      beq_eq_false_iff_ne]
    constructor
    · rintro ⟨-, hi, hlast⟩
      refine ⟨hi, fun hmem => ?_⟩
      obtain ⟨k, hk⟩ := List.mem_iff_getElem?.mp hmem
      rw [List.getElem?_drop] at hk
      exact hlast (i + 1 + k) (by omega) (List.getElem?_eq_some_iff.mp hk).1 hk
    · rintro ⟨hi, hlast⟩
      refine ⟨(List.getElem?_eq_some_iff.mp hi).1, hi, fun j hj _ hname => hlast ?_⟩
      refine List.mem_iff_getElem?.mpr ⟨j - (i + 1), ?_⟩
      rw [List.getElem?_drop, Nat.add_sub_cancel' hj, hname]

theorem isUnknown_iff {o : Options} {names : List Text} {name : Text} :
    isUnknown o names name ↔ hostIndex? o names name = none ∧ o.isContainer name = false := by
  unfold isUnknown hostIndex?
  cases o.isContainer name with
  | true => simp
  | false =>
    simp only [Bool.not_false, Bool.true_and, Bool.not_eq_true', List.contains_eq_mem,
      decide_eq_false_iff_not, Bool.false_eq_true, if_false, and_true, List.find?_eq_none,
      List.mem_reverse, List.mem_range, beq_iff_eq]
    constructor
    · intro hname i hi heq
      exact hname (List.mem_of_getElem? heq)
    · intro hnone hmem
      obtain ⟨i, hi⟩ := List.mem_iff_getElem?.mp hmem
      exact hnone i (List.getElem?_eq_some_iff.mp hi).1 hi

theorem filterMap_range {α β : Type} (hosts : List α) (f : α → Nat → Option β) :
    ((List.range hosts.length).filterMap fun i => hosts[i]?.bind fun c => f c i) =
      hosts.zipIdx.filterMap fun e => f e.1 e.2 := by
  induction hosts using List.reverseRecOn with
  | nil => rfl
  | append_singleton hosts c ih =>
    have hfront : ∀ i ∈ List.range hosts.length, ((hosts ++ [c])[i]?.bind fun c => f c i) =
        hosts[i]?.bind fun c => f c i := by
      intro i hi
      rw [List.getElem?_append_left (List.mem_range.mp hi)]
    rw [List.length_append, List.length_singleton, List.range_succ, List.filterMap_append,
      List.filterMap_congr hfront, ih, List.zipIdx_append, List.filterMap_append]
    simp [List.filterMap_cons]

theorem addressed_sublist {α : Type} (o : Options) (hosts : List α) (hostName : α → Text)
    (names : List Text) :
    ((addressed o hosts hostName names).map (·.1)).Sublist hosts := by
  have hsublist := (List.filter_sublist (l := hosts.zipIdx) (p := fun e =>
    names.any fun name => Addresses o (hosts.map hostName) name e.2)).map Prod.fst
  rwa [List.zipIdx_map_fst] at hsublist

theorem filterMap_eq_map_filter {α β : Type} {p : α → Bool} {f : α → Option β} {g : α → β}
    {l : List α} (h : ∀ a ∈ l, f a = if p a then some (g a) else none) :
    l.filterMap f = (l.filter p).map g := by
  induction l with
  | nil => rfl
  | cons a l ih =>
    have ha := h a List.mem_cons_self
    rw [List.filterMap_cons, List.filter_cons, ih fun b hb => h b (List.mem_cons_of_mem a hb), ha]
    cases p a <;> rfl

theorem mapM_filterMap {α β γ : Type} {p : α → Bool} {f : α → Option β} {g : β → Except Error γ}
    {k : α → Except Error γ} {l : List α} (hskip : ∀ a ∈ l, p a = false → f a = none)
    (htake : ∀ a ∈ l, p a → ∃ b, f a = some b ∧ g b = k a) :
    (l.filterMap f).mapM g = (l.filter p).mapM k := by
  induction l with
  | nil => rfl
  | cons a l ih =>
    have hrest := ih (fun b hb => hskip b (List.mem_cons_of_mem a hb)) fun b hb =>
      htake b (List.mem_cons_of_mem a hb)
    cases hp : p a with
    | false =>
      rw [List.filterMap_cons_none (hskip a List.mem_cons_self hp),
        List.filter_cons_of_neg (by simp [hp]), hrest]
    | true =>
      obtain ⟨b, hb, heq⟩ := htake a List.mem_cons_self hp
      rw [List.filterMap_cons_some hb, List.filter_cons_of_pos hp, List.mapM_cons,
        List.mapM_cons, heq, hrest]

section

variable {δ σ : Type} {r : Rules δ} {placement : Placement} {i : Nat} {base : Pieces δ}
  {m m' : ClassMerge δ}
  {f : ClassMerge δ → σ → Traced (ClassMerge δ)} {unit? : σ → Option (Extraction δ)}
    {text? : σ → Option Text}

def enterAll (r : Rules δ) (placement : Placement) (base : Pieces δ)
    (units : List (Extraction δ)) : Pieces δ :=
  units.foldl (fun t u => run r placement u.commandsOf t u.table.entries) base

theorem lookup_foldlM
    (hstep : ∀ m a m', (f m a).result = .ok m' → Enters r placement i base m m' (unit? a))
    {as : List σ} (h : (as.foldlM f m).result = .ok m') :
    m'.tables.lookup i = if (as.filterMap unit?).isEmpty then m.tables.lookup i
      else some (enterAll r placement (m.current i base) (as.filterMap unit?)) := by
  induction as generalizing m with
  | nil =>
    obtain rfl := Except.ok.inj h
    rfl
  | cons a as ih =>
    rw [List.foldlM_cons, Traced.result_bind] at h
    obtain ⟨m₁, hfirst, h⟩ := Traced.exists_of_bind h
    have henters := hstep m a m₁ hfirst
    rw [ih h]
    generalize hunit : unit? a = u at henters
    cases henters with
    | into x hlookup =>
      rw [List.filterMap_cons_some hunit, current, hlookup]
      split
      · next hnil => simp [List.isEmpty_iff.mp hnil, enterAll]
      · simp [enterAll]
    | elsewhere hlookup => rw [List.filterMap_cons_none hunit, current, hlookup, current]

theorem added_foldlM
    (hstep : ∀ m a m', (f m a).result = .ok m' → m'.added = m.added ++ (text? a).toList)
    {as : List σ} (h : (as.foldlM f m).result = .ok m') :
    m'.added = m.added ++ as.filterMap text? := by
  induction as generalizing m with
  | nil =>
    obtain rfl := Except.ok.inj h
    simp
  | cons a as ih =>
    rw [List.foldlM_cons, Traced.result_bind] at h
    obtain ⟨m₁, hfirst, h⟩ := Traced.exists_of_bind h
    rw [ih h, hstep m a m₁ hfirst, List.append_assoc]
    cases htext : text? a with
    | none => rw [List.filterMap_cons_none htext, Option.toList_none, List.nil_append]
    | some t => rw [List.filterMap_cons_some htext, Option.toList_some, List.singleton_append]

theorem tables_of_isIdle (h : m.isIdle) : m.tables = [] ∧ m.added = [] := by
  simpa [isIdle] using h

theorem error_of_reconcile {strict : Bool} {host snippet : Pieces δ}
    {commands : Text → Commands} {e : Error}
    (h : (reconcile r placement strict host snippet commands).result = .error e) :
    strict ∧ ∃ w, e = .directive w := by
  cases strict with
  | false =>
    rw [reconcile_lenient] at h
    contradiction
  | true =>
    rw [reconcile_eq_verdict, verdict] at h
    split at h
    · contradiction
    · next w _ => exact ⟨rfl, w, (Except.error.inj h).symm⟩

theorem exists_of_foldlM_error {e : Error} {as : List σ} (h : (as.foldlM f m).result = .error e) :
    ∃ m, ∃ a ∈ as, (f m a).result = .error e := by
  induction as generalizing m with
  | nil => contradiction
  | cons a as ih =>
    rw [List.foldlM_cons, Traced.result_bind] at h
    cases hfirst : (f m a).result with
    | error e' =>
      rw [hfirst] at h
      obtain rfl := Except.error.inj h
      exact ⟨m, a, List.mem_cons_self, hfirst⟩
    | ok m₁ =>
      rw [hfirst] at h
      obtain ⟨m₂, b, hb, herror⟩ := ih h
      exact ⟨m₂, b, List.mem_cons_of_mem a hb, herror⟩

end

end ClassMerge

end Graft
