import Graft.Proofs.Item.Header

set_option autoImplicit false

/-!
Parameter lists cut at their commas. A comma outside brackets ends a parameter and no other one
does, so there is only one way to cut; the parts of a list are that cut, less a blank last part.
-/

namespace Graft.Item

variable {p q t : Text} {c : Char} {ps qs : List Text}

def lift (prev : Option Char) (c : Char) : Int :=
  if c ∈ ['<', '(', '[', '\x7b'] then 1
  else if c ∈ [')', ']', '\x7d'] ∨ c = '>' ∧ prev ≠ some '-' then -1
  else 0

def levelFrom : Option Char → Text → Int
  | _, [] => 0
  | prev, c :: t => lift prev c + levelFrom (some c) t

/-- The depth of brackets behind a text, counted from its start. It may be below zero. -/
def level (t : Text) : Int := levelFrom none t

theorem levelFrom_concat (prev : Option Char) (t : Text) (c : Char) :
    levelFrom prev (t ++ [c]) = levelFrom prev t + lift (t.getLast?.or prev) c := by
  induction t generalizing prev with
  | nil => simp [levelFrom]
  | cons d t ih =>
    have hlast : ((d :: t).getLast?.or prev) = t.getLast?.or (some d) := by
      cases t <;> simp [List.getLast?_cons]
    rw [List.cons_append, levelFrom, ih, levelFrom, hlast, Int.add_assoc]

theorem level_concat (t : Text) (c : Char) : level (t ++ [c]) = level t + lift t.getLast? c := by
  rw [level, levelFrom_concat, Option.or_none, level]

theorem Splitting.depthAfter_eq (s : Splitting) (c : Char) :
    s.depthAfter c = s.depth + lift s.current.head? c := by
  unfold depthAfter lift
  simp only [List.mem_cons, List.not_mem_nil, or_false, Bool.or_eq_true, beq_iff_eq, or_assoc,
    Bool.and_eq_true, bne_iff_ne]
  split
  · rfl
  · split
    · rfl
    · exact (Int.add_zero _).symm

/-- No comma of the text stands outside brackets. -/
def Undivided (t : Text) : Prop := ∀ pre post, t = pre ++ ',' :: post → level pre ≠ 0

theorem undivided_nil : Undivided [] := by simp [Undivided]

theorem Undivided.concat (h : Undivided t) (hc : c = ',' → level t ≠ 0) : Undivided (t ++ [c]) := by
  intro pre post heq
  rcases List.eq_nil_or_concat post with rfl | ⟨post, d, rfl⟩
  · obtain ⟨rfl, hlast⟩ := List.append_inj' heq rfl
    exact hc (List.head_eq_of_cons_eq hlast)
  · rw [List.concat_eq_append, ← List.cons_append, ← List.append_assoc] at heq
    exact h pre post (List.append_inj' heq rfl).1

/-- A text cut at its commas outside brackets, where each part is counted from its own start. -/
structure IsCut (t : Text) (parts : List Text) : Prop where
  ne_nil : parts ≠ []
  joined : Text.join [','] parts = t
  level_eq : ∀ p ∈ parts.dropLast, level p = 0
  undivided : ∀ p ∈ parts, Undivided p

theorem isCut_concat_iff : IsCut t (ps ++ [p]) ↔
    ps.flatMap (· ++ [',']) ++ p = t ∧ (∀ q ∈ ps, level q = 0 ∧ Undivided q) ∧ Undivided p := by
  have hparts : (∀ q ∈ ps ++ [p], Undivided q) ↔ (∀ q ∈ ps, Undivided q) ∧ Undivided p := by
    rw [List.forall_mem_append, List.forall_mem_singleton]
  constructor
  · rintro ⟨-, hjoined, hlevel, hundivided⟩
    rw [Text.join_concat] at hjoined
    rw [List.dropLast_concat] at hlevel
    exact ⟨hjoined, fun q hq => ⟨hlevel q hq, (hparts.mp hundivided).1 q hq⟩,
      (hparts.mp hundivided).2⟩
  · rintro ⟨hjoined, hended, hp⟩
    refine ⟨by simp, ?_, ?_, hparts.mpr ⟨fun q hq => (hended q hq).2, hp⟩⟩
    · rwa [Text.join_concat]
    · rw [List.dropLast_concat]
      exact fun q hq => (hended q hq).1

theorem IsCut.cons_cases (h : IsCut t (p :: ps)) :
    ps = [] ∧ t = p ∨ level p = 0 ∧ ∃ r, t = p ++ ',' :: r ∧ IsCut r ps := by
  obtain ⟨-, hjoined, hlevel, hundivided⟩ := h
  by_cases hnil : ps = []
  · subst hnil
    rw [Text.join, List.intercalate_singleton] at hjoined
    exact .inl ⟨rfl, hjoined.symm⟩
  · rw [List.dropLast_cons_of_ne_nil hnil, List.forall_mem_cons] at hlevel
    rw [Text.join_cons _ _ hnil, List.append_assoc] at hjoined
    exact .inr ⟨hlevel.1, _, hjoined.symm, hnil, rfl, hlevel.2,
      (List.forall_mem_cons.mp hundivided).2⟩

theorem IsCut.head_le (h : IsCut t (p :: ps)) : p <+: t := by
  obtain ⟨-, rfl⟩ | ⟨-, r, rfl, -⟩ := h.cons_cases
  · exact List.prefix_refl _
  · exact List.prefix_append _ _

theorem IsCut.head_eq (hp : IsCut t (p :: ps)) (hq : IsCut t (q :: qs)) (h : p <+: q) : p = q := by
  obtain ⟨-, rfl⟩ | ⟨hlevel, r, rfl, -⟩ := hp.cons_cases
  · exact h.eq_of_length_le hq.head_le.length_le
  · obtain ⟨a, rfl⟩ := h
    cases a with
    | nil => exact (List.append_nil p).symm
    | cons d a =>
      -- the longer part would go on with the comma that ends the shorter one
      have hd : d :: a <+: ',' :: r := (List.prefix_append_right_inj p).mp hq.head_le
      obtain ⟨rfl, -⟩ := List.cons_prefix_cons.mp hd
      exact absurd hlevel (hq.undivided _ List.mem_cons_self p a rfl)

theorem IsCut.unique (hp : IsCut t ps) (hq : IsCut t qs) : ps = qs := by
  induction ps generalizing t qs with
  | nil => exact absurd rfl hp.ne_nil
  | cons p ps ih =>
    obtain ⟨q, qs, rfl⟩ := List.exists_cons_of_ne_nil hq.ne_nil
    obtain rfl : p = q := by
      rcases List.prefix_or_prefix_of_prefix hp.head_le hq.head_le with h | h
      · exact hp.head_eq hq h
      · exact (hq.head_eq hp h).symm
    obtain ⟨rfl, rfl⟩ | ⟨-, r, rfl, hr⟩ := hp.cons_cases
    · obtain ⟨rfl, -⟩ | ⟨-, r, heq, -⟩ := hq.cons_cases
      · rfl
      · simp at heq
    · obtain ⟨-, heq⟩ | ⟨-, r', heq, hr'⟩ := hq.cons_cases
      · simp at heq
      · obtain rfl : r = r' := by simpa using heq
        rw [ih hr hr']

/-- The scan has read the text: its parts, the unfinished one included, are a cut, and it knows the
depth. -/
structure Splitting.HasRead (s : Splitting) (t : Text) : Prop where
  cut : IsCut t (s.parts.reverse ++ [s.current.reverse])
  depth_eq : s.depth = level s.current.reverse

theorem Splitting.HasRead.step {s : Splitting} (h : s.HasRead t) (c : Char) :
    (s.step c).HasRead (t ++ [c]) := by
  obtain ⟨hcut, hdepth⟩ := h
  obtain ⟨rfl, hended, hcurrent⟩ := isCut_concat_iff.mp hcut
  have hnext : s.depthAfter c = level (s.current.reverse ++ [c]) := by
    rw [level_concat, ← hdepth, List.getLast?_reverse, s.depthAfter_eq]
  have hcomma : c = ',' → s.depthAfter c = level s.current.reverse := by
    rintro rfl
    rw [hnext, level_concat]
    exact Int.add_zero _
  by_cases hc : c = ',' ∧ s.depthAfter c = 0
  · obtain ⟨rfl, hzero⟩ := hc
    have hstep : s.step ',' = ⟨s.current.reverse :: s.parts, 0, []⟩ := by
      simp [Splitting.step, hzero]
    rw [hstep]
    refine ⟨isCut_concat_iff.mpr ⟨by simp, ?_, undivided_nil⟩, rfl⟩
    rw [List.reverse_cons, List.forall_mem_append, List.forall_mem_singleton]
    exact ⟨hended, (hcomma rfl).symm.trans hzero, hcurrent⟩
  · have hstep : s.step c = ⟨s.parts, s.depthAfter c, c :: s.current⟩ := by
      simp only [Splitting.step]
      rw [if_neg (by simpa using hc)]
    have hgrown : Undivided (s.current.reverse ++ [c]) := hcurrent.concat fun h hzero =>
      hc ⟨h, (hcomma h).trans hzero⟩
    rw [hstep]
    refine ⟨isCut_concat_iff.mpr ⟨by simp, hended, ?_⟩, ?_⟩
    · rwa [List.reverse_cons]
    · rwa [List.reverse_cons]

theorem Splitting.hasRead (t : Text) : (t.foldl Splitting.step {}).HasRead t := by
  induction t using List.reverseRecOn with
  | nil => exact ⟨isCut_concat_iff.mpr ⟨rfl, by simp, undivided_nil⟩, rfl⟩
  | append_singleton t c ih =>
    rw [List.foldl_concat]
    exact ih.step c

/-- Every text has one cut at its commas outside brackets, and its parts are that cut, less a last
part that is blank. -/
theorem splitTopLevel_eq_cut (t : Text) : ∃ parts last, IsCut t (parts ++ [last]) ∧
    (∀ qs, IsCut t qs → qs = parts ++ [last]) ∧
    splitTopLevel t = if last.isBlankText then parts else parts ++ [last] := by
  have hcut := (Splitting.hasRead t).cut
  refine ⟨_, _, hcut, fun qs hqs => hqs.unique hcut, ?_⟩
  rw [splitTopLevel]
  simp

end Graft.Item
