import Graft.Proofs.Suite.Rows

set_option autoImplicit false

/-!
Tables of line starts, and the lines and columns they are asked for. A table that knows more line
ends than whoever counted the lines is right up to the first line end of its own, and for no line
below it.
-/

namespace Graft.Text

variable {isEnd : Char → Bool} {a b t : Text} {c : Char} {r x : Text} {l : Text × Text} {k o : Nat}

def walk (isEnd : Char → Bool) : Nat × Nat → Text → Nat × Nat
  | p, [] => p
  | p, '\r' :: '\n' :: t => walk isEnd (p.1 + 1, 1) t
  | p, c :: t => walk isEnd (if isEnd c then (p.1 + 1, 1) else (p.1, p.2 + 1)) t

/-- One-based line and column of an offset, by a choice of line ends. -/
def positionBy (isEnd : Char → Bool) (t : Text) (o : Nat) : Nat × Nat :=
  walk isEnd (1, 1) (t.take o)

def IsWhole (a b : Text) : Prop := ¬(a.getLast? = some '\r' ∧ b.head? = some '\n')

instance (a b : Text) : Decidable (IsWhole a b) := inferInstanceAs (Decidable ¬_)

def IsFinished (isEnd : Char → Bool) (a : Text) : Prop := ∀ c ∈ a.getLast?, isEnd c

/-- How many lines end in a text. -/
def ends (isEnd : Char → Bool) : Text → Nat
  | [] => 0
  | '\r' :: '\n' :: t => ends isEnd t + 1
  | c :: t => ends isEnd t + if isEnd c then 1 else 0

/-- Every line break of a text is among the given ends. -/
def breaksOnlyAt (isEnd : Char → Bool) (t : Text) : Bool := t.all fun c => !isBreak c || isEnd c

/-- Line ends, the two that can stand together among them. -/
structure IsRule (isEnd : Char → Bool) : Prop where
  feed : isEnd '\n'
  ret : isEnd '\r'
  isBreak : ∀ c, isEnd c → isBreak c

theorem isRule_isBreak : IsRule isBreak := ⟨by decide, by decide, fun _ h => h⟩

theorem IsWhole.of_cons (h : IsWhole (c :: a) b) : IsWhole a b := by
  rintro ⟨ha, hb⟩
  refine h ⟨?_, hb⟩
  cases a with
  | nil => contradiction
  | cons d a => exact ha

theorem IsFinished.of_cons (h : IsFinished isEnd (c :: a)) : IsFinished isEnd a := by
  cases a with
  | nil => simp [IsFinished]
  | cons d a => exact h

theorem IsWhole.append (h : IsWhole a (x ++ b)) (hx : IsWhole x b) : IsWhole (a ++ x) b := by
  cases x with
  | nil => rwa [List.append_nil]
  | cons c x =>
    rintro ⟨ha, hb⟩
    rw [List.getLast?_append_of_ne_nil a (List.cons_ne_nil c x)] at ha
    exact hx ⟨ha, hb⟩

theorem IsWhole.of_append (h : IsWhole a (x ++ b)) : IsWhole a x := by
  cases x with
  | nil => simp [IsWhole]
  | cons c x => exact h

theorem IsWhole.cons (h : IsWhole a b) (hc : a = [] → c = '\r' → b.head? ≠ some '\n') :
    IsWhole (c :: a) b := by
  rintro ⟨ha, hb⟩
  cases a with
  | nil => exact hc rfl (Option.some.inj ha) hb
  | cons d a => exact h ⟨ha, hb⟩

theorem IsFinished.cons (h : IsFinished isEnd a) (hc : a = [] → isEnd c) :
    IsFinished isEnd (c :: a) := by
  cases a with
  | nil =>
    rintro d ⟨⟩
    exact hc rfl
  | cons d a => exact h

theorem walk_cons (p : Nat × Nat) (h : ∀ u, c = '\r' → t = '\n' :: u → False) :
    walk isEnd p (c :: t) = walk isEnd (if isEnd c then (p.1 + 1, 1) else (p.1, p.2 + 1)) t := by
  rw [walk]
  exact h

theorem ends_cons (h : ∀ u, c = '\r' → t = '\n' :: u → False) :
    ends isEnd (c :: t) = ends isEnd t + if isEnd c then 1 else 0 := by
  rw [ends]
  exact h

theorem IsWhole.not_pair (h : IsWhole (c :: a) b) (hnot : ∀ u, c = '\r' → a = '\n' :: u → False) :
    ∀ u, c = '\r' → a ++ b = '\n' :: u → False := by
  rintro u rfl heq
  cases a with
  | nil => exact h ⟨rfl, by rw [List.nil_append] at heq; rw [heq]; rfl⟩
  | cons d a => exact hnot a rfl (by rw [(List.cons.inj heq).1])

theorem walk_append (p : Nat × Nat) (h : IsWhole a b) :
    walk isEnd p (a ++ b) = walk isEnd (walk isEnd p a) b := by
  fun_induction walk isEnd p a with
  | case1 p => rfl
  | case2 p a ih => exact ih h.of_cons.of_cons
  | case3 p c a hnot ih =>
    rw [List.cons_append, walk_cons p (h.not_pair hnot), ih h.of_cons]

theorem fst_walk (p : Nat × Nat) (t : Text) : (walk isEnd p t).1 = p.1 + ends isEnd t := by
  fun_induction walk isEnd p t with
  | case1 p => rfl
  | case2 p t ih =>
    rw [ih, ends]
    omega
  | case3 p c t hnot ih =>
    rw [ih, ends_cons hnot]
    split
    · simp only
      omega
    · rfl

theorem walk_of_forall (hend : IsRule isEnd) (p : Nat × Nat) (h : ∀ c ∈ t, isEnd c = false) :
    walk isEnd p t = (p.1, p.2 + t.length) := by
  induction t generalizing p with
  | nil => rfl
  | cons c t ih =>
    obtain ⟨hc, ht⟩ := List.forall_mem_cons.mp h
    have hreturn : ∀ u, c = '\r' → t = '\n' :: u → False := by
      rintro u rfl -
      rw [hend.ret] at hc
      contradiction
    rw [walk_cons p hreturn, hc, ih _ ht, List.length_cons]
    simp only [Bool.false_eq_true, if_false, Prod.mk.injEq, true_and]
    omega

theorem snd_walk_of_finished (p : Nat × Nat) (h : IsFinished isEnd a) (ha : a ≠ []) :
    (walk isEnd p a).2 = 1 := by
  fun_induction walk isEnd p a with
  | case1 p => contradiction
  | case2 p a ih =>
    cases a with
    | nil => rfl
    | cons c a => exact ih h (List.cons_ne_nil c a)
  | case3 p c a hnot ih =>
    cases a with
    | nil =>
      rw [walk, if_pos (h c rfl)]
    | cons d a => exact ih h (List.cons_ne_nil d a)

theorem exists_lastLine (isEnd : Char → Bool) (t : Text) :
    ∃ a r, t = a ++ r ∧ IsFinished isEnd a ∧ ∀ c ∈ r, isEnd c = false := by
  refine ⟨t.rdropWhile (!isEnd ·), t.rtakeWhile (!isEnd ·),
    (List.rdropWhile_append_rtakeWhile ..).symm, ?_, ?_⟩
  · intro c hc
    have hne : t.rdropWhile (!isEnd ·) ≠ [] := by
      intro hnil
      rw [hnil] at hc
      contradiction
    have hlast := List.rdropWhile_last_not (!isEnd ·) t hne
    rw [List.getLast?_eq_some_getLast hne, Option.mem_some_iff] at hc
    rw [hc] at hlast
    simpa using hlast
  · intro c hc
    simpa using List.mem_rtakeWhile_imp hc

theorem IsWhole.append_of_forall (hend : IsRule isEnd) (hr : ∀ c ∈ r, isEnd c = false)
    (h : r = [] → IsWhole a b) : IsWhole a (r ++ b) := by
  cases r with
  | nil => exact h rfl
  | cons c r =>
    rintro ⟨-, hc⟩
    rw [List.cons_append, List.head?_cons, Option.some.injEq] at hc
    have hfeed := hr c List.mem_cons_self
    rw [hc, hend.feed] at hfeed
    contradiction

theorem walk_lastLine (hend : IsRule isEnd) (ha : IsFinished isEnd a)
    (hr : ∀ c ∈ r, isEnd c = false) :
    walk isEnd (1, 1) (a ++ r) = (1 + ends isEnd a, r.length + 1) := by
  have hwhole : IsWhole a r := by
    have hwhole := IsWhole.append_of_forall hend (b := []) (a := a) hr fun _ => by simp [IsWhole]
    rwa [List.append_nil] at hwhole
  have hcolumn : (walk isEnd (1, 1) a).2 = 1 := by
    by_cases hnil : a = []
    · rw [hnil]
      rfl
    · exact snd_walk_of_finished _ ha hnil
  rw [walk_append _ hwhole, walk_of_forall hend _ hr, hcolumn, fst_walk, Nat.add_comm 1 r.length]

theorem linesBy_eq_nil_iff : linesBy isEnd t = [] ↔ t = [] := by
  constructor
  · intro h
    rw [← flatMap_linesBy isEnd t, h]
    rfl
  · rintro rfl
    rfl

theorem linesBy_append (ha : IsFinished isEnd a) (h : IsWhole a b) :
    linesBy isEnd (a ++ b) = linesBy isEnd a ++ linesBy isEnd b := by
  fun_induction linesBy isEnd a with
  | case1 => rfl
  | case2 a ih =>
    rw [List.cons_append, List.cons_append, linesBy, ih ha.of_cons.of_cons h.of_cons.of_cons]
    rfl
  | case3 c a hnot hc ih =>
    rw [List.cons_append, linesBy.eq_3 _ _ _ (h.not_pair hnot), if_pos hc, ih ha.of_cons h.of_cons]
    rfl
  | case4 c a hnot hc hnil ih =>
    rw [linesBy_eq_nil_iff.mp hnil] at ha
    exact absurd (ha c rfl) hc
  | case5 c a hnot hc line stop rest hcons ih =>
    rw [List.cons_append, linesBy.eq_3 _ _ _ (h.not_pair hnot), if_neg hc,
      ih ha.of_cons h.of_cons, hcons]
    rfl

theorem length_linesBy (ha : IsFinished isEnd a) : (linesBy isEnd a).length = ends isEnd a := by
  fun_induction linesBy isEnd a with
  | case1 => rfl
  | case2 a ih => rw [List.length_cons, ih ha.of_cons.of_cons, ends]
  | case3 c a hnot hc ih => rw [List.length_cons, ih ha.of_cons, ends_cons hnot, if_pos hc]
  | case4 c a hnot hc hnil ih =>
    rw [linesBy_eq_nil_iff.mp hnil] at ha
    exact absurd (ha c rfl) hc
  | case5 c a hnot hc line stop rest hcons ih =>
    have hlength := ih ha.of_cons
    rw [hcons, List.length_cons] at hlength
    rw [List.length_cons, hlength, ends_cons hnot, if_neg hc, Nat.add_zero]

theorem withEnd_ne_nil (h : l ∈ linesBy isEnd t) : withEnd l ≠ [] := by
  fun_induction linesBy isEnd t generalizing l with
  | case1 => contradiction
  | case2 t ih =>
    rcases List.mem_cons.mp h with rfl | h
    · simp [withEnd]
    · exact ih h
  | case3 c t hnot hc ih =>
    rcases List.mem_cons.mp h with rfl | h
    · simp [withEnd]
    · exact ih h
  | case4 c t hnot hc hnil ih =>
    obtain rfl := List.mem_singleton.mp h
    simp [withEnd]
  | case5 c t hnot hc line stop rest hcons ih =>
    rcases List.mem_cons.mp h with rfl | h
    · simp [withEnd]
    · exact ih (hcons ▸ List.mem_cons_of_mem _ h)

theorem end_ne_nil_of_finished (ha : IsFinished isEnd a) (h : l ∈ linesBy isEnd a) : l.2 ≠ [] := by
  fun_induction linesBy isEnd a generalizing l with
  | case1 => contradiction
  | case2 a ih =>
    rcases List.mem_cons.mp h with rfl | h
    · simp
    · exact ih ha.of_cons.of_cons h
  | case3 c a hnot hc ih =>
    rcases List.mem_cons.mp h with rfl | h
    · simp
    · exact ih ha.of_cons h
  | case4 c a hnot hc hnil ih =>
    rw [linesBy_eq_nil_iff.mp hnil] at ha
    exact absurd (ha c rfl) hc
  | case5 c a hnot hc line stop rest hcons ih =>
    rw [hcons] at ih
    rcases List.mem_cons.mp h with rfl | h
    · exact ih (l := (line, stop)) ha.of_cons List.mem_cons_self
    · exact ih ha.of_cons (List.mem_cons_of_mem _ h)

theorem rowStart_lt (h : k < (linesBy isEnd t).length) :
    rowStart isEnd t k < rowStart isEnd t (k + 1) := by
  have hne := withEnd_ne_nil (List.getElem_mem h)
  have hpos := List.length_pos_of_ne_nil hne
  rw [withEnd, List.length_append] at hpos
  rw [rowStart_succ (List.getElem?_eq_getElem h)]
  omega

theorem rowStart_length (isEnd : Char → Bool) (t : Text) :
    rowStart isEnd t (linesBy isEnd t).length = t.length := by
  rw [rowStart, List.take_length, flatMap_linesBy]

theorem rowStart_append (ha : IsFinished isEnd a) (h : IsWhole a b) (hk : k ≤ ends isEnd a) :
    rowStart isEnd (a ++ b) k = rowStart isEnd a k := by
  rw [← length_linesBy ha] at hk
  rw [rowStart, linesBy_append ha h, List.take_append_of_le_length hk]
  rfl

theorem ends_isBreak (hend : IsRule isEnd) (t : Text) :
    ends isBreak t = ends isEnd t + t.countP fun c => isBreak c && !isEnd c := by
  fun_induction ends isEnd t with
  | case1 => rfl
  | case2 t ih =>
    rw [ends, ih, List.countP_cons_of_neg (by simp [hend.ret]),
      List.countP_cons_of_neg (by simp [hend.feed])]
    omega
  | case3 c t hnot ih =>
    rw [ends_cons hnot, ih, List.countP_cons]
    cases hc : isEnd c with
    | true =>
      simp only [hend.isBreak c hc]
      simp
      omega
    | false =>
      simp
      omega

theorem breaksOnlyAt_iff :
    breaksOnlyAt isEnd t ↔ t.countP (fun c => isBreak c && !isEnd c) = 0 := by
  rw [breaksOnlyAt, List.all_eq_true, List.countP_eq_zero]
  refine forall₂_congr fun c _ => ?_
  cases isBreak c <;> cases isEnd c <;> decide

theorem isFinished_isBreak (hend : IsRule isEnd) (ha : IsFinished isEnd a) : IsFinished isBreak a :=
  fun c hc => hend.isBreak c (ha c hc)

theorem rowStart_ends_eq_iff (hend : IsRule isEnd) (ha : IsFinished isEnd a) (h : IsWhole a b) :
    rowStart isBreak (a ++ b) (ends isEnd a) = a.length ↔ breaksOnlyAt isEnd a := by
  have hbreak := isFinished_isBreak hend ha
  have hends := ends_isBreak hend a
  rw [rowStart_append hbreak h (by omega), breaksOnlyAt_iff]
  constructor
  · intro hstart
    by_contra hforeign
    have hlt : ends isEnd a < (linesBy isBreak a).length := by
      rw [length_linesBy hbreak]
      omega
    have hnext := rowStart_lt hlt
    have hle : rowStart isBreak a (ends isEnd a + 1) ≤ a.length := rowStart_le_length a _
    omega
  · intro hnone
    rw [hnone, Nat.add_zero, ← length_linesBy hbreak] at hends
    rw [← hends, rowStart_length]

theorem getD_lineOffsets (h : k < (linesBy isEnd t).length) :
    (lineOffsets isEnd t).toArray.getD k 0 = rowStart isEnd t k := by
  rw [lineOffsets_eq]
  simp [h]

/-- A table of line starts, with the end of the text as the start of another line. -/
def lineTable (isEnd : Char → Bool) (t : Text) : Array Nat :=
  (lineOffsets isEnd t ++ [t.length]).toArray

theorem getD_lineTable (h : k ≤ (linesBy isEnd t).length) :
    (lineTable isEnd t).getD k 0 = rowStart isEnd t k := by
  have hlength : (lineOffsets isEnd t).length = (linesBy isEnd t).length := by
    rw [lineOffsets_eq, List.length_map, List.length_range]
  rw [lineTable, Array.getD_eq_getD_getElem?, List.getElem?_toArray]
  rcases Nat.lt_or_eq_of_le h with hlt | rfl
  · rw [List.getElem?_append_left (by omega), lineOffsets_eq]
    simp [hlt]
  · rw [rowStart_length, List.getElem?_append_right (by omega), hlength, Nat.sub_self]
    rfl

theorem rowStart_ends (ha : IsFinished isEnd a) (h : IsWhole a b) :
    rowStart isEnd (a ++ b) (ends isEnd a) = a.length := by
  rw [rowStart_append ha h (Nat.le_refl _), ← length_linesBy ha, rowStart_length]

section

variable (hend : IsRule isEnd) (ho : o ≤ t.length) (h : IsWhole (t.take o) (t.drop o))
include hend ho h

theorem exists_positionBy :
    ∃ a r b, t = a ++ (r ++ b) ∧ IsFinished isEnd a ∧ IsWhole a (r ++ b) ∧ o = a.length + r.length ∧
      positionBy isEnd t o = (1 + ends isEnd a, r.length + 1) := by
  obtain ⟨a, r, htake, ha, hr⟩ := exists_lastLine isEnd (t.take o)
  refine ⟨a, r, t.drop o, ?_, ha, ?_, ?_, ?_⟩
  · rw [← List.append_assoc, ← htake, List.take_append_drop]
  · refine .append_of_forall hend hr ?_
    rintro rfl
    rwa [htake, List.append_nil] at h
  · rw [← List.length_append, ← htake, List.length_take, Nat.min_eq_left ho]
  · rw [positionBy, htake, walk_lastLine hend ha hr]

theorem rowStart_positionBy : (positionBy isEnd t o).1 - 1 ≤ (linesBy isEnd t).length ∧
      rowStart isEnd t ((positionBy isEnd t o).1 - 1) + (positionBy isEnd t o).2 - 1 = o := by
  obtain ⟨a, r, b, rfl, ha, hwhole, rfl, hposition⟩ := exists_positionBy hend ho h
  have hline : 1 + ends isEnd a - 1 = ends isEnd a := by omega
  rw [hposition, linesBy_append ha hwhole, List.length_append, length_linesBy ha]
  simp only [hline, rowStart_ends ha hwhole]
  omega

theorem rowStart_isBreak_positionBy : (positionBy isEnd t o).1 - 1 ≤ (linesBy isBreak t).length ∧
      (o < t.length → (positionBy isEnd t o).1 - 1 < (linesBy isBreak t).length) ∧
      (rowStart isBreak t ((positionBy isEnd t o).1 - 1) + (positionBy isEnd t o).2 - 1 = o ↔
        breaksOnlyAt isEnd (t.take (rowStart isEnd t ((positionBy isEnd t o).1 - 1)))) := by
  obtain ⟨a, r, b, rfl, ha, hwhole, rfl, hposition⟩ := exists_positionBy hend ho h
  have hbreak := isFinished_isBreak hend ha
  have hends := ends_isBreak hend a
  have hline : 1 + ends isEnd a - 1 = ends isEnd a := by omega
  rw [hposition]
  simp only [hline, rowStart_ends ha hwhole, List.take_left]
  rw [← rowStart_ends_eq_iff hend ha hwhole, linesBy_append hbreak hwhole, List.length_append,
    length_linesBy hbreak]
  refine ⟨by omega, fun hlt => ?_, by omega⟩
  have hrest : (linesBy isBreak (r ++ b)).length ≠ 0 := by
    rw [Ne, List.length_eq_zero_iff, linesBy_eq_nil_iff, ← List.length_eq_zero_iff]
    simp only [List.length_append] at hlt ⊢
    omega
  omega

end

theorem breaksOnlyAt_append :
    breaksOnlyAt isEnd (a ++ b) = (breaksOnlyAt isEnd a && breaksOnlyAt isEnd b) :=
  List.all_append

section

variable (hend : IsRule isEnd)
include hend

theorem head?_linesBy (ht : t ≠ []) :
    (linesBy isEnd t).head?.map (·.1) = some (t.takeWhile (!isEnd ·)) := by
  fun_induction linesBy isEnd t with
  | case1 => contradiction
  | case2 t ih => simp [hend.ret]
  | case3 c t hnot hc ih => simp [hc]
  | case4 c t hnot hc hnil ih =>
    rw [linesBy_eq_nil_iff.mp hnil]
    simp [hc]
  | case5 c t hnot hc line stop rest hcons ih =>
    have hne : t ≠ [] := by
      rintro rfl
      contradiction
    have hline := ih hne
    rw [hcons] at hline
    simp only [List.head?_cons, Option.map_some, Option.some.injEq] at hline
    simp [hc, hline]

theorem exists_rows (hk : k < (linesBy isEnd t).length) :
    ∃ a b, t = a ++ b ∧ IsFinished isEnd a ∧ IsWhole a b ∧ ends isEnd a = k ∧ b ≠ [] := by
  fun_induction linesBy isEnd t generalizing k with
  | case1 => contradiction
  | case2 t ih =>
    cases k with
    | zero => exact ⟨[], _, rfl, by simp [IsFinished], by simp [IsWhole], rfl, by simp⟩
    | succ k =>
      obtain ⟨a, b, rfl, ha, hwhole, rfl, hb⟩ := ih (Nat.lt_of_succ_lt_succ hk)
      exact ⟨'\r' :: '\n' :: a, b, rfl, (ha.cons fun _ => hend.feed).cons (by simp),
        (hwhole.cons (by simp)).cons (by simp), rfl, hb⟩
  | case3 c t hnot hc ih =>
    cases k with
    | zero => exact ⟨[], _, rfl, by simp [IsFinished], by simp [IsWhole], rfl, by simp⟩
    | succ k =>
      obtain ⟨a, b, rfl, ha, hwhole, rfl, hb⟩ := ih (Nat.lt_of_succ_lt_succ hk)
      have hpair : ∀ u, c = '\r' → a = '\n' :: u → False := fun u hreturn hfeed =>
        hnot (u ++ b) hreturn (by rw [hfeed, List.cons_append])
      refine ⟨c :: a, b, rfl, ha.cons fun _ => hc, hwhole.cons fun hnil hreturn hfeed => ?_,
        by rw [ends_cons hpair, if_pos hc], hb⟩
      obtain ⟨b, rfl⟩ := List.head?_eq_some_iff.mp hfeed
      exact hnot b hreturn (by rw [hnil, List.nil_append])
  | case4 c t hnot hc hnil ih =>
    obtain rfl : k = 0 := by simpa using hk
    exact ⟨[], _, rfl, by simp [IsFinished], by simp [IsWhole], rfl, by simp⟩
  | case5 c t hnot hc line stop rest hcons ih =>
    cases k with
    | zero => exact ⟨[], _, rfl, by simp [IsFinished], by simp [IsWhole], rfl, by simp⟩
    | succ k =>
      rw [hcons] at ih
      obtain ⟨a, b, rfl, ha, hwhole, hk, hb⟩ := ih (k := k + 1) hk
      have hne : a ≠ [] := by
        rintro rfl
        contradiction
      have hpair : ∀ u, c = '\r' → a = '\n' :: u → False := fun u hreturn hfeed =>
        hnot (u ++ b) hreturn (by rw [hfeed, List.cons_append])
      exact ⟨c :: a, b, rfl, ha.cons fun hnil => absurd hnil hne,
        hwhole.cons fun hnil => absurd hnil hne, by rw [ends_cons hpair, if_neg hc, hk], hb⟩

theorem takeWhile_isBreak_eq_iff (t : Text) :
    (t.takeWhile (!isBreak ·)).length = (t.takeWhile (!isEnd ·)).length ↔
      breaksOnlyAt isEnd (t.takeWhile (!isEnd ·)) := by
  induction t with
  | nil => simp [breaksOnlyAt]
  | cons c t ih =>
    cases hc : isEnd c with
    | true => simp [hc, hend.isBreak c hc, breaksOnlyAt]
    | false =>
      cases hb : isBreak c with
      | true => simp [hc, hb, breaksOnlyAt]
      | false =>
        rw [List.takeWhile_cons_of_pos (by simp [hb]), List.takeWhile_cons_of_pos (by simp [hc])]
        simp only [List.length_cons, Nat.add_right_cancel_iff, ih]
        simp [breaksOnlyAt, hb]

theorem exists_row_of_get (hl : (linesBy isEnd t)[k]? = some l) :
    ∃ a b, t = a ++ b ∧ IsFinished isEnd a ∧ IsWhole a b ∧ ends isEnd a = k ∧ b ≠ [] ∧
      rowStart isEnd t k = a.length ∧
      l.1 = b.takeWhile (!isEnd ·) ∧ t.take (rowStart isEnd t k + l.1.length) = a ++ l.1 := by
  obtain ⟨hk, -⟩ := List.getElem?_eq_some_iff.mp hl
  obtain ⟨a, b, rfl, ha, hwhole, rfl, hb⟩ := exists_rows hend hk
  have hstart := rowStart_ends ha hwhole
  have hline : l.1 = b.takeWhile (!isEnd ·) := by
    have hhead := head?_linesBy hend hb
    rw [linesBy_append ha hwhole, ← length_linesBy ha, List.getElem?_append_right (Nat.le_refl _),
      Nat.sub_self, ← List.head?_eq_getElem?] at hl
    rw [hl] at hhead
    exact Option.some.inj hhead
  refine ⟨a, b, rfl, ha, hwhole, rfl, hb, hstart, hline, ?_⟩
  rw [hstart, List.take_length_add_append, hline]
  exact congrArg (a ++ ·) (List.prefix_iff_eq_take.mp (List.takeWhile_prefix _)).symm

theorem lt_length_linesBy (hk : k < (linesBy isEnd t).length) : k < (linesBy isBreak t).length := by
  obtain ⟨a, b, rfl, ha, hwhole, rfl, hb⟩ := exists_rows hend hk
  have hends := ends_isBreak hend a
  have hpos := List.length_pos_of_ne_nil (mt linesBy_eq_nil_iff.mp hb : linesBy isBreak b ≠ [])
  rw [linesBy_append (isFinished_isBreak hend ha) hwhole, List.length_append,
    length_linesBy (isFinished_isBreak hend ha)]
  omega

theorem line_of_breaksOnlyAt (hl : (linesBy isEnd t)[k]? = some l)
    (h : breaksOnlyAt isEnd (t.take (rowStart isEnd t k + l.1.length))) :
    rowStart isBreak t k = rowStart isEnd t k ∧ (linesBy isBreak t)[k]?.map (·.1) = some l.1 := by
  obtain ⟨a, b, rfl, ha, hwhole, rfl, hb, hstart, hline, htake⟩ := exists_row_of_get hend hl
  rw [htake, breaksOnlyAt_append, Bool.and_eq_true] at h
  have hbreak := isFinished_isBreak hend ha
  have hcount : ends isEnd a = (linesBy isBreak a).length := by
    rw [length_linesBy hbreak, ends_isBreak hend, breaksOnlyAt_iff.mp h.1, Nat.add_zero]
  refine ⟨by rw [hstart, (rowStart_ends_eq_iff hend ha hwhole).mpr h.1], ?_⟩
  rw [linesBy_append hbreak hwhole, hcount, List.getElem?_append_right (Nat.le_refl _),
    Nat.sub_self, ← List.head?_eq_getElem?, head?_linesBy isRule_isBreak hb, hline,
    Option.some.injEq]
  -- without a break in the line the table goes as far as the rule
  rw [hline] at h
  have hlength := (takeWhile_isBreak_eq_iff hend b).mpr h.2
  have hsub : b.takeWhile (!isBreak ·) <+: b.takeWhile (!isEnd ·) :=
    List.prefix_of_prefix_length_le (List.takeWhile_prefix _) (List.takeWhile_prefix _)
      (Nat.le_of_eq hlength)
  exact hsub.eq_of_length hlength

theorem lineStop_eq_iff (hl : (linesBy isEnd t)[k]? = some l) :
    rowStart isBreak t k + (((linesBy isBreak t)[k]?.map (·.1)).getD []).length =
      rowStart isEnd t k + l.1.length ↔
      breaksOnlyAt isEnd (t.take (rowStart isEnd t k + l.1.length)) := by
  constructor
  · intro hstop
    obtain ⟨a, b, rfl, ha, hwhole, rfl, hb, hstart, hline, htake⟩ := exists_row_of_get hend hl
    have hbreak := isFinished_isBreak hend ha
    have hends := ends_isBreak hend a
    rw [htake, breaksOnlyAt_append, Bool.and_eq_true]
    by_cases honly : breaksOnlyAt isEnd a
    · rw [breaksOnlyAt_iff.mp honly, Nat.add_zero, ← length_linesBy hbreak] at hends
      rw [(rowStart_ends_eq_iff hend ha hwhole).mpr honly, hstart,
        linesBy_append hbreak hwhole, ← hends, List.getElem?_append_right (Nat.le_refl _),
        Nat.sub_self, ← List.head?_eq_getElem?, head?_linesBy isRule_isBreak hb, Option.getD_some,
        hline, Nat.add_left_cancel_iff] at hstop
      exact ⟨honly, hline ▸ (takeWhile_isBreak_eq_iff hend b).mp hstop⟩
    · -- the line of the table and its end lie in what stands before the line of the rule
      have hlt : ends isEnd a < (linesBy isBreak a).length := by
        rw [breaksOnlyAt_iff] at honly
        rw [length_linesBy hbreak]
        omega
      have hget := List.getElem?_eq_getElem hlt
      have hnext := rowStart_succ hget
      have hle : rowStart isBreak a (ends isEnd a + 1) ≤ a.length := rowStart_le_length a _
      have hpos := List.length_pos_of_ne_nil (end_ne_nil_of_finished hbreak (List.getElem_mem hlt))
      rw [rowStart_append hbreak hwhole (by omega), linesBy_append hbreak hwhole,
        List.getElem?_append_left hlt, hget, Option.map_some, Option.getD_some, hstart] at hstop
      omega
  · intro honly
    obtain ⟨hstart, hline⟩ := line_of_breaksOnlyAt hend hl honly
    rw [hstart, hline, Option.getD_some]

end

end Graft.Text
