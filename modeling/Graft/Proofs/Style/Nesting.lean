import Graft.Proofs.Style.Lexing
import Graft.Style.Value

set_option autoImplicit false

/-!
Matching brackets is a fold over the tokens. What is read on the outermost level does not depend on
what came before, so a row of values can be cut where the tokens can, and only the tokens decide
what the values are.
-/

namespace Graft.Style.Value

variable {v : Value} {rest ts ts' : List (Place × Token)} {r : Opened} {os : List Opened}
  {vs ws : List Value}

/-- The open brackets, and what was read on the innermost level, latest first. -/
abbrev Levels := List Opened × List Value

def push (s : Levels) (e : Place × Token) : Levels :=
  match e.2, s.1 with
  | .opening c, os => (⟨e.1, none, c, s.2⟩ :: os, [])
  | .function n, os => (⟨e.1, some n, '(', s.2⟩ :: os, [])
  | .closing c, o :: os =>
    if c == partnerOf o.bracket then (os, close o s.2)
    else (o :: os, token e.1 (.flaw (.unmatched c)) :: s.2)
  | .closing c, [] => ([], token e.1 (.flaw (.unmatched c)) :: s.2)
  | t, os => (os, token e.1 t :: s.2)

def shut : List Opened → List Value → List Value
  | [], level => level.reverse
  | o :: os, level => shut os (close o level)

def readAll (ts : List (Place × Token)) : Levels := ts.foldl push ([], [])

theorem nest_eq (os : List Opened) (level : List Value) (ts : List (Place × Token)) :
    nest os level ts = shut (ts.foldl push (os, level)).1 (ts.foldl push (os, level)).2 := by
  fun_induction nest os level ts with
  | case1 level => rfl
  | case2 level o os ih => exact ih
  | case3 os level p c ts ih => exact ih
  | case4 os level p n ts ih => exact ih
  | case5 level p c ts o os hc ih =>
    rw [List.foldl_cons, ih]
    simp [push, hc]
  | case6 level p c ts o os hc ih =>
    rw [List.foldl_cons, ih]
    simp [push, hc]
  | case7 level p c ts ih => exact ih
  | case8 os level p t ts hopening hfunction hclosing hclosing' ih =>
    have hplain : push (os, level) (p, t) = (os, token p t :: level) := by
      cases t with
      | opening c => exact absurd rfl (hopening c)
      | function n => exact absurd rfl (hfunction n)
      | closing c =>
        cases os with
        | nil => exact absurd rfl (hclosing' c rfl)
        | cons o os => exact absurd rfl (hclosing o os c rfl)
      | _ => rfl
    rw [List.foldl_cons, ih, hplain]

theorem nest_top (ts : List (Place × Token)) : nest [] [] ts = shut (readAll ts).1 (readAll ts).2 :=
  nest_eq [] [] ts

def opener (name : Option Text) (c : Char) : Token :=
  match name with
  | some n => .function n
  | none => .opening c

def bracketed (p : Place) (name : Option Text) (c : Char) (inside : List Value) : Value :=
  match name with
  | some n => function p n inside
  | none => block p c inside

theorem place_bracketed (p : Place) (name : Option Text) (c : Char) (inside : List Value) :
    (bracketed p name c inside).place = p := by
  cases name <;> rfl

def IsAlone (e : Place × Token) (v : Value) : Prop :=
  v = token e.1 e.2 ∨ ∃ c, e.2 = .closing c ∧ v = token e.1 (.flaw (.unmatched c))

theorem IsAlone.place_eq {e : Place × Token} (h : IsAlone e v) : v.place = e.1 := by
  rcases h with rfl | ⟨c, -, rfl⟩ <;> rfl

theorem push_cases (e : Place × Token) :
    (∃ name c, e.2 = opener name c ∧ ∀ os level,
      push (os, level) e = (⟨e.1, name, c, level⟩ :: os, [])) ∨
    (∃ v c, e.2 = .closing c ∧ IsAlone e v ∧ (∀ level, push ([], level) e = ([], v :: level)) ∧
      ∀ o os level, push (o :: os, level) e =
        if c == partnerOf o.bracket then (os, close o level) else (o :: os, v :: level)) ∨
    ∃ v, IsAlone e v ∧ ∀ os level, push (os, level) e = (os, v :: level) := by
  obtain ⟨p, t⟩ := e
  cases t with
  | opening c => exact .inl ⟨none, c, rfl, fun _ _ => rfl⟩
  | function n => exact .inl ⟨some n, '(', rfl, fun _ _ => rfl⟩
  | closing c => exact .inr (.inl ⟨_, c, rfl, .inr ⟨c, rfl, rfl⟩, fun _ => rfl, fun _ _ _ => rfl⟩)
  | _ => exact .inr (.inr ⟨_, .inl rfl, fun _ _ => rfl⟩)

def under (below : List Value) : List Opened → List Value → Levels
  | [], level => ([], level ++ below)
  | [o], level => ([⟨o.place, o.name, o.bracket, o.before ++ below⟩], level)
  | o :: o' :: os, level => (o :: (under below (o' :: os) level).1, level)

section

variable (below : List Value)

theorem snd_under_cons (o : Opened) (os : List Opened) (level : List Value) :
    (under below (o :: os) level).2 = level := by
  cases os <;> rfl

theorem fst_under (os : List Opened) (level level' : List Value) :
    (under below os level).1 = (under below os level').1 := by
  induction os with
  | nil => rfl
  | cons o os ih =>
    cases os with
    | nil => rfl
    | cons o' os => exact congrArg (o :: ·) ih

theorem under_close (o : Opened) (os : List Opened) (level : List Value) :
    ∃ o', (under below (o :: os) level).1 = o' :: (under below os (close o level)).1 ∧
      o'.bracket = o.bracket ∧
      close o' level = (under below os (close o level)).2 := by
  cases os with
  | nil => exact ⟨_, rfl, rfl, rfl⟩
  | cons o' os =>
    exact ⟨o, congrArg (o :: ·) (fst_under _ _ _ _), rfl, (snd_under_cons _ _ _ _).symm⟩

theorem push_under (os : List Opened) (level : List Value) (e : Place × Token) :
    push (under below os level) e = under below (push (os, level) e).1 (push (os, level) e).2 := by
  have hstate : ∀ o os level,
      under below (o :: os) level = ((under below (o :: os) level).1, level) :=
    fun o os level => Prod.ext rfl (snd_under_cons below o os level)
  rcases push_cases e with ⟨name, c, -, h⟩ | ⟨v, c, -, -, hnil, hcons⟩ | ⟨v, -, h⟩
  · cases os with
    | nil => rw [h, under, h]; rfl
    | cons o os => rw [h, hstate, h, hstate, fst_under below (o :: os) level []]; rfl
  · cases os with
    | nil => rw [hnil, under, hnil]; rfl
    | cons o os =>
      obtain ⟨o', hunder, hbracket, hclose⟩ := under_close below o os level
      rw [hcons, hstate, hunder, hcons, hbracket, hclose]
      split
      · rfl
      · rw [hstate, fst_under below (o :: os) _ level, hunder]
  · cases os with
    | nil => rw [h, under, h]; rfl
    | cons o os =>
      rw [h, hstate, h, fst_under below (o :: os) level (v :: level)]
      exact (hstate o os (v :: level)).symm

theorem foldl_push_under (os : List Opened) (level : List Value) (ts : List (Place × Token)) :
    ts.foldl push (under below os level) =
      under below (ts.foldl push (os, level)).1 (ts.foldl push (os, level)).2 := by
  induction ts generalizing os level with
  | nil => rfl
  | cons e ts ih => rw [List.foldl_cons, push_under, ih, List.foldl_cons]

theorem shut_under (os : List Opened) (level : List Value) :
    shut (under below os level).1 (under below os level).2 = below.reverse ++ shut os level := by
  induction os generalizing level with
  | nil => exact List.reverse_append
  | cons o os ih =>
    obtain ⟨o', hunder, -, hclose⟩ := under_close below o os level
    rw [hunder, snd_under_cons, shut, hclose, ih, shut]

theorem nest_below (ts : List (Place × Token)) :
    nest [] below ts = below.reverse ++ nest [] [] ts := by
  have hunder := foldl_push_under below [] [] ts
  rw [under, List.nil_append] at hunder
  rw [nest_eq, hunder, shut_under, nest_eq]

end

theorem nest_append {level : List Value} (h : readAll ts = ([], level)) :
    nest [] [] (ts ++ ts') = nest [] [] ts ++ nest [] [] ts' := by
  have hfirst : nest [] [] ts = level.reverse := by rw [nest_top, h, shut]
  unfold readAll at h
  rw [hfirst, ← nest_below, nest_eq, List.foldl_append, h, nest_eq]

/-- Everything was opened inside one bracket, the first value of its level. -/
def Rooted (root : Opened) (os : List Opened) : Prop := ∃ os', os = os' ++ [root]

theorem Rooted.cons (h : Rooted r os) (o : Opened) : Rooted r (o :: os) := by
  obtain ⟨os', rfl⟩ := h
  exact ⟨o :: os', rfl⟩

theorem Rooted.tail {o : Opened} (h : Rooted r (o :: os)) : Rooted r os ∨ os = [] ∧ o = r := by
  obtain ⟨os', heq⟩ := h
  cases os' with
  | nil =>
    obtain ⟨rfl, rfl⟩ := List.cons.inj heq
    exact .inr ⟨rfl, rfl⟩
  | cons o' os' =>
    obtain ⟨rfl, rfl⟩ := List.cons.inj heq
    exact .inl ⟨os', rfl⟩

theorem Rooted.push (h : Rooted r os) (level : List Value) (e : Place × Token) :
    Rooted r (Value.push (os, level) e).1 ∨
      e.2 = .closing (partnerOf r.bracket) ∧ Value.push (os, level) e = ([], close r level) := by
  rcases push_cases e with ⟨name, c, -, hpush⟩ | ⟨v, c, hclosing, -, hnil, hcons⟩ | ⟨v, -, hpush⟩
  · rw [hpush]
    exact .inl (h.cons _)
  · cases os with
    | nil =>
      obtain ⟨os', heq⟩ := h
      simp at heq
    | cons o os =>
      rw [hcons]
      split
      · next hc =>
        rcases h.tail with hos | ⟨rfl, rfl⟩
        · exact .inl hos
        · exact .inr ⟨by rw [hclosing, eq_of_beq hc], rfl⟩
      · exact .inl h
  · rw [hpush]
    exact .inl h

theorem Rooted.shut (h : Rooted r os) (level : List Value) :
    ∃ level', Value.shut os level = Value.shut [] (close r level') := by
  induction os generalizing level with
  | nil =>
    obtain ⟨os', heq⟩ := h
    simp at heq
  | cons o os ih =>
    rcases h.tail with hos | ⟨rfl, rfl⟩
    · exact ih hos _
    · exact ⟨level, rfl⟩

theorem Rooted.foldl (h : Rooted r os) (level : List Value) (ts : List (Place × Token)) :
    Rooted r (ts.foldl Value.push (os, level)).1 ∨
      ∃ ts₁ q ts₂ level', ts = ts₁ ++ (q, .closing (partnerOf r.bracket)) :: ts₂ ∧
        (ts₁ ++ [(q, .closing (partnerOf r.bracket))]).foldl Value.push (os, level) =
          ([], close r level') := by
  induction ts generalizing os level with
  | nil => exact .inl h
  | cons e ts ih =>
    rcases h.push level e with hos | ⟨hclosing, hpush⟩
    · refine (ih hos (Value.push (os, level) e).2).imp_right ?_
      rintro ⟨ts₁, q, ts₂, level', rfl, hfold⟩
      exact ⟨e :: ts₁, q, ts₂, level', rfl, hfold⟩
    · refine .inr ⟨[], e.1, ts, level, by rw [← hclosing]; rfl, ?_⟩
      rw [← hclosing]
      exact hpush

/-- Tokens that are read as certain values, with nothing left open unless they are the last. -/
structure Spells (ts rest : List (Place × Token)) (vs : List Value) : Prop where
  nest_eq : nest [] [] ts = vs
  closed : rest = [] ∨ readAll ts = ([], vs.reverse)

theorem Spells.nest_append (h : Spells ts rest vs) :
    nest [] [] (ts ++ rest) = vs ++ nest [] [] rest := by
  rcases h.closed with rfl | hclosed
  · rw [List.append_nil, h.nest_eq, nest_top []]
    exact (List.append_nil vs).symm
  · rw [Value.nest_append hclosed, h.nest_eq]

theorem Spells.append (h : Spells ts (ts' ++ rest) vs) (h' : Spells ts' rest ws) :
    Spells (ts ++ ts') rest (vs ++ ws) := by
  rcases h.closed with hnil | hclosed
  · obtain ⟨rfl, rfl⟩ := List.append_eq_nil_iff.mp hnil
    rw [List.append_nil, ← h'.nest_eq, nest_top []]
    exact ⟨h.nest_eq.trans (List.append_nil vs).symm, .inl rfl⟩
  · refine ⟨by rw [Value.nest_append hclosed, h.nest_eq, h'.nest_eq],
      h'.closed.imp_right fun hrest => ?_⟩
    have hunder := foldl_push_under vs.reverse [] [] ts'
    unfold readAll at hclosed hrest ⊢
    rw [under, List.nil_append, hrest, under] at hunder
    rw [List.foldl_append, hclosed, hunder, List.reverse_append]

/-- The tokens of one value: a token alone, or an opening bracket and what follows it up to the
closing one. -/
inductive Chunk (rest : List (Place × Token)) : List (Place × Token) → Value → Prop where
  | alone {e : Place × Token} {v : Value} (h : IsAlone e v) : Chunk rest [e] v
  | bracket (p : Place) (name : Option Text) (c : Char) {ts : List (Place × Token)}
      (inside : List Value)
      (hclosed : rest ≠ [] → ∃ ts' q, ts = ts' ++ [(q, .closing (partnerOf c))]) :
      Chunk rest ((p, opener name c) :: ts) (bracketed p name c inside)

theorem Chunk.place_eq (h : Chunk rest ts v) : ts.head?.map (·.1) = some v.place := by
  cases h with
  | alone h => rw [h.place_eq]; rfl
  | bracket p name c inside hclosed => rw [place_bracketed]; rfl

theorem exists_first (e : Place × Token) (ts : List (Place × Token)) :
    ∃ ts₁ ts₂ v, e :: ts = ts₁ ++ ts₂ ∧ Chunk ts₂ ts₁ v ∧ Spells ts₁ ts₂ [v] := by
  have halone : ∀ {v : Value}, push ([], []) e = ([], [v]) → IsAlone e v →
      ∃ ts₁ ts₂ v, e :: ts = ts₁ ++ ts₂ ∧ Chunk ts₂ ts₁ v ∧ Spells ts₁ ts₂ [v] := by
    intro v hpush hv
    have hread : readAll [e] = ([], [v]) := hpush
    exact ⟨[e], ts, v, rfl, .alone hv, by rw [nest_top, hread]; rfl, .inr hread⟩
  rcases push_cases e with ⟨name, c, hopener, hpush⟩ | ⟨v, c, -, hv, hpush, -⟩ | ⟨v, hv, hpush⟩
  · have hroot : Rooted ⟨e.1, name, c, []⟩ (push ([], []) e).1 := by
      rw [hpush]
      exact ⟨[], rfl⟩
    have he : e = (e.1, opener name c) := Prod.ext rfl hopener
    rcases hroot.foldl (push ([], []) e).2 ts with hopen | ⟨ts₁, q, ts₂, level, rfl, hfold⟩
    · obtain ⟨level, hshut⟩ := hopen.shut (ts.foldl push (push ([], []) e)).2
      refine ⟨e :: ts, [], _, (List.append_nil _).symm, ?_, by rw [nest_top]; exact hshut, .inl rfl⟩
      rw [he]
      exact .bracket e.1 name c _ (by simp)
    · have hread : readAll (e :: (ts₁ ++ [(q, .closing (partnerOf c))])) =
          ([], close ⟨e.1, name, c, []⟩ level) := hfold
      refine ⟨e :: (ts₁ ++ [(q, .closing (partnerOf c))]), ts₂, _, by simp, ?_,
        by rw [nest_top, hread]; rfl, .inr hread⟩
      rw [he]
      exact .bracket e.1 name c _ fun _ => ⟨ts₁, q, rfl⟩
  · exact halone (hpush []) hv
  · exact halone (hpush [] []) hv

theorem nest_eq_nil_iff : nest [] [] ts = [] ↔ ts = [] := by
  constructor
  · intro h
    cases ts with
    | nil => rfl
    | cons e ts =>
      obtain ⟨ts₁, ts₂, v, heq, -, hfirst⟩ := exists_first e ts
      rw [heq, hfirst.nest_append] at h
      contradiction
  · rintro rfl
    exact nest_top []

theorem exists_chunk (h : nest [] [] ts = v :: vs) :
    ∃ ts₁ ts₂, ts = ts₁ ++ ts₂ ∧ Chunk ts₂ ts₁ v ∧ Spells ts₁ ts₂ [v] ∧ nest [] [] ts₂ = vs := by
  cases ts with
  | nil =>
    rw [nest_top] at h
    contradiction
  | cons e ts =>
    obtain ⟨ts₁, ts₂, w, heq, hchunk, hfirst⟩ := exists_first e ts
    rw [heq, hfirst.nest_append] at h
    obtain ⟨rfl, hrest⟩ := List.cons.inj h
    exact ⟨ts₁, ts₂, heq, hchunk, hfirst, hrest⟩

theorem exists_spells (h : nest [] [] ts = vs ++ ws) :
    ∃ ts₁ ts₂, ts = ts₁ ++ ts₂ ∧ Spells ts₁ ts₂ vs ∧ nest [] [] ts₂ = ws := by
  induction vs generalizing ts with
  | nil => exact ⟨[], ts, rfl, ⟨nest_top [], .inr rfl⟩, h⟩
  | cons v vs ih =>
    obtain ⟨ts₁, rest, rfl, -, hfirst, hrest⟩ := exists_chunk h
    obtain ⟨ts₂, ts₃, rfl, hlater, hws⟩ := ih hrest
    exact ⟨ts₁ ++ ts₂, ts₃, by rw [List.append_assoc], hfirst.append hlater, hws⟩

theorem place_head_of_nest {p : Place} {t : Token} (h : nest [] [] ((p, t) :: ts) = v :: vs) :
    v.place = p := by
  obtain ⟨ts₁, ts₂, heq, hchunk, -⟩ := exists_chunk h
  have hplace := hchunk.place_eq
  cases ts₁ with
  | nil => contradiction
  | cons e ts₁ =>
    obtain rfl := (List.cons.inj heq).1
    exact (Option.some.inj hplace).symm

mutual

/-- A value as it would be at the start of a text. -/
def unplaced : Value → Value
  | token _ t => token {} t
  | block _ c inside => block {} c (unplacedAll inside)
  | function _ n inside => function {} n (unplacedAll inside)

def unplacedAll : List Value → List Value
  | [] => []
  | v :: vs => unplaced v :: unplacedAll vs

end

theorem unplacedAll_eq (vs : List Value) : unplacedAll vs = vs.map unplaced := by
  induction vs with
  | nil => rfl
  | cons v vs ih => rw [unplacedAll, ih, List.map_cons]

theorem unplacedAll_append (vs ws : List Value) :
    unplacedAll (vs ++ ws) = unplacedAll vs ++ unplacedAll ws := by
  simp only [unplacedAll_eq, List.map_append]

theorem unplacedAll_reverse (vs : List Value) :
    unplacedAll vs.reverse = (unplacedAll vs).reverse := by
  simp only [unplacedAll_eq, List.map_reverse]

def Opened.unplaced (o : Opened) : Opened := ⟨{}, o.name, o.bracket, unplacedAll o.before⟩

theorem unplacedAll_close (o : Opened) (level : List Value) :
    unplacedAll (close o level) = close o.unplaced (unplacedAll level) := by
  cases hname : o.name <;>
    simp [close, hname, unplacedAll, Value.unplaced, Opened.unplaced, unplacedAll_reverse]

theorem push_unplaced (os : List Opened) (level : List Value) (p : Place) (t : Token) :
    push (os.map Opened.unplaced, unplacedAll level) ({}, t) =
      ((push (os, level) (p, t)).1.map Opened.unplaced,
        unplacedAll (push (os, level) (p, t)).2) := by
  cases t with
  | closing c =>
    cases os with
    | nil => rfl
    | cons o os =>
      have hbracket : o.unplaced.bracket = o.bracket := rfl
      simp only [push, List.map_cons, hbracket]
      split
      · rw [unplacedAll_close]
      · rfl
  | _ => rfl

theorem shut_unplaced (os : List Opened) (level : List Value) :
    shut (os.map Opened.unplaced) (unplacedAll level) = unplacedAll (shut os level) := by
  induction os generalizing level with
  | nil => exact (unplacedAll_reverse level).symm
  | cons o os ih => rw [List.map_cons, shut, ← unplacedAll_close, ih, shut]

theorem foldl_unplaced (ts : List (Place × Token)) (os : List Opened) (level : List Value) :
    (ts.map fun e => (({} : Place), e.2)).foldl push (os.map Opened.unplaced, unplacedAll level) =
      ((ts.foldl push (os, level)).1.map Opened.unplaced,
        unplacedAll (ts.foldl push (os, level)).2) := by
  induction ts generalizing os level with
  | nil => rfl
  | cons e ts ih =>
    rw [List.map_cons, List.foldl_cons, push_unplaced os level e.1, ih, List.foldl_cons]

theorem unplacedAll_nest (ts : List (Place × Token)) :
    unplacedAll (nest [] [] ts) = nest [] [] (ts.map fun e => ({}, e.2)) := by
  have htop := foldl_unplaced ts [] []
  rw [List.map_nil, unplacedAll] at htop
  rw [nest_eq, nest_eq, ← shut_unplaced, htop]

theorem readAll_unplaced (ts : List (Place × Token)) : readAll (ts.map fun e => ({}, e.2)) =
    ((readAll ts).1.map Opened.unplaced, unplacedAll (readAll ts).2) := foldl_unplaced ts [] []

end Graft.Style.Value
