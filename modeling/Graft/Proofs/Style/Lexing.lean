import Graft.Style.Token
import Mathlib.Data.List.TakeWhile

set_option autoImplicit false

/-!
Reading CSS as a list of lexemes: the tokens with the texts they are read from. Every reader leaves
an end of its text, so the lexemes put together are the text again, and the place of a token is
where its lexeme starts.
-/

namespace Graft.Style

theorem ne_of_suffix_tail {u r : Text} (hr : r ≠ []) (h : u <:+ r.tail) : u ≠ r := by
  rintro rfl
  have hlength := h.length_le
  have hpos := List.length_pos_iff.mpr hr
  rw [List.length_tail] at hlength
  omega

theorem drop_suffix_tail {n : Nat} (hn : n ≠ 0) (t : Text) : t.drop n <:+ t.tail :=
  List.drop_one ▸ List.drop_suffix_drop_left t (Nat.one_le_iff_ne_zero.mpr hn)

theorem escape_suffix_tail (t : Text) : (escape t).2 <:+ t.tail := by
  unfold escape
  dsimp only
  split
  · cases t <;> exact List.suffix_refl _
  · next hdigits =>
    have hrest :=
      drop_suffix_tail (mt List.length_eq_zero_iff.mp (mt List.isEmpty_iff.mpr hdigits)) t
    split
    · exact (List.drop_suffix _ _).trans hrest
    · exact hrest

theorem escape_suffix (t : Text) : (escape t).2 <:+ t :=
  (escape_suffix_tail t).trans (List.tail_suffix t)

theorem nameFrom_suffix (bound : Nat) (t : Text) : (nameFrom bound t).2 <:+ t := by
  induction bound generalizing t with
  | zero => exact List.suffix_refl t
  | succ bound ih =>
    cases t with
    | nil => exact List.suffix_refl []
    | cons c cs =>
      simp only [nameFrom]
      split
      · exact (ih cs).trans (List.suffix_cons c cs)
      · split
        · exact (ih _).trans ((escape_suffix cs).trans (List.suffix_cons c cs))
        · exact List.suffix_refl _

/-- What a character of a string comes to, with `next` for the rest. -/
def stringStep (quote c : Char) (t : Text) (next : Text → Text × Ending × Text) :
    Text × Ending × Text :=
  if c == quote then ([], .closed, t)
  else if c == '\n' then ([], .bad, c :: t)
  else if c == '\\' then
    if t.isEmpty then ([], .cut, [])
    else if t.head?.any (· == '\n') then next (t.drop 1)
    else ((escape t).1 :: (next (escape t).2).1, (next (escape t).2).2)
  else (c :: (next t).1, (next t).2)

theorem stringFrom_cons (quote c : Char) (bound : Nat) (t : Text) :
    stringFrom quote (bound + 1) (c :: t) = stringStep quote c t (stringFrom quote bound) := by
  cases t with
  | nil => rfl
  | cons d t =>
    by_cases hd : d = '\n'
    · subst hd
      rfl
    · simp [stringFrom, stringStep, hd]

theorem stringStep_suffix {quote c : Char} {next : Text → Text × Ending × Text}
    (hnext : ∀ u, (next u).2.2 <:+ u) (hc : ¬c == quote → ¬c == '\n') (t : Text) :
    (stringStep quote c t next).2.2 <:+ t := by
  unfold stringStep
  split
  · exact List.suffix_refl t
  · next hquote =>
    rw [if_neg (hc hquote)]
    split
    · split
      · exact List.nil_suffix
      · split
        · exact (hnext _).trans (List.drop_suffix 1 t)
        · exact (hnext _).trans (escape_suffix t)
    · exact hnext t

theorem stringStep_feed {quote c : Char} (hc : ¬(¬c == quote → ¬c == '\n')) (t : Text)
    (next : Text → Text × Ending × Text) : stringStep quote c t next = ([], .bad, c :: t) := by
  obtain ⟨hquote, hfeed⟩ : ¬c == quote ∧ c == '\n' := by simpa using hc
  rw [stringStep, if_neg hquote, if_pos hfeed]

theorem stringFrom_suffix (quote : Char) (bound : Nat) (t : Text) :
    (stringFrom quote bound t).2.2 <:+ t := by
  induction bound generalizing t with
  | zero => exact List.suffix_refl t
  | succ bound ih =>
    cases t with
    | nil => exact List.suffix_refl []
    | cons c t =>
      rw [stringFrom_cons]
      by_cases hc : ¬c == quote → ¬c == '\n'
      · exact (stringStep_suffix ih hc t).trans (List.suffix_cons c t)
      · simp only [stringStep_feed hc, List.suffix_refl]

/-- What a character of an address comes to, with `next` for the rest. -/
def urlStep (c : Char) (t : Text) (next : Text → Text × Ending × Text) : Text × Ending × Text :=
  if c == ')' then ([], .closed, t)
  else if isSpace c then
    if (t.dropWhile isSpace).isEmpty then ([], .cut, [])
    else if (t.dropWhile isSpace).head?.any (· == ')') then
      ([], .closed, (t.dropWhile isSpace).drop 1)
    else ([], .bad, t.dropWhile isSpace)
  else if startsEscape (c :: t) then ((escape t).1 :: (next (escape t).2).1, (next (escape t).2).2)
  else if c == '"' || c == '\'' || c == '(' || isUnprintable c then ([], .bad, t)
  else (c :: (next t).1, (next t).2)

theorem urlFrom_cons (c : Char) (bound : Nat) (t : Text) :
    urlFrom (bound + 1) (c :: t) = urlStep c t (urlFrom bound) := by
  simp only [urlFrom, urlStep]
  split
  · rfl
  · split
    · cases t.dropWhile isSpace with
      | nil => rfl
      | cons d u =>
        by_cases hd : d = ')'
        · subst hd
          rfl
        · simp [hd]
    · rfl

theorem urlStep_suffix {next : Text → Text × Ending × Text}
    (hnext : ∀ u, (next u).2.2 <:+ u) (c : Char) (t : Text) : (urlStep c t next).2.2 <:+ t := by
  unfold urlStep
  split
  · exact List.suffix_refl t
  · split
    · split
      · exact List.nil_suffix
      · split
        · exact (List.drop_suffix 1 _).trans (List.dropWhile_suffix isSpace)
        · exact List.dropWhile_suffix isSpace
    · split
      · exact (hnext _).trans (escape_suffix t)
      · split
        · exact List.suffix_refl t
        · exact hnext t

theorem urlFrom_suffix (bound : Nat) (t : Text) : (urlFrom bound t).2.2 <:+ t := by
  induction bound generalizing t with
  | zero => exact List.suffix_refl t
  | succ bound ih =>
    cases t with
    | nil => exact List.suffix_refl []
    | cons c t =>
      rw [urlFrom_cons]
      exact (urlStep_suffix ih c t).trans (List.suffix_cons c t)

theorem afterBadUrl_suffix_tail (t : Text) : afterBadUrl t <:+ t.tail := by
  fun_induction afterBadUrl t with
  | case1 => exact List.suffix_refl []
  | case2 cs ih => exact ih.trans ((List.tail_suffix cs).trans (List.suffix_cons _ _))
  | case3 cs => exact List.suffix_refl cs
  | case4 c cs _ _ ih => exact ih.trans (List.tail_suffix cs)

theorem afterBadUrl_suffix (t : Text) : afterBadUrl t <:+ t :=
  (afterBadUrl_suffix_tail t).trans (List.tail_suffix t)

theorem commentFrom_suffix_tail (t : Text) : (commentFrom t).2 <:+ t.tail := by
  fun_induction commentFrom t with
  | case1 => exact List.suffix_refl []
  | case2 cs => exact List.suffix_cons _ _
  | case3 c cs _ t rest heq ih => exact (heq ▸ ih).trans (List.tail_suffix cs)

theorem commentFrom_suffix (t : Text) : (commentFrom t).2 <:+ t :=
  (commentFrom_suffix_tail t).trans (List.tail_suffix t)

theorem stringTokens_suffix (quote : Char) (t : Text) : (stringTokens quote t).2 <:+ t := by
  have h := stringFrom_suffix quote t.length t
  simp only [stringTokens]
  split <;> exact h

theorem urlTokens_suffix (t : Text) : (urlTokens t).2 <:+ t := by
  have h := (urlFrom_suffix (t.dropWhile isSpace).length (t.dropWhile isSpace)).trans
    (List.dropWhile_suffix isSpace)
  simp only [urlTokens]
  split
  · exact h
  · exact h
  · exact (afterBadUrl_suffix _).trans h

theorem numberTokens_suffix (shown rest : Text) : (numberTokens shown rest).2 <:+ rest := by
  unfold numberTokens
  split
  · exact nameFrom_suffix _ _
  · split
    · exact List.drop_suffix _ _
    · exact List.suffix_refl _

theorem rangeTokens_suffix (t : Text) : (rangeTokens t).2 <:+ t := by
  simp only [rangeTokens]
  split
  · exact List.drop_suffix _ _
  · split
    · next c cs heq =>
      have hrest : '-' :: c :: cs <:+ t := heq ▸ List.drop_suffix _ t
      split
      · exact (List.drop_suffix _ _).trans ((List.suffix_cons _ _).trans hrest)
      · rw [heq]
        exact hrest
    · exact List.drop_suffix _ _

theorem signTokens_suffix (c : Char) (cs : Text) : (signTokens c cs).2 <:+ cs := by
  simp only [signTokens]
  repeat' split
  all_goals first
    | exact List.suffix_refl _
    | exact List.drop_suffix _ _
    | exact nameFrom_suffix _ _
    | exact stringTokens_suffix _ _
    | exact (commentFrom_suffix _).trans (List.drop_suffix _ _)

theorem name_suffix {c : Char} {cs : Text} (h : startsName (c :: cs)) :
    (name (c :: cs)).2 <:+ cs := by
  simp only [name, List.length_cons, nameFrom]
  split
  · exact nameFrom_suffix _ _
  · split
    · exact (nameFrom_suffix _ _).trans (escape_suffix cs)
    · next hname hescape =>
      refine absurd h ?_
      by_cases hc : c = '-'
      · subst hc
        exact absurd rfl hname
      · have hstart : isNameStart c = false := by
          cases hs : isNameStart c with
          | false => rfl
          | true => simp [isNameChar, hs] at hname
        simpa [startsName, hc, hstart] using hescape

theorem nameTokens_suffix {c : Char} {cs : Text} (h : startsName (c :: cs)) :
    (nameTokens (c :: cs)).2 <:+ cs := by
  have hname := name_suffix h
  unfold nameTokens
  split
  · next n rest heq =>
    rw [heq] at hname
    have hrest := (List.suffix_cons '(' rest).trans hname
    dsimp only
    split
    · exact (urlTokens_suffix rest).trans hrest
    · exact hrest
  · next heq =>
    rw [heq] at hname
    exact hname

def fraction : Text → Text
  | '.' :: ds => if (digits ds).isEmpty then [] else '.' :: digits ds
  | _ => []

def afterWhole (t : Text) : Text :=
  t.drop ((sign t).length + (digits (t.drop (sign t).length)).length)

theorem number?_eq (t : Text) : number? t =
    if (digits (t.drop (sign t).length)).isEmpty && (fraction (afterWhole t)).isEmpty then none
    else some (sign t ++ digits (t.drop (sign t).length) ++ fraction (afterWhole t) ++
      exponent ((afterWhole t).drop (fraction (afterWhole t)).length)) := rfl

theorem number?_ne_nil {t shown : Text} (h : number? t = some shown) : shown ≠ [] := by
  rw [number?_eq] at h
  split at h
  · contradiction
  · next hsome =>
    rintro rfl
    have hnil := Option.some.inj h
    simp only [List.append_eq_nil_iff] at hnil
    exact hsome (by simp [hnil.1.1.2, hnil.1.2])

theorem front_suffix (c : Char) (cs : Text) : (front c cs).2 <:+ cs := by
  simp only [front]
  split
  · next hspace =>
    rw [List.dropWhile_cons_of_pos hspace]
    exact List.dropWhile_suffix _
  · split
    · exact (rangeTokens_suffix _).trans (List.drop_suffix _ _)
    · split
      · exact List.drop_suffix _ _
      · split
        · next hname => exact nameTokens_suffix hname
        · split
          · next shown hshown =>
            obtain ⟨d, ds, rfl⟩ := List.exists_cons_of_ne_nil (number?_ne_nil hshown)
            exact (numberTokens_suffix _ _).trans (List.drop_suffix ds.length cs)
          · exact signTokens_suffix c cs

theorem front_space {c : Char} (hc : isSpace c) (s : Text) :
    front c s = ([.blank ((c :: s).takeWhile isSpace)], (c :: s).dropWhile isSpace) := by
  unfold front
  dsimp only
  rw [if_pos hc]

/-- A text and the tokens it is read as: one, or a cut one with its flaw. -/
structure Lexeme where
  text : Text
  tokens : List Token
  deriving DecidableEq, Repr

def Lexeme.textOf (ls : List Lexeme) : Text := ls.flatMap (·.text)

def Lexeme.tokensOf (ls : List Lexeme) : List Token := ls.flatMap (·.tokens)

open Lexeme

/-- The lexemes of a text that is read from its front on. -/
def lexemes (t : Text) : List Lexeme :=
  match t with
  | [] => []
  | c :: cs =>
    have := (front_suffix c cs).length_le
    ⟨(c :: cs).take ((c :: cs).length - (front c cs).2.length), (front c cs).1⟩ ::
      lexemes (front c cs).2
termination_by t.length
decreasing_by simp only [List.length_cons]; omega

theorem take_front (c : Char) (w r : Text) :
    (c :: (w ++ r)).take ((c :: (w ++ r)).length - r.length) = c :: w := by
  rw [← List.cons_append, List.length_append, Nat.add_sub_cancel, List.take_left]

theorem lexemes_nil : lexemes [] = [] := by rw [lexemes]

theorem lexemes_cons {c : Char} {w r : Text} {ts : List Token} (h : front c (w ++ r) = (ts, r)) :
    lexemes (c :: (w ++ r)) = ⟨c :: w, ts⟩ :: lexemes r := by
  rw [lexemes, h, take_front]

theorem exists_front (c : Char) (cs : Text) :
    ∃ w r ts, cs = w ++ r ∧ front c (w ++ r) = (ts, r) := by
  obtain ⟨w, hw⟩ := front_suffix c cs
  exact ⟨w, (front c cs).2, (front c cs).1, hw.symm, by rw [hw]⟩

theorem lexemes_induction {motive : Text → Prop} (nil : motive [])
    (cons : ∀ (c : Char) (w r : Text) (ts : List Token), front c (w ++ r) = (ts, r) → motive r →
      motive (c :: (w ++ r))) (t : Text) : motive t := by
  induction hn : t.length using Nat.strongRecOn generalizing t with
  | ind n ih =>
    cases t with
    | nil => exact nil
    | cons c cs =>
      obtain ⟨w, r, ts, rfl, hfront⟩ := exists_front c cs
      refine cons c w r ts hfront (ih r.length ?_ r rfl)
      simp only [← hn, List.length_cons, List.length_append]
      omega

theorem textOf_lexemes (t : Text) : textOf (lexemes t) = t := by
  induction t using lexemes_induction with
  | nil =>
    rw [lexemes_nil]
    rfl
  | cons c w r ts h ih =>
    rw [lexemes_cons h, textOf, List.flatMap_cons]
    exact congrArg (c :: w ++ ·) ih

theorem text_ne_nil {t : Text} {l : Lexeme} (h : l ∈ lexemes t) : l.text ≠ [] := by
  induction t using lexemes_induction with
  | nil =>
    rw [lexemes_nil] at h
    contradiction
  | cons c w r ts hfront ih =>
    rw [lexemes_cons hfront] at h
    rcases List.mem_cons.mp h with rfl | h
    · exact List.cons_ne_nil c w
    · exact ih h

theorem Place.after_append (p : Place) (t u : Text) : p.after (t ++ u) = (p.after t).after u :=
  List.foldl_append

/-- Tokens at the places where their lexemes start. -/
def placed (p : Place) : List Lexeme → List (Place × Token)
  | [] => []
  | l :: ls => l.tokens.map (p, ·) ++ placed (p.after l.text) ls

theorem tokensFrom_eq (p : Place) (t : Text) : tokensFrom p t = placed p (lexemes t) := by
  induction t using lexemes_induction generalizing p with
  | nil =>
    rw [tokensFrom, lexemes_nil]
    rfl
  | cons c w r ts h ih =>
    have hlength : r.length < (c :: (w ++ r)).length := by
      simp only [List.length_cons, List.length_append]
      omega
    rw [tokensFrom, h, lexemes_cons h]
    simp only [if_pos hlength, take_front, ih, placed]

theorem map_snd_placed (p : Place) (ls : List Lexeme) : (placed p ls).map (·.2) = tokensOf ls := by
  induction ls generalizing p with
  | nil => rfl
  | cons l ls ih =>
    rw [placed, List.map_append, ih, List.map_map]
    exact congrArg (· ++ tokensOf ls) (List.map_id l.tokens)

end Graft.Style
