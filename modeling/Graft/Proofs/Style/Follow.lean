import Graft.Proofs.Style.Ahead

set_option autoImplicit false

/-!
What a token needs to know of what follows it. A lexeme stays the same when something else follows
it, as long as that agrees up to a mark with what stood there.
-/

namespace Graft.Style

variable {p : Char → Bool}
variable {bound : Nat} {c quote : Char} {r rest s t v w x y : Text} {e : Ending} {ts : List Token}
  {ls : List Lexeme}

/-- The inside of a string, how it ends, and what follows it. -/
def stringIn (quote : Char) (t : Text) : Text × Ending × Text := stringFrom quote t.length t

theorem stringStep_congr (quote c : Char) {f g : Text → Text × Ending × Text} {t : Text}
    (h : ∀ u : Text, u.length ≤ t.length → f u = g u) :
    stringStep quote c t f = stringStep quote c t g := by
  rw [stringStep, stringStep, h t (Nat.le_refl _), h (escape t).2 (escape_suffix t).length_le,
    h (t.drop 1) (List.drop_suffix 1 t).length_le]

theorem stringFrom_eq (quote : Char) {bound : Nat} (t : Text) (h : t.length ≤ bound) :
    stringFrom quote bound t = stringIn quote t := by
  refine eq_of_length_le (fun bound => by cases bound <;> rfl)
    (fun bound bound' c t hstep => ?_) t h
  rw [stringFrom_cons, stringFrom_cons, stringStep_congr quote c hstep]

theorem stringIn_cons (quote c : Char) (t : Text) :
    stringIn quote (c :: t) = stringStep quote c t (stringIn quote) :=
  (stringFrom_cons quote c t.length t).trans (stringStep_congr quote c fun u hu =>
    stringFrom_eq quote u hu)

theorem stringIn_suffix (quote : Char) (t : Text) : (stringIn quote t).2.2 <:+ t :=
  stringFrom_suffix quote _ t

theorem stringIn_cons_suffix (h : ¬c == quote → ¬c == '\n') (t : Text) :
    (stringIn quote (c :: t)).2.2 <:+ t := by
  rw [stringIn_cons]
  exact stringStep_suffix (stringIn_suffix quote) h t

theorem stringIn_ne (hr : r ≠ []) (hblank : startsBlank r = false) :
    (stringIn quote r).2 ≠ (e, r) := by
  intro h
  obtain ⟨c, r, rfl⟩ := List.exists_cons_of_ne_nil hr
  have hfeed : ¬c == '\n' := by
    intro hc
    rw [eq_of_beq hc] at hblank
    contradiction
  exact ne_of_suffix_tail hr (stringIn_cons_suffix (fun _ => hfeed) r) (congrArg Prod.snd h)

theorem string_transfer (h : (stringIn quote (w ++ r)).2 = (e, r)) (hr : r ≠ []) (hj : Joint w r s)
    (hbad : e = .bad → r.head? = s.head?) :
    stringIn quote (w ++ s) = ((stringIn quote (w ++ r)).1, e, s) := by
  induction hlength : w.length using Nat.strongRecOn generalizing w with
  | ind k ih =>
    subst hlength
    cases w with
    | nil =>
      obtain ⟨c, r, rfl⟩ := List.exists_cons_of_ne_nil hr
      rw [List.nil_append] at h
      by_cases hbreak : ¬c == quote → ¬c == '\n'
      · exact absurd (congrArg Prod.snd h) (ne_of_suffix_tail hr (stringIn_cons_suffix hbreak r))
      · have hstep : ∀ t, stringIn quote (c :: t) = ([], .bad, c :: t) := fun t =>
          (stringIn_cons quote c t).trans (stringStep_feed hbreak t _)
        rw [hstep] at h
        obtain rfl := (Prod.mk.inj h).1
        obtain ⟨s, rfl⟩ := List.head?_eq_some_iff.mp (hbad rfl).symm
        rw [List.nil_append, List.nil_append, hstep, hstep]
    | cons c w =>
      rw [List.cons_append, stringIn_cons, stringStep] at h
      rw [List.cons_append, List.cons_append, stringIn_cons, stringIn_cons, stringStep, stringStep]
      by_cases hquote : c == quote
      · simp only [if_pos hquote] at h ⊢
        obtain ⟨rfl, hw⟩ := Prod.mk.inj h
        rw [List.append_left_eq_self.mp hw, List.nil_append]
      by_cases hfeed : c == '\n'
      · simp only [if_neg hquote, if_pos hfeed] at h
        exact absurd (List.append_left_eq_self.mp (Prod.mk.inj h).2) (List.cons_ne_nil c w)
      by_cases hback : c == '\\'
      · simp only [if_neg hquote, if_neg hfeed, if_pos hback] at h ⊢
        cases w with
        | nil =>
          rw [List.nil_append, if_neg (mt List.isEmpty_iff.mp hr)] at h
          split at h
          · rw [List.drop_one] at h
            exact absurd (congrArg Prod.snd h) (ne_of_suffix_tail hr (stringIn_suffix quote _))
          · exact absurd (congrArg Prod.snd h)
              (ne_of_suffix_tail hr ((stringIn_suffix quote _).trans (escape_suffix_tail r)))
        | cons d w =>
          have hlength : w.length < (c :: d :: w).length := by simp only [List.length_cons]; omega
          simp only [List.cons_append, List.isEmpty_cons, Bool.false_eq_true, if_false,
            List.head?_cons, Option.any_some, List.drop_one, List.tail_cons] at h ⊢
          by_cases hd : d == '\n'
          · simp only [if_pos hd] at h ⊢
            exact ih w.length hlength h hj.of_cons.of_cons rfl
          · simp only [if_neg hd] at h ⊢
            have hsuffix := stringIn_suffix quote (escape (d :: (w ++ r))).2
            rw [h] at hsuffix
            obtain ⟨x, y, hle, hjx, heq, heq'⟩ :=
              exists_escape_eq (w := d :: w) hsuffix hr hj.of_cons
            rw [List.cons_append] at heq heq'
            rw [heq] at h ⊢
            rcases heq' with heq' | ⟨rfl, -, hblank, -⟩
            · rw [heq', ih y.length (Nat.lt_succ_of_le hle) h hjx rfl]
            · exact absurd h (stringIn_ne hr hblank)
      · simp only [if_neg hquote, if_neg hfeed, if_neg hback] at h ⊢
        rw [ih w.length (Nat.lt_succ_self _) h hj.of_cons rfl]

theorem commentFrom_cons (c : Char) (t : Text) : commentFrom (c :: t) =
    if c == '*' && t.head?.any (· == '/') then ([], t.drop 1)
      else (c :: (commentFrom t).1, (commentFrom t).2) := by
  by_cases hc : c = '*'
  · subst hc
    cases t with
    | nil => rfl
    | cons d t =>
      by_cases hd : d = '/'
      · subst hd
        rfl
      · simp [commentFrom, hd]
  · simp [commentFrom, hc]

theorem comment_transfer (h : (commentFrom (w ++ r)).2 = r) (hr : r ≠ []) (s : Text) :
    commentFrom (w ++ s) = ((commentFrom (w ++ r)).1, s) := by
  have htakes : (commentFrom r).2 ≠ r := ne_of_suffix_tail hr (commentFrom_suffix_tail r)
  induction w with
  | nil => exact absurd h htakes
  | cons c w ih =>
    rw [List.cons_append, commentFrom_cons] at h
    rw [List.cons_append, List.cons_append, commentFrom_cons, commentFrom_cons]
    cases w with
    | nil =>
      rw [List.nil_append] at h
      split at h
      · exact absurd h (ne_of_suffix_tail hr (drop_suffix_tail Nat.one_ne_zero r))
      · exact absurd h htakes
    | cons d w =>
      simp only [List.cons_append, List.head?_cons, Option.any_some, List.drop_one,
        List.tail_cons] at h ih ⊢
      by_cases hends : c == '*' && d == '/'
      · simp only [if_pos hends] at h ⊢
        rw [List.append_left_eq_self.mp h, List.nil_append]
      · simp only [if_neg hends] at h ⊢
        rw [ih h]

/-- The inside of an address, how it ends, and what follows it. -/
def urlIn (t : Text) : Text × Ending × Text := urlFrom t.length t

theorem urlStep_congr (c : Char) {f g : Text → Text × Ending × Text} {t : Text}
    (h : ∀ u : Text, u.length ≤ t.length → f u = g u) : urlStep c t f = urlStep c t g := by
  rw [urlStep, urlStep, h t (Nat.le_refl _), h (escape t).2 (escape_suffix t).length_le]

theorem urlFrom_eq {bound : Nat} (t : Text) (h : t.length ≤ bound) : urlFrom bound t = urlIn t := by
  refine eq_of_length_le (fun bound => by cases bound <;> rfl)
    (fun bound bound' c t hstep => ?_) t h
  rw [urlFrom_cons, urlFrom_cons, urlStep_congr c hstep]

theorem urlIn_cons (c : Char) (t : Text) : urlIn (c :: t) = urlStep c t urlIn :=
  (urlFrom_cons c t.length t).trans (urlStep_congr c fun u hu => urlFrom_eq u hu)

theorem urlIn_suffix (t : Text) : (urlIn t).2.2 <:+ t := urlFrom_suffix _ t

theorem urlIn_suffix_tail (t : Text) : (urlIn t).2.2 <:+ t.tail := by
  cases t with
  | nil => exact List.suffix_refl []
  | cons c t =>
    rw [urlIn_cons]
    exact urlStep_suffix urlIn_suffix c t

theorem eq_nil_of_cut (h : (urlIn t).2 = (.cut, r)) : r = [] := by
  induction hlength : t.length using Nat.strongRecOn generalizing t with
  | ind k ih =>
    subst hlength
    cases t with
    | nil => exact (Prod.mk.inj h).2.symm
    | cons c t =>
      rw [urlIn_cons, urlStep] at h
      split at h
      · simp at h
      · split at h
        · split at h
          · exact (Prod.mk.inj h).2.symm
          · split at h <;> simp at h
        · split at h
          · exact ih _ (Nat.lt_succ_of_le (escape_suffix t).length_le) h rfl
          · split at h
            · simp at h
            · exact ih _ (Nat.lt_succ_self _) h rfl

theorem exists_dropWhile_eq (h : (w ++ x).dropWhile p = y ++ x) :
    ∃ v, w = v ++ y ∧ ∀ c ∈ v, p c := by
  have hsplit := List.takeWhile_append_dropWhile (p := p) (l := w ++ x)
  rw [h, ← List.append_assoc] at hsplit
  exact ⟨_, (List.append_cancel_right hsplit).symm, fun c hc => List.mem_takeWhile_imp hc⟩

section

variable (he : e ≠ .cut) (hbad : e = .bad → x.head? = y.head? ∧ x ≠ [])

include he hbad

theorem urlStep_transfer_of_space {f : Text → Text × Ending × Text} (hclose : ¬c == ')')
    (hspace : isSpace c) (h : (urlStep c (w ++ x) f).2 = (e, x)) :
    urlStep c (w ++ y) f = ((urlStep c (w ++ x) f).1, e, y) := by
  simp only [urlStep, if_neg hclose, if_pos hspace] at h ⊢
  by_cases hcut : ((w ++ x).dropWhile isSpace).isEmpty
  · rw [if_pos hcut] at h
    exact absurd (Prod.mk.inj h).1.symm he
  by_cases hend : ((w ++ x).dropWhile isSpace).head?.any (· == ')')
  · simp only [if_neg hcut, if_pos hend] at h ⊢
    obtain ⟨rfl, hrest⟩ := Prod.mk.inj h
    obtain ⟨d, u, hu⟩ := List.exists_cons_of_ne_nil (mt List.isEmpty_iff.mpr hcut)
    rw [hu] at hrest hend
    obtain rfl : u = x := hrest
    obtain ⟨v, rfl, hv⟩ := exists_dropWhile_eq (y := [d]) hu
    obtain rfl : d = ')' := by simpa using hend
    have hy : (v ++ [')'] ++ y).dropWhile isSpace = ')' :: y := by
      rw [List.append_assoc]
      exact dropWhile_append_of_head hv rfl
    rw [hy]
    rfl
  · simp only [if_neg hcut, if_neg hend] at h ⊢
    obtain ⟨rfl, hrest⟩ := Prod.mk.inj h
    obtain ⟨hhead, hx⟩ := hbad rfl
    obtain ⟨v, hw, hv⟩ := exists_dropWhile_eq (y := []) hrest
    rw [List.append_nil] at hw
    subst hw
    have hy : (w ++ y).dropWhile isSpace = y := by
      refine dropWhile_append_of_head hv ?_
      rw [← hhead, ← hrest]
      exact any_head_dropWhile _
    have hyne : y.isEmpty = false := by
      cases y with
      | nil => exact absurd (List.head?_eq_none_iff.mp hhead) hx
      | cons d y => rfl
    rw [hrest, hhead] at hend
    rw [hy, hyne, if_neg hend]
    rfl

theorem url_transfer (h : (urlIn (w ++ x)).2 = (e, x)) :
    urlIn (w ++ y) = ((urlIn (w ++ x)).1, e, y) := by
  have htakes : (urlIn x).2 ≠ (e, x) := by
    intro hu
    by_cases hx : x = []
    · subst hx
      exact he (Prod.mk.inj hu).1.symm
    · exact ne_of_suffix_tail hx (urlIn_suffix_tail x) (congrArg Prod.snd hu)
  induction hlength : w.length using Nat.strongRecOn generalizing w with
  | ind k ih =>
    subst hlength
    cases w with
    | nil => exact absurd h htakes
    | cons c w =>
      rw [List.cons_append, urlIn_cons] at h
      rw [List.cons_append, List.cons_append, urlIn_cons, urlIn_cons]
      by_cases hclose : c == ')'
      · simp only [urlStep, if_pos hclose] at h ⊢
        obtain ⟨rfl, hw⟩ := Prod.mk.inj h
        rw [List.append_left_eq_self.mp hw, List.nil_append]
      by_cases hspace : isSpace c
      · exact urlStep_transfer_of_space he hbad hclose hspace h
      by_cases hescape : startsEscape (c :: (w ++ x))
      · simp only [urlStep, if_neg hclose, if_neg hspace, if_pos hescape] at h ⊢
        have hsuffix := urlIn_suffix (escape (w ++ x)).2
        rw [h] at hsuffix
        obtain ⟨v, z, rfl, hz⟩ := exists_split (escape_suffix (w ++ x)) hsuffix
        have hescaped : escape (v ++ z ++ x) = ((escape (v ++ z ++ x)).1, z ++ x) := Prod.ext rfl hz
        rw [hz] at h ⊢
        have hne : z ≠ [] := by
          rintro rfl
          exact htakes h
        rw [startsEscape_append_eq (List.append_ne_nil_of_right_ne_nil v hne) c x y] at hescape
        rw [List.append_assoc] at hescaped
        have hchar := escape_transfer hescaped (.of_head (head?_append_eq hne x y))
        rw [← List.append_assoc, ← List.append_assoc] at hchar
        rw [if_pos hescape, hchar,
          ih z.length (by simp only [List.length_cons, List.length_append]; omega) h rfl]
      by_cases hbreak : c == '"' || c == '\'' || c == '(' || isUnprintable c
      · simp only [urlStep, if_neg hclose, if_neg hspace, if_neg hescape, if_pos hbreak] at h ⊢
        obtain ⟨rfl, hw⟩ := Prod.mk.inj h
        obtain rfl : w = [] := List.append_left_eq_self.mp hw
        have hback : (c == '\\') = false := by
          cases hc : c == '\\' with
          | false => rfl
          | true =>
            rw [eq_of_beq hc] at hbreak
            exact absurd hbreak (by decide)
        rw [startsEscape_cons, hback]
        rfl
      · simp only [urlStep, if_neg hclose, if_neg hspace, if_neg hescape, if_neg hbreak] at h ⊢
        have hne : w ≠ [] := by
          rintro rfl
          exact htakes h
        rw [startsEscape_append_eq hne c x y] at hescape
        rw [if_neg hescape, ih w.length (Nat.lt_succ_self _) h rfl]

end

theorem afterBadUrl_cons (c : Char) (t : Text) : afterBadUrl (c :: t) =
    if c == '\\' && t.head?.any (· == ')') then afterBadUrl (t.drop 1) else if c == ')' then t
      else afterBadUrl t := by
  by_cases hc : c = '\\'
  · subst hc
    cases t with
    | nil => rfl
    | cons d t =>
      by_cases hd : d = ')'
      · subst hd
        rfl
      · simp [afterBadUrl, hd]
  · by_cases hc' : c = ')'
    · subst hc'
      rfl
    · simp [afterBadUrl, hc, hc']

theorem afterBadUrl_transfer (h : afterBadUrl (v ++ r) = r) (hr : r ≠ []) (s : Text) :
    afterBadUrl (v ++ s) = s := by
  have htakes : afterBadUrl r ≠ r := ne_of_suffix_tail hr (afterBadUrl_suffix_tail r)
  induction hlength : v.length using Nat.strongRecOn generalizing v with
  | ind k ih =>
    subst hlength
    cases v with
    | nil => exact absurd h htakes
    | cons c v =>
      rw [List.cons_append, afterBadUrl_cons] at h ⊢
      cases v with
      | nil =>
        rw [List.nil_append] at h ⊢
        split at h
        · rw [List.drop_one] at h
          exact absurd h (ne_of_suffix_tail hr (afterBadUrl_suffix _))
        · split at h
          · next hclose =>
            obtain rfl := eq_of_beq hclose
            rfl
          · exact absurd h htakes
      | cons d v =>
        have hlength : v.length < (c :: d :: v).length := by simp only [List.length_cons]; omega
        simp only [List.cons_append, List.head?_cons, Option.any_some, List.drop_one,
          List.tail_cons] at h ⊢
        by_cases hskip : c == '\\' && d == ')'
        · rw [if_pos hskip] at h ⊢
          exact ih v.length hlength h rfl
        · rw [if_neg hskip] at h ⊢
          by_cases hclose : c == ')'
          · rw [if_pos hclose] at h
            exact absurd (List.append_left_eq_self.mp h) (List.cons_ne_nil d v)
          · rw [if_neg hclose] at h ⊢
            exact ih (d :: v).length (Nat.lt_succ_self _) h rfl

def urlEnd (inside : Text) : Ending → Text → List Token × Text
  | .closed, rest => ([.url ("url(".toList ++ Text.expand writeUrlChar inside ++ [')'])], rest)
  | .cut, rest => ([.url ("url(".toList ++ Text.expand writeUrlChar inside), .flaw .openUrl], rest)
  | .bad, rest => ([.flaw .badUrl], afterBadUrl rest)

theorem urlTokens_eq (t : Text) : urlTokens t =
    urlEnd (urlIn (t.dropWhile isSpace)).1 (urlIn (t.dropWhile isSpace)).2.1
      (urlIn (t.dropWhile isSpace)).2.2 := by
  unfold urlTokens urlIn
  dsimp only
  rcases urlFrom (t.dropWhile isSpace).length (t.dropWhile isSpace) with ⟨inside, _ | _ | _,
    rest⟩ <;> rfl

theorem urlTokens_transfer (h : urlTokens (w ++ r) = (ts, r)) (hr : r ≠ []) (s : Text) :
    urlTokens (w ++ s) = (ts, s) := by
  have hrest := urlIn_suffix ((w ++ r).dropWhile isSpace)
  rw [urlTokens_eq] at h ⊢
  rcases heq : (urlIn ((w ++ r).dropWhile isSpace)).2 with ⟨e, rest⟩
  rw [heq] at h hrest
  have hend : r <:+ rest := by
    cases e with
    | closed => exact (Prod.mk.inj h).2 ▸ List.suffix_refl _
    | cut => exact (Prod.mk.inj h).2 ▸ List.suffix_refl _
    | bad => exact (Prod.mk.inj h).2 ▸ afterBadUrl_suffix _
  obtain ⟨v, x, rfl, hx⟩ := exists_split (List.dropWhile_suffix isSpace) (hend.trans hrest)
  obtain ⟨y, z, rfl, rfl⟩ := exists_split (hx ▸ hrest) hend
  -- the address ends behind its blanks: something of it is left of `r`
  have hne : y ++ z ≠ [] := by
    intro hnil
    have hsuffix := urlIn_suffix_tail r
    rw [hx, hnil, List.nil_append] at heq
    rw [heq] at hsuffix
    exact ne_of_suffix_tail hr (hend.trans hsuffix) rfl
  have hblank : ∀ u : Text, (v ++ (y ++ z) ++ u).dropWhile isSpace = y ++ z ++ u := by
    intro u
    obtain ⟨v', hv', hall⟩ := exists_dropWhile_eq hx
    obtain rfl : v = v' := List.append_cancel_right hv'
    rw [List.append_assoc]
    refine dropWhile_append_of_head hall ?_
    rw [head?_append_eq hne u r, ← hx]
    exact any_head_dropWhile _
  rw [hblank r, List.append_assoc] at heq h
  have hurl : e ≠ .cut → (e = .bad → z ≠ []) →
      urlIn ((v ++ (y ++ z) ++ s).dropWhile isSpace) = ((urlIn (y ++ (z ++ r))).1, e, z ++ s) := by
    intro he hz
    rw [hblank s, List.append_assoc]
    exact url_transfer he (fun hbad =>
      ⟨head?_append_eq (hz hbad) r s, List.append_ne_nil_of_right_ne_nil z hr⟩) heq
  cases e with
  | closed =>
    obtain ⟨rfl, hz⟩ := Prod.mk.inj h
    obtain rfl : z = [] := List.append_left_eq_self.mp hz
    rw [hurl (by simp) (by simp)]
    rfl
  | cut => exact absurd (eq_nil_of_cut heq) (List.append_ne_nil_of_right_ne_nil z hr)
  | bad =>
    obtain ⟨rfl, hz⟩ := Prod.mk.inj h
    have hzne : z ≠ [] := by
      rintro rfl
      exact ne_of_suffix_tail hr (afterBadUrl_suffix_tail r) hz
    rw [hurl (by simp) fun _ => hzne]
    exact congrArg _ (afterBadUrl_transfer hz hr s)

def stringEnd (inside : Text) : Ending → List Token
  | .closed => [.string ('"' :: Text.expand writeStringChar inside ++ ['"'])]
  | .cut => [.string ('"' :: Text.expand writeStringChar inside), .flaw .openString]
  | .bad => [.flaw .badString]

theorem stringTokens_eq (quote : Char) (t : Text) :
    stringTokens quote t =
      (stringEnd (stringIn quote t).1 (stringIn quote t).2.1, (stringIn quote t).2.2) := by
  unfold stringTokens stringIn
  rcases stringFrom quote t.length t with ⟨inside, _ | _ | _, rest⟩ <;> rfl

theorem stringTokens_transfer (h : stringTokens quote (w ++ r) = (ts, r)) (hr : r ≠ [])
    (hj : Joint w r s) (hbad : .flaw .badString ∈ ts → r.head? = s.head?) :
    stringTokens quote (w ++ s) = (ts, s) := by
  rw [stringTokens_eq] at h ⊢
  rcases heq : (stringIn quote (w ++ r)).2 with ⟨e, rest⟩
  rw [heq] at h
  obtain ⟨rfl, rfl⟩ := Prod.mk.inj h
  rw [string_transfer heq hr hj]
  rintro rfl
  exact hbad (List.mem_singleton.mpr rfl)

theorem nameTokens_eq (t : Text) : nameTokens t =
    if (name t).2.head?.any (· == '(') then
      if (name t).1.map Text.lowerAscii == "url".toList && !startsQuoted ((name t).2.drop 1) then
        urlTokens ((name t).2.drop 1)
      else ([.function (name t).1], (name t).2.drop 1)
    else ([.ident (name t).1], (name t).2) := by
  unfold nameTokens
  rcases name t with ⟨n, _ | ⟨c, rest⟩⟩
  · rfl
  · by_cases hc : c = '('
    · subst hc
      rfl
    · simp [hc]

theorem IsBare.nameTokens_ne (hw : IsBare w) (hr : r ≠ []) : (nameTokens (w ++ r)).2 ≠ r := by
  rw [nameTokens_eq]
  rcases hw.name_cases r with heq | hsuffix
  · rw [heq, List.head?_cons, Option.any_some, if_neg (by decide)]
    exact fun h => absurd (congrArg List.length h) (by simp)
  · refine ne_of_suffix_tail hr (List.IsSuffix.trans ?_ hsuffix)
    have hdrop := List.drop_suffix 1 (name (w ++ r)).2
    split
    · split
      · exact (urlTokens_suffix _).trans hdrop
      · exact hdrop
    · exact List.suffix_refl _

/-- The tokens stay the same, and what is left is what stands there now. -/
def Outcome (r s : Text) (ts : List Token) (found : List Token × Text) : Prop :=
  ∃ s', Rest r s s' ∧ found = (ts, s')

theorem Outcome.alone {ts' : List Token} (h : (ts', w ++ r) = (ts, r)) :
    Outcome r s ts (ts', w ++ s) := by
  obtain ⟨rfl, hrest⟩ := Prod.mk.inj h
  exact ⟨s, .inl rfl, by rw [List.append_left_eq_self.mp hrest, List.nil_append]⟩

theorem Outcome.drop {ts' : List Token} {k : Nat} (h : (ts', (w ++ r).drop k) = (ts, r))
    (hr : r ≠ []) :
    Outcome r s ts (ts', (w ++ s).drop k) := by
  obtain ⟨rfl, hrest⟩ := Prod.mk.inj h
  exact ⟨s, .inl rfl, by rw [drop_transfer hr hrest]⟩

theorem Outcome.named {f : Text → Token} (h : ([f (name (w ++ r)).1], (name (w ++ r)).2) = (ts, r))
    (hr : r ≠ []) (hj : Joint w r s) :
    Outcome r s ts ([f (name (w ++ s)).1], (name (w ++ s)).2) := by
  obtain ⟨rfl, hrest⟩ := Prod.mk.inj h
  obtain ⟨s', hs', hlater⟩ := name_transfer hrest hr hj
  exact ⟨s', hs', by rw [hlater]⟩

theorem exists_ite {α : Type} {P : Prop} [Decidable P] {a b x : α} {a' b' : α} {Q : α → Prop}
    (h : (if P then a else b) = x) (hpos : P → a = x → Q a') (hneg : ¬P → b = x → Q b') :
    Q (if P then a' else b') := by
  split at h
  · next hP =>
    rw [if_pos hP]
    exact hpos hP h
  · next hP =>
    rw [if_neg hP]
    exact hneg hP h

theorem nameTokens_transfer (h : nameTokens (w ++ r) = (ts, r)) (hr : r ≠ []) (hj : Joint w r s) :
    Outcome r s ts (nameTokens (w ++ s)) := by
  have hrest := name_suffix_self (w ++ r)
  rw [nameTokens_eq] at h ⊢
  generalize heq : (name (w ++ r)).2 = rest at h hrest
  have hopen : rest.head?.any (· == '(') → r <:+ rest.drop 1 := by
    intro hparen
    rw [if_pos hparen] at h
    split at h
    · have hurl := urlTokens_suffix (rest.drop 1)
      rwa [h] at hurl
    · exact (Prod.mk.inj h).2 ▸ List.suffix_refl _
  have hend : r <:+ rest := by
    by_cases hparen : rest.head?.any (· == '(')
    · exact (hopen hparen).trans (List.drop_suffix 1 rest)
    · rw [if_neg hparen] at h
      exact (Prod.mk.inj h).2 ▸ List.suffix_refl rest
  obtain ⟨v, x, rfl, rfl⟩ := exists_split hrest hend
  rw [List.append_assoc] at heq
  have hsplit : startsName (x ++ r) = startsName (x ++ s) := by
    cases x with
    | nil => exact hj.name
    | cons d x =>
      have hparen : (d :: x ++ r).head?.any (· == '(') := by
        by_contra hparen
        rw [if_neg hparen] at h
        exact absurd (List.append_left_eq_self.mp (Prod.mk.inj h).2) (List.cons_ne_nil d x)
      obtain rfl : d = '(' := by simpa using hparen
      exact (startsName_cons '(' (x ++ r)).trans (startsName_cons '(' (x ++ s)).symm
  obtain ⟨s', hs', hname⟩ :=
    name_transfer heq (List.append_ne_nil_of_right_ne_nil x hr) (hj.split hsplit)
  rw [← List.append_assoc, ← List.append_assoc] at hname
  rw [hname]
  cases x with
  | nil =>
    have hparen : ¬(r.head?.any (· == '(')) := by
      intro hparen
      have hle := (hopen hparen).length_le
      have hpos := List.length_pos_iff.mpr hr
      rw [List.nil_append, List.length_drop] at hle
      omega
    have hparen' : ¬(s'.head?.any (· == '(')) := by
      rw [hs'.any_head hj.of_append (passes_eq (by decide))]
      exact hparen
    rw [List.nil_append, if_neg hparen] at h
    exact ⟨s', hs', by rw [if_neg hparen', (Prod.mk.inj h).1]⟩
  | cons c x =>
    obtain rfl := hs'.eq id
    refine ⟨s, .inl rfl, ?_⟩
    have hquoted := (hj.of_append.of_cons.append).startsQuoted_eq
    rw [List.cons_append] at h
    rw [List.cons_append]
    split at h
    · next hparen =>
      refine (if_pos hparen).trans ?_
      rw [List.drop_one, List.tail_cons] at h
      rw [List.drop_one, List.tail_cons, ← hquoted]
      split at h
      · next hurl => rw [if_pos hurl, urlTokens_transfer h hr s]
      · next hurl =>
        obtain ⟨rfl, hx⟩ := Prod.mk.inj h
        obtain rfl : x = [] := List.append_left_eq_self.mp hx
        rw [if_neg hurl, List.nil_append]
    · have hlength := congrArg List.length (Prod.mk.inj h).2
      simp at hlength
      omega

theorem IsBare.named_ne {P : Prop} [Decidable P] {us us' : List Token} (hw : IsBare w)
    (hr : r ≠ []) : (if P then (us, (name (w ++ r)).2) else (us', w ++ r)) ≠ (ts, r) := by
  split
  · exact fun h => hw.name_ne hr (congrArg Prod.snd h)
  · exact fun h => hw.append_ne r (congrArg Prod.snd h)

theorem numberTokens_transfer {shown : Text} (h : numberTokens shown (w ++ r) = (ts, r))
    (hr : r ≠ []) (hj : Joint w r s) : Outcome r s ts (numberTokens shown (w ++ s)) := by
  unfold numberTokens at h ⊢
  have hw : ¬IsBare w := fun hw => by
    split at h
    · exact hw.name_ne hr (congrArg Prod.snd h)
    · split at h
      · next hpercent => rcases hw with rfl | rfl <;> exact absurd hpercent (by simp)
      · exact hw.append_ne r (congrArg Prod.snd h)
  rw [← hj.startsName_append hw, ← hj.append.head?_beq_eq (by decide)]
  exact exists_ite h (fun _ h => Outcome.named h hr hj) fun _ h =>
    exists_ite h (fun _ h => Outcome.drop h hr) fun _ h => Outcome.alone h

/-- The placeholders behind the digits of a range. -/
def placeholders (t : Text) : Text :=
  ((t.drop (hexes t).length).takeWhile (· == '?')).take (6 - (hexes t).length)

def afterFirst (t : Text) : Text := t.drop ((hexes t).length + (placeholders t).length)

def second (t : Text) : Text := led (· == '-') hexes (fun t => t.head?.any Text.isHexDigit) t

theorem steady_second : Steady second :=
  Steady.led (passes_eq (by decide)) steady_hexes fun h => h.any_head passes_isHexDigit

theorem rangeTokens_eq (t : Text) : rangeTokens t =
    if !(placeholders t).isEmpty then
      ([.unicodeRange (hexValue (hexes t ++ (placeholders t).map fun _ => '0'))
        (hexValue (hexes t ++ (placeholders t).map fun _ => 'F'))], afterFirst t)
    else if (second (afterFirst t)).isEmpty then
      ([.unicodeRange (hexValue (hexes t)) (hexValue (hexes t))], afterFirst t)
    else ([.unicodeRange (hexValue (hexes t)) (hexValue (second (afterFirst t)).tail)],
      (afterFirst t).drop (second (afterFirst t)).length) := by
  have hmarks : ((t.take 6).drop (hexes t).length).takeWhile (· == '?') = placeholders t := by
    rw [placeholders, List.take_takeWhile, List.drop_take]
  unfold rangeTokens
  dsimp only
  rw [show (t.take 6).takeWhile Text.isHexDigit = hexes t from rfl, hmarks,
    show t.drop ((hexes t).length + (placeholders t).length) = afterFirst t from rfl]
  split
  · rfl
  · rcases afterFirst t with _ | ⟨d, _ | ⟨c, x⟩⟩
    · rfl
    · cases hd : d == '-' <;> simp [second, led, hd]
    · by_cases hd : d = '-'
      · subst hd
        cases hc : Text.isHexDigit c
        · simp [second, led, hc]
        · simp [second, led, hc, hexes]
      · simp [second, led, hd]

theorem rangeTokens_transfer (h : rangeTokens (w ++ r) = (ts, r)) (hr : r ≠ []) (hj : Joint w r s) :
    Outcome r s ts (rangeTokens (w ++ s)) := by
  have halike := hj.append
  have hhexes := steady_hexes.eq halike
  have hmarks : placeholders (w ++ r) = placeholders (w ++ s) := by
    unfold placeholders
    rw [(steady_hexes.drop halike).takeWhile_eq (passes_eq (by decide)), hhexes]
  have hafter : Alike (afterFirst (w ++ r)) (afterFirst (w ++ s)) := by
    have hdrop := ((Steady.takeWhile (p := (· == '?')) (passes_eq (by decide))).take
      (6 - (hexes (w ++ r)).length)).drop (steady_hexes.drop halike)
    rw [List.drop_drop, List.drop_drop, ← hhexes] at hdrop
    unfold afterFirst placeholders
    rw [← hhexes]
    exact hdrop
  have hsecond := steady_second.eq hafter
  rw [rangeTokens_eq] at h
  rw [rangeTokens_eq, ← hmarks, ← hhexes, ← hsecond]
  have hfirst : afterFirst (w ++ s) =
      (w ++ s).drop ((hexes (w ++ r)).length + (placeholders (w ++ r)).length) := by
    rw [afterFirst, ← hhexes, ← hmarks]
  refine exists_ite h (fun _ h => ?_) fun _ h => exists_ite h (fun _ h => ?_) fun _ h => ?_
  · exact hfirst ▸ Outcome.drop h hr
  · exact hfirst ▸ Outcome.drop h hr
  · rw [afterFirst, List.drop_drop] at h
    rw [hfirst, List.drop_drop]
    exact Outcome.drop h hr

theorem signTokens_transfer (h : signTokens c (w ++ r) = (ts, r)) (hr : r ≠ []) (hj : Joint w r s)
    (hbad : .flaw .badString ∈ ts → r.head? = s.head?) :
    Outcome r s ts (signTokens c (w ++ s)) := by
  have halike := hj.append
  have hmarked : ((w ++ r).take 3 == "!--".toList) = ((w ++ s).take 3 == "!--".toList) :=
    halike.take_beq_eq (show "!--".toList.all isFirm by decide)
  unfold signTokens at h ⊢
  dsimp only at h ⊢
  rw [← halike.any_head passes_isNameChar, ← halike.head?_beq_eq (d := '*') (by decide),
    ← halike.head?_beq_eq (d := '|') (by decide),
    ← halike.head?_beq_eq (d := '=') (by decide), ← hmarked]
  refine exists_ite h (fun _ h => ?_) fun _ h => exists_ite h (fun _ h => ?_) fun _ h => ?_
  · have hw : ¬IsBare w := fun hw => hw.named_ne hr h
    rw [← hj.startsName_append hw]
    exact exists_ite h (fun _ h => Outcome.named h hr hj) fun _ h => Outcome.alone h
  · have hw : ¬IsBare w := fun hw => hw.named_ne hr h
    rw [← hj.startsName_append hw, ← hj.startsEscape_append (mt .inl hw)]
    exact exists_ite h (fun _ h => Outcome.named (f := (.hash · _)) h hr hj) fun _ h =>
      Outcome.alone h
  refine exists_ite h (fun _ h => Outcome.alone h) fun _ h =>
    exists_ite h (fun _ h => Outcome.alone h) fun _ h => ?_
  refine exists_ite h (fun _ h => ⟨s, .inl rfl, stringTokens_transfer h hr hj hbad⟩) fun _ h => ?_
  refine exists_ite h (fun _ h => ?_) fun _ h => ?_
  · refine ⟨s, .inl rfl, ?_⟩
    obtain ⟨rfl, hrest⟩ := Prod.mk.inj h
    cases w with
    | nil =>
      rw [List.drop_one] at hrest
      exact absurd hrest (ne_of_suffix_tail hr (commentFrom_suffix _))
    | cons d w =>
      rw [List.cons_append, List.drop_one, List.tail_cons, comment_transfer hrest hr s]
      rfl
  refine exists_ite h (fun _ h => Outcome.drop h hr) fun _ h =>
    exists_ite h (fun _ h => Outcome.drop h hr) fun _ h => ?_
  exact exists_ite h (fun _ h => Outcome.drop h hr) fun _ h => Outcome.alone h

theorem IsBare.front_eq (hw : IsBare (c :: w)) (r : Text) : front c (w ++ r) =
    if startsName (c :: (w ++ r)) then nameTokens (c :: (w ++ r))
      else ([.literal [c]], w ++ r) := by
  rcases hw with hw | hw
  · obtain ⟨rfl, rfl⟩ := List.cons.inj hw
    have hrange : startsRange ('\\' :: r) = false := by rw [startsRange_cons]; rfl
    have hmarked : (('\\' :: r).take 3 == "-->".toList) = false := by
      rw [List.take_succ_cons, show "-->".toList = '-' :: "->".toList from rfl, List.cons_beq_cons]
      rfl
    rw [List.nil_append, front, hrange, hmarked]
    rfl
  · obtain ⟨rfl, rfl⟩ := List.cons.inj hw
    rfl

/-- The one token with a bare backslash at its end is that backslash. -/
theorem IsBare.of_front (hw : IsBare (c :: w)) (h : front c (w ++ r) = (ts, r)) (hr : r ≠ []) :
    c :: w = ['\\'] ∧ ts = [.literal ['\\']] := by
  rw [hw.front_eq] at h
  split at h
  · exact absurd (congrArg Prod.snd h) (hw.nameTokens_ne hr)
  · obtain ⟨rfl, hrest⟩ := Prod.mk.inj h
    obtain rfl : w = [] := List.append_left_eq_self.mp hrest
    obtain rfl : c = '\\' := by simpa [IsBare] using hw
    exact ⟨rfl, rfl⟩

theorem front_transfer (h : front c (w ++ r) = (ts, r)) (hj : Joint (c :: w) r s)
    (hback : c :: w = ['\\'] → startsName ('\\' :: r) = startsName ('\\' :: s))
    (hbad : .flaw .badString ∈ ts → r.head? = s.head?) : Outcome r s ts (front c (w ++ s)) := by
  by_cases hr : r = []
  · subst hr
    rw [hj.alike.eq_nil]
    exact ⟨[], .inl rfl, h⟩
  have halike : Alike (c :: (w ++ r)) (c :: (w ++ s)) := hj.append
  have hmarked : ((c :: (w ++ r)).take 3 == "-->".toList) =
      ((c :: (w ++ s)).take 3 == "-->".toList) :=
    halike.take_beq_eq (show "-->".toList.all isFirm by decide)
  have hname : startsName (c :: (w ++ r)) = startsName (c :: (w ++ s)) := by
    by_cases hw : IsBare (c :: w)
    · have heq := (hw.of_front h hr).1
      obtain ⟨rfl, rfl⟩ := List.cons.inj heq
      exact hback heq
    · exact hj.startsName_append hw
  unfold front at h ⊢
  dsimp only at h ⊢
  rw [← halike.startsRange_eq, ← hname, ← halike.number?_eq, ← hmarked]
  refine exists_ite h (fun hc h => ?_) fun _ h => ?_
  · obtain ⟨rfl, hrest⟩ := Prod.mk.inj h
    obtain ⟨v, hv, hall⟩ := exists_dropWhile_eq (w := c :: w) (y := []) hrest
    rw [List.append_nil] at hv
    subst hv
    have hblank : startsBlank r = false := by
      rw [startsBlank, ← hrest]
      exact any_head_dropWhile _
    have hblank' : startsBlank s = false := by
      cases hs : startsBlank s with
      | false => rfl
      | true =>
        rcases hj.blank hs with hs | ⟨-, hlast⟩
        · rw [hs] at hblank
          contradiction
        · rw [List.getLast?_eq_some_getLast (List.cons_ne_nil c w), Option.any_some,
            hall _ (List.getLast_mem (List.cons_ne_nil c w))] at hlast
          contradiction
    refine ⟨s, .inl rfl, ?_⟩
    rw [← List.cons_append, ← List.cons_append, takeWhile_append_of_head hall hblank,
      takeWhile_append_of_head hall hblank', dropWhile_append_of_head hall hblank']
  refine exists_ite h (fun _ h => ?_) fun _ h => ?_
  · cases w with
    | nil =>
      rw [List.drop_one] at h
      exact absurd (congrArg Prod.snd h) (ne_of_suffix_tail hr (rangeTokens_suffix _))
    | cons d w => exact rangeTokens_transfer h hr hj.of_cons.of_cons
  refine exists_ite h (fun _ h => ?_) fun _ h => exists_ite h (fun _ h => ?_) fun _ h => ?_
  · exact Outcome.drop h hr
  · exact nameTokens_transfer (w := c :: w) h hr hj
  · cases hnumber : number? (c :: (w ++ r)) with
    | none =>
      rw [hnumber] at h
      exact signTokens_transfer h hr hj.of_cons hbad
    | some shown =>
      rw [hnumber] at h
      replace h : numberTokens shown ((c :: w ++ r).drop shown.length) = (ts, r) := h
      change Outcome r s ts (numberTokens shown ((c :: w ++ s).drop shown.length))
      have hrest := numberTokens_suffix shown ((c :: w ++ r).drop shown.length)
      rw [h] at hrest
      obtain ⟨v, x, hw, hx⟩ := exists_split (List.drop_suffix shown.length (c :: w ++ r)) hrest
      rw [hw] at hj
      rw [hx] at h
      rw [hw, List.append_assoc] at hx
      have hdrop := drop_transfer (s := x ++ s) (List.append_ne_nil_of_right_ne_nil x hr) hx
      rw [← List.append_assoc, ← hw] at hdrop
      rw [hdrop]
      exact numberTokens_transfer h hr hj.of_append

open Lexeme

theorem exists_lexemes_eq (h : front c t = (ts, r)) :
    ∃ w, t = w ++ r ∧ lexemes (c :: t) = ⟨c :: w, ts⟩ :: lexemes r := by
  obtain ⟨w, hw⟩ := front_suffix c t
  rw [h] at hw
  subst hw
  exact ⟨w, rfl, lexemes_cons h⟩

theorem front_of_lexemes {l : Lexeme} (h : lexemes (l.text ++ r) = l :: ls) :
    ∃ c w, l.text = c :: w ∧ front c (w ++ r) = (l.tokens, r) ∧ lexemes r = ls := by
  obtain ⟨c, w, hl⟩ :=
    List.exists_cons_of_ne_nil (text_ne_nil (h ▸ List.mem_cons_self : l ∈ lexemes (l.text ++ r)))
  rw [hl, List.cons_append] at h
  rcases hfront : front c (w ++ r) with ⟨ts, r'⟩
  obtain ⟨v, hv, heq⟩ := exists_lexemes_eq hfront
  rw [heq, List.cons.injEq] at h
  obtain ⟨rfl, hls⟩ := h
  obtain rfl : v = w := (List.cons.inj hl).2
  obtain rfl : r = r' := List.append_cancel_left hv
  exact ⟨c, v, rfl, hfront, hls⟩

theorem textOf_ne_nil {ls' : List Lexeme} (h : lexemes t = ls ++ ls') (hls : ls ≠ []) :
    textOf ls ≠ [] := by
  obtain ⟨l, ls, rfl⟩ := List.exists_cons_of_ne_nil hls
  have hmem : l ∈ lexemes t := by
    rw [h]
    simp
  exact List.append_ne_nil_of_left_ne_nil (text_ne_nil hmem) _

theorem IsBare.of_append (hw : IsBare (v ++ w)) (h : w ≠ []) : IsBare w := by
  unfold IsBare at hw ⊢
  rcases v with _ | ⟨c, _ | ⟨d, v⟩⟩
  · exact hw
  · rcases hw with hw | hw
    · exact absurd (List.cons.inj hw).2 h
    · exact .inl (List.cons.inj hw).2
  · rcases hw with hw | hw
    · exact absurd (List.cons.inj hw).2 (by simp)
    · exact absurd (List.append_eq_nil_iff.mp (List.cons.inj (List.cons.inj hw).2).2).2 h

theorem IsBare.startsName_eq (hw : IsBare w) (r : Text) :
    startsName (w ++ r) = startsName ('\\' :: r) := by
  rcases hw with rfl | rfl <;> rfl

section

variable (h : lexemes (textOf ls ++ r) = ls ++ lexemes r) (hj : Joint (textOf ls) r s)
  (hback : ∀ l ∈ ls.getLast?, l.text = ['\\'] → startsName ('\\' :: r) = startsName ('\\' :: s))
include h hj hback

theorem startsName_textOf : startsName (textOf ls ++ r) = startsName (textOf ls ++ s) := by
  induction ls with
  | nil => exact hj.name
  | cons l ls ih =>
    by_cases hbare : IsBare (textOf (l :: ls))
    · by_cases hr : r = []
      · subst hr
        rw [hj.alike.eq_nil]
      have hjoint : Joint (l.text ++ textOf ls) r s := hj
      have htext : textOf (l :: ls) ++ r = l.text ++ (textOf ls ++ r) := List.append_assoc _ _ _
      rw [htext] at h
      obtain ⟨c, w, hl, hfront, hrest⟩ := front_of_lexemes h
      rw [hbare.startsName_eq, hbare.startsName_eq]
      by_cases hls : ls = []
      · subst hls
        have hbare : IsBare (c :: w) := by
          rwa [textOf, List.flatMap_singleton, hl] at hbare
        exact hback l rfl (hl.trans (hbare.of_front hfront hr).1)
      · have hnext : IsBare (textOf ls) := hbare.of_append (textOf_ne_nil hrest hls)
        have heq := ih hrest hjoint.of_append (List.getLast?_cons_of_ne_nil hls ▸ hback)
        rwa [hnext.startsName_eq, hnext.startsName_eq] at heq
    · exact hj.startsName_append hbare

variable (hbad : ∀ l ∈ ls.getLast?, .flaw .badString ∈ l.tokens → r.head? = s.head?)
include hbad

theorem lexemes_transfer :
    ∃ ls' s', Rest r s s' ∧ lexemes (textOf ls ++ s) = ls' ++ lexemes s' ∧
      tokensOf ls' = tokensOf ls ∧
      (s' = s → ls' = ls) := by
  induction ls with
  | nil => exact ⟨[], s, .inl rfl, rfl, rfl, fun _ => rfl⟩
  | cons l ls ih =>
    have htext : ∀ u, textOf (l :: ls) ++ u = l.text ++ (textOf ls ++ u) :=
      fun u => List.append_assoc _ _ _
    rw [htext] at h
    rw [htext]
    obtain ⟨c, w, hl, hfront, hrest⟩ := front_of_lexemes h
    have hjoint : Joint (l.text ++ textOf ls) r s := hj
    rw [hl, List.cons_append]
    by_cases hls : ls = []
    · subst hls
      have hsplit : Joint (c :: w) r s := by
        rwa [hl, textOf, List.flatMap_nil, List.append_nil] at hjoint
      obtain ⟨s', hs', heq⟩ :=
        front_transfer hfront hsplit (fun hw => hback l rfl (hl.trans hw)) (hbad l rfl)
      obtain ⟨v, hv, hlexemes⟩ := exists_lexemes_eq heq
      refine ⟨[⟨c :: v, l.tokens⟩], s', hs', hlexemes, rfl, ?_⟩
      rintro rfl
      obtain rfl : w = v := List.append_cancel_right hv
      rw [← hl]
    · have hlast : (l :: ls).getLast? = ls.getLast? := List.getLast?_cons_of_ne_nil hls
      rw [hlast] at hback hbad
      have hname := startsName_textOf hrest hjoint.of_append hback
      have hsplit : Joint (c :: w) (textOf ls ++ r) (textOf ls ++ s) := hl ▸ hjoint.split hname
      have hhead := head?_append_eq (textOf_ne_nil hrest hls) r s
      have hescape : startsName ('\\' :: (textOf ls ++ r)) =
          startsName ('\\' :: (textOf ls ++ s)) :=
        startsEscape_append_eq (textOf_ne_nil hrest hls) '\\' r s
      obtain ⟨s', hs', heq⟩ := front_transfer hfront hsplit (fun _ => hescape) fun _ => hhead
      obtain rfl := hs'.eq fun hblank => by rwa [startsBlank, hhead]
      obtain ⟨ls', s', hs', hlater, htokens, hsame⟩ := ih hrest hjoint.of_append hback hbad
      refine ⟨l :: ls', s', hs', ?_, congrArg (l.tokens ++ ·) htokens,
        fun heq => congrArg _ (hsame heq)⟩
      rw [lexemes_cons heq, hlater, ← hl]
      rfl

theorem lexemes_append (hblank : startsBlank s → startsBlank r) :
    lexemes (textOf ls ++ s) = ls ++ lexemes s := by
  obtain ⟨ls', s', hs', heq, -, hsame⟩ := lexemes_transfer h hj hback hbad
  obtain rfl := hs'.eq hblank
  rw [heq, hsame rfl]

end

end Graft.Style
