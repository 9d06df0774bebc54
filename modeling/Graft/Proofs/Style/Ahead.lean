import Graft.Proofs.Style.Lexing

set_option autoImplicit false

/-!
How far a reader looks ahead: up to the next blank, comma or brace, and no farther than the
character behind a backslash. Texts that agree so far start with the same number and the same name.
-/

namespace Graft.Style

/-- Blanks, commas and braces: no token but their own starts with one. -/
def isMark (c : Char) : Bool := isSpace c || c == ',' || c == '\x7b' || c == '\x7d'

/-- Nothing follows, or a mark. -/
def Stops (t : Text) : Prop := ∀ c ∈ t.head?, isMark c

def startsBlank (t : Text) : Bool := t.head?.any isSpace

def isQuote (c : Char) : Bool := c == '"' || c == '\''

def startsQuoted (t : Text) : Bool := (t.dropWhile isSpace).head?.any isQuote

/-- Two texts agree up to a mark or a backslash. The marks may differ. -/
inductive Alike : Text → Text → Prop where
  | stop {t u : Text} (ht : Stops t) (hu : Stops u) (hnil : t = [] → u = [])
      (hquoted : startsQuoted t = startsQuoted u) : Alike t u
  | back (t u : Text) : Alike ('\\' :: t) ('\\' :: u)
  | cons {c : Char} {t u : Text} (hc : c ≠ '\\') (h : Alike t u) : Alike (c :: t) (c :: u)

theorem isMark_iff {c : Char} :
    isMark c ↔ c = ' ' ∨ c = '\n' ∨ c = '\t' ∨ c = ',' ∨ c = '\x7b' ∨ c = '\x7d' := by
  simp [isMark, isSpace, or_assoc]

/-- A test that no mark passes, nor a backslash. -/
structure Passes (p : Char → Bool) : Prop where
  mark : ∀ c, isMark c → p c = false
  back : p '\\' = false

theorem passes_of {p : Char → Bool}
    (h : ['\\', ' ', '\n', '\t', ',', '\x7b', '\x7d'].all (!p ·)) : Passes p := by
  simp only [List.all_cons, Bool.and_eq_true, Bool.not_eq_true'] at h
  refine ⟨fun c hc => ?_, h.1⟩
  rcases isMark_iff.mp hc with rfl | rfl | rfl | rfl | rfl | rfl <;> simp [h]

theorem beq_of_isMark {c d : Char} (hd : isMark d = false) (hc : isMark c) : (c == d) = false := by
  rw [beq_eq_false_iff_ne]
  rintro rfl
  rw [hd] at hc
  contradiction

def isFirm (c : Char) : Bool := !isMark c && c != '\\'

theorem passes_eq {d : Char} (hd : isFirm d) : Passes (· == d) := by
  obtain ⟨hmark, hback⟩ : isMark d = false ∧ d ≠ '\\' := by simpa [isFirm] using hd
  exact ⟨fun _ hc => beq_of_isMark hmark hc, beq_false_of_ne hback.symm⟩

variable {p : Char → Bool} {t u : Text}

theorem Passes.isFirm_of (hp : Passes p) {c : Char} (h : p c) : isFirm c := by
  have hmark : ¬isMark c := fun hmark => by
    rw [hp.mark c hmark] at h
    contradiction
  have hback : c ≠ '\\' := by
    rintro rfl
    rw [hp.back] at h
    contradiction
  simp [isFirm, hmark, hback]

theorem Stops.any_head (h : Stops t) (hp : Passes p) : t.head?.any p = false := by
  cases t with
  | nil => rfl
  | cons c t => exact hp.mark c (h c rfl)

namespace Alike

theorem prepend (c : Char) (h : Alike t u) : Alike (c :: t) (c :: u) := by
  by_cases hc : c = '\\'
  · exact hc ▸ .back t u
  · exact .cons hc h

theorem append (w : Text) (h : Alike t u) : Alike (w ++ t) (w ++ u) := by
  induction w with
  | nil => exact h
  | cons c w ih => exact ih.prepend c

theorem refl (t : Text) : Alike t t := by
  have hnil : Alike [] [] := .stop (by simp [Stops]) (by simp [Stops]) id rfl
  simpa using hnil.append t

theorem eq_nil (h : Alike [] u) : u = [] := by
  cases h with
  | stop ht hu hnil hquoted => exact hnil rfl

/-- Texts that agree come to the same if no mark makes a difference, nor anything behind a mark or
a backslash. -/
theorem eq_of {β : Type} {f : Text → β} {b : β} (h : Alike t u) (hnil : f [] = b)
    (hmark : ∀ c t, isMark c → f (c :: t) = b) (hback : ∀ t, f ('\\' :: t) = f ['\\'])
    (hcons : ∀ c t u, Alike t u → f (c :: t) = f (c :: u)) : f t = f u := by
  have hstop : ∀ {t : Text}, Stops t → f t = b := by
    intro t ht
    cases t with
    | nil => exact hnil
    | cons c t => exact hmark c t (ht c rfl)
  cases h with
  | stop ht hu hnil hquoted => rw [hstop ht, hstop hu]
  | back t u => rw [hback t, hback u]
  | cons hc h => exact hcons _ _ _ h

theorem any_head (hp : Passes p) (h : Alike t u) : t.head?.any p = u.head?.any p :=
  h.eq_of (f := (·.head?.any p)) rfl (fun c _ hc => hp.mark c hc) (fun _ => rfl) fun _ _ _ _ => rfl

theorem head?_beq_eq {d : Char} (hd : isFirm d) (h : Alike t u) :
    (t.head? == some d) = (u.head? == some d) := by
  have heq := h.any_head (passes_eq hd)
  cases t with
  | nil => cases u with
    | nil => rfl
    | cons d u => simpa using heq
  | cons c t => cases u <;> simpa using heq

theorem startsQuoted_eq (h : Alike t u) : startsQuoted t = startsQuoted u := by
  induction h with
  | stop ht hu hnil hquoted => exact hquoted
  | back t u => rfl
  | @cons c t u hc h ih =>
    by_cases hc : isSpace c
    · unfold startsQuoted at ih ⊢
      rwa [List.dropWhile_cons_of_pos hc, List.dropWhile_cons_of_pos hc]
    · simp [startsQuoted, hc]

theorem of_append {w : Text} (hw : ∀ c ∈ w, isFirm c) (h : Alike (w ++ t) u) :
    ∃ v, u = w ++ v ∧ Alike t v := by
  induction w generalizing u with
  | nil => exact ⟨u, rfl, h⟩
  | cons c w ih =>
    obtain ⟨hc, hw⟩ := List.forall_mem_cons.mp hw
    cases h with
    | stop ht hu hnil hquoted =>
      have hmark := ht c rfl
      rw [isFirm, hmark] at hc
      contradiction
    | back t u => contradiction
    | cons hne h =>
      obtain ⟨v, rfl, hv⟩ := ih hw h
      exact ⟨v, rfl, hv⟩

theorem takeWhile_eq (hp : Passes p) (h : Alike t u) : t.takeWhile p = u.takeWhile p := by
  induction h with
  | @stop t u ht hu hnil hquoted =>
    have hstop : ∀ {t : Text}, Stops t → t.takeWhile p = [] := by
      intro t ht
      cases t with
      | nil => rfl
      | cons c t => rw [List.takeWhile_cons_of_neg (by simp [hp.mark c (ht c rfl)])]
    rw [hstop ht, hstop hu]
  | back t u => rw [List.takeWhile_cons, List.takeWhile_cons, hp.back]; rfl
  | @cons c t u hc h ih => rw [List.takeWhile_cons, List.takeWhile_cons, ih]

end Alike

theorem startsEscape_cons (c : Char) (t : Text) :
    startsEscape (c :: t) = (c == '\\' && !t.head?.any (· == '\n')) := by
  by_cases hc : c = '\\'
  · subst hc
    cases t with
    | nil => rfl
    | cons d t => rfl
  · cases t <;> simp [startsEscape, hc]

theorem startsName_cons (c : Char) (t : Text) : startsName (c :: t) =
    if c = '-' then (t.head?.any fun d => isNameStart d || d == '-') || startsEscape t
    else isNameStart c || startsEscape (c :: t) := by
  by_cases hc : c = '-'
  · subst hc
    rfl
  · simp [startsName, hc]

theorem startsRange_cons (c : Char) (t : Text) : startsRange (c :: t) =
    ((c == 'U' || c == 'u') && t.head?.any (· == '+') &&
      (t.drop 1).head?.any fun d => Text.isHexDigit d || d == '?') := by
  rcases t with _ | ⟨d, _ | ⟨e, t⟩⟩
  · simp [startsRange]
  · simp [startsRange]
  · by_cases hd : d = '+' <;> simp [startsRange, hd]

theorem passes_isNameStart : Passes isNameStart := passes_of (by decide)

theorem passes_isNameChar : Passes isNameChar := passes_of (by decide)

theorem passes_isDigit : Passes Text.isDigit := passes_of (by decide)

theorem passes_isHexDigit : Passes Text.isHexDigit := passes_of (by decide)

namespace Alike

theorem startsRange_eq (h : Alike t u) : startsRange t = startsRange u := by
  refine h.eq_of (b := false) rfl (fun c t hc => ?_) (fun t => ?_) fun c t u h => ?_
  · rw [startsRange_cons, beq_of_isMark (by decide) hc, beq_of_isMark (by decide) hc]
    rfl
  · rw [startsRange_cons, startsRange_cons]
    rfl
  · rw [startsRange_cons, startsRange_cons, h.any_head (passes_eq (by decide))]
    cases h with
    | stop ht hu hnil hquoted =>
      rw [hu.any_head (passes_eq (by decide)), Bool.and_false, Bool.false_and, Bool.false_and]
    | back t u =>
      have hplus : ('\\' == '+') = false := by decide
      rw [List.head?_cons, Option.any_some, hplus, Bool.and_false, Bool.false_and, Bool.false_and]
    | cons hc h =>
      exact congrArg _ (h.any_head (p := fun d => Text.isHexDigit d || d == '?')
        (passes_of (by decide)))

theorem take_beq_eq {lit : Text} (hlit : lit.all isFirm) (h : Alike t u) :
    (t.take lit.length == lit) = (u.take lit.length == lit) := by
  induction lit generalizing t u with
  | nil => rfl
  | cons d lit ih =>
    rw [List.all_cons, Bool.and_eq_true] at hlit
    obtain ⟨hd, hlit⟩ := hlit
    have hpasses := passes_eq hd
    refine h.eq_of (f := fun t => t.take (d :: lit).length == d :: lit) (b := false) rfl
      (fun c t hc => ?_) (fun t => ?_) fun c t u h => ?_
    · rw [List.length_cons, List.take_succ_cons, List.cons_beq_cons, hpasses.mark c hc,
        Bool.false_and]
    · rw [List.length_cons, List.take_succ_cons, List.take_succ_cons, List.cons_beq_cons,
        List.cons_beq_cons, hpasses.back, Bool.false_and, Bool.false_and]
    · rw [List.length_cons, List.take_succ_cons, List.take_succ_cons, List.cons_beq_cons,
        List.cons_beq_cons, ih hlit h]

end Alike

/-- A reader that takes something from the front, no marks among it and no backslash, and the same
of texts that agree. -/
structure Steady (f : Text → Text) : Prop where
  isPrefix : ∀ t, f t <+: t
  firm : ∀ t, ∀ c ∈ f t, isFirm c
  eq : ∀ {t u}, Alike t u → f t = f u

namespace Steady

variable {f g : Text → Text}

theorem drop (hf : Steady f) (h : Alike t u) :
    Alike (t.drop (f t).length) (u.drop (f u).length) := by
  obtain ⟨v, hv⟩ := hf.isPrefix t
  have h' : Alike (f t ++ v) u := by rwa [hv]
  obtain ⟨v', hv', hvv'⟩ := h'.of_append (hf.firm t)
  have ht : t.drop (f t).length = v := by rw [← @List.drop_left _ (f t) v, hv]
  have hu : u.drop (f t).length = v' := by rw [hv', List.drop_left]
  rwa [← hf.eq h, ht, hu]

theorem seq (hf : Steady f) (hg : Steady g) : Steady fun t => f t ++ g (t.drop (f t).length) where
  isPrefix t := by
    obtain ⟨v, hv⟩ := hf.isPrefix t
    obtain ⟨v', hv'⟩ := hg.isPrefix (t.drop (f t).length)
    refine ⟨v', ?_⟩
    rw [List.append_assoc, hv', List.prefix_iff_eq_append.mp (hf.isPrefix t)]
  firm t c hc := by
    rcases List.mem_append.mp hc with hc | hc
    · exact hf.firm t c hc
    · exact hg.firm _ c hc
  eq h := by rw [hg.eq (hf.drop h), hf.eq h]

theorem takeWhile (hp : Passes p) : Steady (List.takeWhile p) where
  isPrefix _ := List.takeWhile_prefix p
  firm _ _ hc := hp.isFirm_of (List.mem_takeWhile_imp hc)
  eq h := h.takeWhile_eq hp

theorem take (hf : Steady f) (n : Nat) : Steady fun t => (f t).take n where
  isPrefix t := (List.take_prefix n (f t)).trans (hf.isPrefix t)
  firm t c hc := hf.firm t c (List.mem_of_mem_take hc)
  eq h := by rw [hf.eq h]

end Steady

/-- A character of one kind and what a reader takes behind it, if that has what it needs. -/
def led (p : Char → Bool) (f : Text → Text) (q : Text → Bool) : Text → Text
  | [] => []
  | c :: t => if p c && q t then c :: f t else []

theorem led_cons (p : Char → Bool) (f : Text → Text) (q : Text → Bool) (c : Char) (t : Text) :
    led p f q (c :: t) = if p c && q t then c :: f t else [] := rfl

theorem Steady.led {f : Text → Text} {q : Text → Bool} (hp : Passes p) (hf : Steady f)
    (hq : ∀ {t u}, Alike t u → q t = q u) : Steady (led p f q) where
  isPrefix t := by
    cases t with
    | nil => exact List.prefix_refl []
    | cons c t =>
      rw [led_cons]
      split
      · exact List.cons_prefix_cons.mpr ⟨rfl, hf.isPrefix t⟩
      · exact List.nil_prefix
  firm t c hc := by
    cases t with
    | nil => contradiction
    | cons d t =>
      rw [led_cons] at hc
      split at hc
      · next h =>
        rcases List.mem_cons.mp hc with rfl | hc
        · exact hp.isFirm_of (Bool.and_eq_true_iff.mp h).1
        · exact hf.firm t c hc
      · contradiction
  eq h := by
    refine h.eq_of (b := []) rfl (fun c t hc => ?_) (fun t => ?_) fun c t u h => ?_
    · rw [led_cons, hp.mark c hc, Bool.false_and]
      rfl
    · rw [led_cons, led_cons, hp.back, Bool.false_and, Bool.false_and]
      rfl
    · rw [led_cons, led_cons, hq h, hf.eq h]

def isSign (c : Char) : Bool := c == '+' || c == '-'

theorem passes_isSign : Passes isSign := passes_of (by decide)

theorem sign_eq (t : Text) : sign t = if t.head?.any isSign then t.take 1 else [] := rfl

theorem steady_sign : Steady sign where
  isPrefix t := by
    rw [sign_eq]
    split
    · exact List.take_prefix 1 t
    · exact List.nil_prefix
  firm t c hc := by
    cases t with
    | nil => contradiction
    | cons d t =>
      rw [sign_eq] at hc
      split at hc
      · next h =>
        obtain rfl := List.mem_singleton.mp hc
        exact passes_isSign.isFirm_of h
      · contradiction
  eq h := by
    rw [sign_eq, sign_eq, h.any_head passes_isSign]
    split
    · next hsign =>
      cases h with
      | stop ht hu hnil hquoted =>
        rw [hu.any_head passes_isSign] at hsign
        contradiction
      | back t u => rfl
      | cons hc h => rfl
    · rfl

theorem steady_digits : Steady digits := .takeWhile passes_isDigit

/-- A sign, if there is one, and digits. -/
def whole (t : Text) : Text := sign t ++ digits (t.drop (sign t).length)

theorem steady_whole : Steady whole := steady_sign.seq steady_digits

theorem hasDigits_eq (h : Alike t u) :
    (digits (t.drop (sign t).length)).isEmpty = (digits (u.drop (sign u).length)).isEmpty := by
  rw [steady_digits.eq (steady_sign.drop h)]

theorem fraction_eq (t : Text) :
    fraction t = led (· == '.') digits (fun t => !(digits t).isEmpty) t := by
  cases t with
  | nil => rfl
  | cons c t =>
    by_cases hc : c = '.'
    · subst hc
      cases h : (digits t).isEmpty <;> simp [fraction, led, h]
    · simp [fraction, led, hc]

theorem steady_fraction : Steady fraction := by
  have h := Steady.led (p := (· == '.')) (f := digits) (q := fun t => !(digits t).isEmpty)
    (passes_eq (by decide))
    steady_digits fun h => by rw [steady_digits.eq h]
  exact (funext fraction_eq : fraction = _) ▸ h

theorem exponent_eq (t : Text) : exponent t =
    led (fun c => c == 'e' || c == 'E') whole
      (fun t => !(digits (t.drop (sign t).length)).isEmpty) t := by
  cases t with
  | nil => rfl
  | cons c t =>
    cases hc : (c == 'e' || c == 'E') <;> cases h : (digits (t.drop (sign t).length)).isEmpty <;>
      simp [exponent, led, whole, hc, h]

theorem steady_exponent : Steady exponent := by
  have h := Steady.led (p := fun c => c == 'e' || c == 'E') (f := whole)
    (q := fun t => !(digits (t.drop (sign t).length)).isEmpty) (passes_of (by decide)) steady_whole
    fun h => by rw [hasDigits_eq h]
  exact (funext exponent_eq : exponent = _) ▸ h

def numeral (t : Text) : Text :=
  (whole t ++ fraction (t.drop (whole t).length)) ++
    exponent (t.drop (whole t ++ fraction (t.drop (whole t).length)).length)

theorem steady_numeral : Steady numeral := (steady_whole.seq steady_fraction).seq steady_exponent

theorem afterWhole_eq (t : Text) : afterWhole t = t.drop (whole t).length := by
  rw [afterWhole, whole, List.length_append]

theorem number?_eq_numeral (t : Text) : number? t =
    if (digits (t.drop (sign t).length)).isEmpty && (fraction (afterWhole t)).isEmpty then none
    else some (numeral t) := by
  rw [number?_eq, numeral, List.length_append, ← List.drop_drop, ← afterWhole_eq]
  rfl

theorem Alike.number?_eq (h : Alike t u) : number? t = number? u := by
  rw [number?_eq_numeral, number?_eq_numeral, hasDigits_eq h, steady_numeral.eq h, afterWhole_eq,
    afterWhole_eq, steady_fraction.eq (steady_whole.drop h)]

theorem head?_append_eq {z : Text} (hz : z ≠ []) (x y : Text) :
    (z ++ x).head? = (z ++ y).head? := by
  obtain ⟨c, z, rfl⟩ := List.exists_cons_of_ne_nil hz
  rfl

theorem startsEscape_append_eq {z : Text} (hz : z ≠ []) (c : Char) (x y : Text) :
    startsEscape (c :: (z ++ x)) = startsEscape (c :: (z ++ y)) := by
  rw [startsEscape_cons, startsEscape_cons, head?_append_eq hz x y]

theorem startsEscape_of_ne {c : Char} (hc : c ≠ '\\') (t : Text) :
    startsEscape (c :: t) = false := by
  rw [startsEscape_cons, beq_false_of_ne hc, Bool.false_and]

theorem Stops.startsEscape_eq (h : Stops t) : startsEscape t = false := by
  cases t with
  | nil => rfl
  | cons c t => rw [startsEscape_cons, beq_of_isMark (by decide) (h c rfl), Bool.false_and]

theorem Stops.startsName_eq (h : Stops t) : startsName t = false := by
  have hescape := h.startsEscape_eq
  cases t with
  | nil => rfl
  | cons c t =>
    have hdash : c ≠ '-' := by simpa using beq_of_isMark (d := '-') (by decide) (h c rfl)
    rw [startsName_cons, if_neg hdash, passes_isNameStart.mark c (h c rfl), hescape]
    rfl

/-- A text with something behind it, and the same text with something else there. A blank may come
where none was only before a mark, and not behind another blank. -/
structure Joint (w r s : Text) : Prop where
  alike : Alike r s
  name : startsName r = startsName s
  blank : startsBlank s → startsBlank r ∨ Stops (s.drop 1) ∧ w.getLast?.any isSpace = false

/-- A backslash, maybe with a dash before it: what follows says whether a name starts with it. -/
def IsBare (w : Text) : Prop := w = ['\\'] ∨ w = ['-', '\\']

instance (w : Text) : Decidable (IsBare w) := inferInstanceAs (Decidable (_ ∨ _))

namespace Joint

variable {c : Char} {v w r s : Text}

theorem of_cons (h : Joint (c :: w) r s) : Joint w r s := by
  cases w with
  | nil => exact ⟨h.alike, h.name, fun hs => (h.blank hs).imp_right fun hr => ⟨hr.1, rfl⟩⟩
  | cons d w => exact ⟨h.alike, h.name, h.blank⟩

theorem of_append (h : Joint (v ++ w) r s) : Joint w r s := by
  induction v with
  | nil => exact h
  | cons c v ih => exact ih h.of_cons

theorem of_stops (hr : Stops r) (hs : Stops s) (hnil : r = [] → s = [])
    (hquoted : startsQuoted r = startsQuoted s)
    (hblank : startsBlank s → startsBlank r ∨ Stops (s.drop 1) ∧ w.getLast?.any isSpace = false) :
    Joint w r s :=
  ⟨.stop hr hs hnil hquoted, hr.startsName_eq.trans hs.startsName_eq.symm, hblank⟩

theorem append (h : Joint w r s) : Alike (w ++ r) (w ++ s) := h.alike.append w

theorem startsEscape_eq (h : Joint w r s) : startsEscape r = startsEscape s := by
  have hname := h.name
  rcases h.alike with ⟨hr, hs, -, -⟩ | _ | ⟨hc, -⟩
  · rw [hr.startsEscape_eq, hs.startsEscape_eq]
  · exact hname
  · rw [startsEscape_of_ne hc, startsEscape_of_ne hc]

theorem startsEscape_append (h : Joint w r s) (hw : w ≠ ['\\']) :
    startsEscape (w ++ r) = startsEscape (w ++ s) := by
  rcases w with _ | ⟨c, _ | ⟨d, w⟩⟩
  · exact h.startsEscape_eq
  · have hc : c ≠ '\\' := fun hc => hw (by rw [hc])
    exact (startsEscape_of_ne hc r).trans (startsEscape_of_ne hc s).symm
  · exact startsEscape_append_eq (List.cons_ne_nil d w) c r s

theorem startsName_append (h : Joint w r s) (hw : ¬IsBare w) :
    startsName (w ++ r) = startsName (w ++ s) := by
  cases w with
  | nil => exact h.name
  | cons c w =>
    have hescape := h.startsEscape_append (mt .inl hw)
    rw [List.cons_append, List.cons_append] at hescape ⊢
    rw [startsName_cons, startsName_cons]
    by_cases hc : c = '-'
    · subst hc
      have hrest : w ≠ ['\\'] := fun hrest => hw (.inr (by rw [hrest]))
      rw [if_pos rfl, if_pos rfl, h.of_cons.startsEscape_append hrest,
        h.of_cons.append.any_head (passes_of (by decide))]
    · rw [if_neg hc, if_neg hc, hescape]

theorem split (h : Joint (v ++ w) r s) (hw : startsName (w ++ r) = startsName (w ++ s)) :
    Joint v (w ++ r) (w ++ s) := by
  cases w with
  | nil =>
    rw [List.append_nil] at h
    exact h
  | cons c w => exact ⟨h.of_append.append, hw, .inl⟩

end Joint

/-- What is left behind a text when `s` stands there for `r`: all of it, but for a blank that ends
an escape. -/
def Rest (r s s' : Text) : Prop := s' = s ∨ startsBlank s ∧ startsBlank r = false ∧ s' = s.drop 1

theorem Rest.eq {r s s' : Text} (h : Rest r s s') (hblank : startsBlank s → startsBlank r) :
    s' = s := by
  rcases h with h | ⟨hs, hr, -⟩
  · exact h
  · rw [hblank hs] at hr
    contradiction

theorem Rest.any_head {w r s s' : Text} (h : Rest r s s') (hj : Joint w r s) (hp : Passes p) :
    s'.head?.any p = r.head?.any p := by
  rcases h with rfl | ⟨hs, hr, rfl⟩
  · exact (hj.alike.any_head hp).symm
  · rcases hj.blank hs with hblank | ⟨hstops, -⟩
    · rw [hblank] at hr
      contradiction
    · have hmark : s.head?.any p = false := by
        cases s with
        | nil => contradiction
        | cons b s => exact hp.mark b (by simp [isMark, show isSpace b from hs])
      rw [hstops.any_head hp, hj.alike.any_head hp, hmark]

theorem exists_split {w r rest : Text} (h₁ : rest <:+ w ++ r) (h₂ : r <:+ rest) :
    ∃ v x, w = v ++ x ∧ rest = x ++ r := by
  obtain ⟨x, rfl⟩ := h₂
  obtain ⟨v, hv⟩ := h₁
  rw [← List.append_assoc] at hv
  exact ⟨v, x, (List.append_cancel_right hv).symm, rfl⟩

theorem drop_transfer {w r s : Text} {k : Nat} (hr : r ≠ []) (h : (w ++ r).drop k = r) :
    (w ++ s).drop k = s := by
  have hlength := congrArg List.length h
  have hpos := List.length_pos_iff.mpr hr
  rw [List.length_drop, List.length_append] at hlength
  obtain rfl : k = w.length := by omega
  exact List.drop_left

theorem dropWhile_append_of_head {v x : Text} (hv : ∀ c ∈ v, p c) (hx : x.head?.any p = false) :
    (v ++ x).dropWhile p = x := by
  rw [List.dropWhile_append_of_pos hv]
  cases x with
  | nil => rfl
  | cons c x => exact List.dropWhile_cons_of_neg (by simpa using hx)

theorem takeWhile_append_of_head {v x : Text} (hv : ∀ c ∈ v, p c) (hx : x.head?.any p = false) :
    (v ++ x).takeWhile p = v := by
  have hsplit := List.takeWhile_append_dropWhile (p := p) (l := v ++ x)
  rw [dropWhile_append_of_head hv hx] at hsplit
  exact List.append_cancel_right hsplit

theorem any_head_dropWhile (t : Text) : (t.dropWhile p).head?.any p = false := by
  have h := List.head?_dropWhile_not p t
  cases hd : t.dropWhile p with
  | nil => rfl
  | cons c u =>
    rw [hd] at h
    simpa using h

def hexes (t : Text) : Text := (t.take 6).takeWhile Text.isHexDigit

theorem steady_hexes : Steady hexes := by
  have h := (Steady.takeWhile passes_isHexDigit).take 6
  simp only [List.take_takeWhile] at h
  exact h

theorem hexes_append {ds x : Text} (hds : ∀ c ∈ ds, Text.isHexDigit c) (hlength : ds.length ≤ 6)
    (hx : ds.length = 6 ∨ x.head?.any Text.isHexDigit = false) : hexes (ds ++ x) = ds := by
  rw [hexes, ← List.take_takeWhile]
  rcases hx with hx | hx
  · rw [List.takeWhile_append_of_pos hds, ← hx, List.take_left]
  · rw [takeWhile_append_of_head hds hx, List.take_of_length_le hlength]

theorem exists_hexes (t : Text) :
    ∃ x, t = hexes t ++ x ∧ (∀ c ∈ hexes t, Text.isHexDigit c) ∧ (hexes t).length ≤ 6 ∧
    ((hexes t).length = 6 ∨ x.head?.any Text.isHexDigit = false) := by
  have htake : hexes t = (t.takeWhile Text.isHexDigit).take 6 := by
    unfold hexes
    rw [List.take_takeWhile]
  have hmem : ∀ c ∈ hexes t, Text.isHexDigit c := fun c hc => List.mem_takeWhile_imp hc
  have hle : (hexes t).length ≤ 6 := htake ▸ List.length_take_le 6 _
  obtain ⟨x, hx⟩ := steady_hexes.isPrefix t
  refine ⟨x, hx.symm, hmem, hle, ?_⟩
  by_cases hsix : (hexes t).length = 6
  · exact .inl hsix
  · have hall : hexes t = t.takeWhile Text.isHexDigit := by
      rw [htake, List.take_of_length_le]
      rw [htake, List.length_take] at hsix hle
      omega
    have hrest : x = t.dropWhile Text.isHexDigit := by
      have hsplit := List.takeWhile_append_dropWhile (p := Text.isHexDigit) (l := t)
      rw [← hall] at hsplit
      exact List.append_cancel_left (hx.trans hsplit.symm)
    exact .inr (hrest ▸ any_head_dropWhile t)

theorem escape_eq (t : Text) : escape t =
    if (hexes t).isEmpty then (t.head?.getD (Char.ofNat 0xfffd), t.drop 1)
    else (charOf (hexValue (hexes t)),
      if startsBlank (t.drop (hexes t).length) then (t.drop (hexes t).length).drop 1
        else t.drop (hexes t).length) := by
  cases t <;> rfl

theorem escape_plain {c : Char} (hc : Text.isHexDigit c = false) (t : Text) :
    escape (c :: t) = (c, t) := by
  have hnil : hexes ([] ++ c :: t) = [] :=
    hexes_append (by simp) (by simp) (.inr (by simpa using hc))
  rw [List.nil_append] at hnil
  rw [escape_eq, hnil]
  rfl

/-- The digits of an escape, ended by their number or by what follows. -/
structure Digits (ds t : Text) : Prop where
  ne_nil : ds ≠ []
  hex : ∀ c ∈ ds, Text.isHexDigit c
  length_le : ds.length ≤ 6
  ends : ds.length = 6 ∨ t.head?.any Text.isHexDigit = false

theorem Digits.escape_eq {ds t : Text} (h : Digits ds t) : escape (ds ++ t) =
    (charOf (hexValue ds), if startsBlank t then t.drop 1 else t) := by
  have hds : hexes (ds ++ t) = ds := hexes_append h.hex h.length_le h.ends
  rw [Style.escape_eq, hds, if_neg (mt List.isEmpty_iff.mp h.ne_nil), List.drop_left]

/-- All that an escape needs to know of what follows it. -/
structure Near (t u : Text) : Prop where
  nil : t = [] → u = []
  hex : t.head?.any Text.isHexDigit = u.head?.any Text.isHexDigit
  blank : startsBlank u → startsBlank t

theorem Near.of_head (h : t.head? = u.head?) : Near t u where
  nil ht := by
    rw [ht] at h
    exact List.head?_eq_none_iff.mp h.symm
  hex := by rw [h]
  blank hu := by rwa [startsBlank, h]

theorem Joint.near {w r s : Text} (h : Joint w r s)
    (hblank : startsBlank (w ++ s) → startsBlank (w ++ r)) :
    Near (w ++ r) (w ++ s) where
  nil hnil := by
    obtain ⟨rfl, rfl⟩ := List.append_eq_nil_iff.mp hnil
    exact h.alike.eq_nil
  hex := h.append.any_head passes_isHexDigit
  blank := hblank

theorem Digits.of_near {ds t u : Text} (h : Digits ds t) (htu : Near t u) : Digits ds u :=
  ⟨h.ne_nil, h.hex, h.length_le, h.ends.imp_right htu.hex.symm.trans⟩

theorem escape_cases (c : Char) (t : Text) :
    Text.isHexDigit c = false ∨ ∃ ds x, c :: t = ds ++ x ∧ Digits ds x := by
  obtain ⟨x, heq, hmem, hle, hends⟩ := exists_hexes (c :: t)
  cases hc : Text.isHexDigit c with
  | false => exact .inl rfl
  | true =>
    refine .inr ⟨hexes (c :: t), x, heq, ?_, hmem, hle, hends⟩
    unfold hexes
    rw [List.take_succ_cons, List.takeWhile_cons_of_pos hc]
    exact List.cons_ne_nil _ _

/-- An escape that takes all of `v` takes it whatever follows, unless `v` is nothing but digits. -/
theorem escape_inv {v r : Text} {e : Char} (h : escape (v ++ r) = (e, r)) (hv : v ≠ []) :
    (∀ s, escape (v ++ s) = (e, s)) ∨ Digits v r ∧ startsBlank r = false ∧
      e = charOf (hexValue v) := by
  obtain ⟨c, v, rfl⟩ := List.exists_cons_of_ne_nil hv
  rcases escape_cases c (v ++ r) with hc | ⟨ds, x, heq, hds⟩
  · rw [List.cons_append, escape_plain hc, Prod.mk.injEq] at h
    obtain ⟨rfl, hrest⟩ := h
    obtain rfl : v = [] := List.append_left_eq_self.mp hrest
    exact .inl (escape_plain hc)
  · rw [List.cons_append, heq, hds.escape_eq, Prod.mk.injEq] at h
    obtain ⟨rfl, hx⟩ := h
    split at hx
    · -- a blank ends the digits and belongs to them
      next hblank =>
      cases x with
      | nil => contradiction
      | cons b x =>
        obtain rfl : x = r := hx
        have hb : isSpace b := hblank
        have hword : c :: v = ds ++ [b] := List.append_cancel_right (heq.trans (by simp))
        refine .inl fun s => ?_
        have hds' : Digits ds (b :: s) := ⟨hds.ne_nil, hds.hex, hds.length_le, hds.ends⟩
        rw [hword, List.append_assoc, List.singleton_append, hds'.escape_eq]
        simp [startsBlank, hb]
    · next hblank =>
      obtain rfl : x = r := hx
      obtain rfl : c :: v = ds := List.append_cancel_right heq
      exact .inr ⟨hds, by simpa using hblank, rfl⟩

theorem escape_transfer {v s s' : Text} {e : Char} (h : escape (v ++ s) = (e, s)) (hs : Near s s') :
    escape (v ++ s') = (e, s') := by
  by_cases hv : v = []
  · subst hv
    by_cases hnil : s = []
    · rw [hs.nil hnil]
      rwa [hnil] at h
    · exact absurd (congrArg Prod.snd h) (ne_of_suffix_tail hnil (escape_suffix_tail s))
  · rcases escape_inv h hv with heq | ⟨hds, hblank, rfl⟩
    · exact heq s'
    · have hblank' : startsBlank s' = false := by
        cases hs' : startsBlank s' with
        | false => rfl
        | true =>
          rw [hs.blank hs'] at hblank
          contradiction
      rw [(hds.of_near hs).escape_eq, hblank']
      rfl

theorem escape_blank {v r s : Text} {e : Char} (h : escape (v ++ r) = (e, r)) (hv : v ≠ [])
    (hs : startsBlank s) :
    escape (v ++ s) = (e, s) ∨ escape (v ++ s) = (e, s.drop 1) := by
  rcases escape_inv h hv with heq | ⟨hds, -, rfl⟩
  · exact .inl (heq s)
  · obtain ⟨b, s, rfl⟩ : ∃ b s', s = b :: s' := by
      refine List.exists_cons_of_ne_nil ?_
      rintro rfl
      contradiction
    have hb : Text.isHexDigit b = false :=
      passes_isHexDigit.mark b (by simp [isMark, show isSpace b from hs])
    have hds' : Digits v (b :: s) := ⟨hds.ne_nil, hds.hex, hds.length_le, .inr hb⟩
    rw [hds'.escape_eq, if_pos hs]
    exact .inr rfl

theorem exists_escape_eq {w r s : Text} (hr : r <:+ (escape (w ++ r)).2) (hne : r ≠ [])
    (hj : Joint w r s) :
    ∃ e x, x.length ≤ w.length ∧ Joint x r s ∧ escape (w ++ r) = (e, x ++ r) ∧
      (escape (w ++ s) = (e, x ++ s) ∨
        x = [] ∧ startsBlank s ∧ startsBlank r = false ∧ escape (w ++ s) = (e, s.drop 1)) := by
  obtain ⟨v, x, rfl, hx⟩ := exists_split (escape_suffix (w ++ r)) hr
  have heq : escape (v ++ x ++ r) = ((escape (v ++ x ++ r)).1, x ++ r) := Prod.ext rfl hx
  refine ⟨_, x, by simp, hj.of_append, heq, ?_⟩
  rw [List.append_assoc] at heq ⊢
  rw [List.append_assoc]
  by_cases hblank : startsBlank (x ++ s) → startsBlank (x ++ r)
  · exact .inl (escape_transfer heq (hj.of_append.near hblank))
  · obtain ⟨hs, hr⟩ := Classical.not_imp.mp hblank
    cases x with
    | cons c x => exact absurd hs hr
    | nil =>
      have hv : v ≠ [] := by
        rintro rfl
        exact ne_of_suffix_tail hne (escape_suffix_tail r) (congrArg Prod.snd heq)
      have hr' : startsBlank r = false := by simpa using hr
      exact (escape_blank heq hv hs).imp_right fun h => ⟨rfl, hs, hr', h⟩

theorem eq_of_length_le {α : Type} {f : Nat → Text → α} (hnil : ∀ bound, f bound [] = f 0 [])
    (hcons : ∀ bound bound' c t, (∀ u : Text, u.length ≤ t.length → f bound u = f bound' u) →
      f (bound + 1) (c :: t) = f (bound' + 1) (c :: t)) {bound : Nat} (t : Text) (h :
    t.length ≤ bound) :
    f bound t = f t.length t := by
  induction bound using Nat.strongRecOn generalizing t with
  | ind bound ih =>
    cases t with
    | nil => exact hnil bound
    | cons c t =>
      cases bound with
      | zero => contradiction
      | succ bound =>
        have hle : t.length ≤ bound := Nat.le_of_succ_le_succ h
        exact hcons bound t.length c t fun u hu =>
          (ih bound (Nat.lt_succ_self _) u (Nat.le_trans hu hle)).trans
          (ih t.length (Nat.lt_succ_of_le hle) u hu).symm

theorem nameFrom_eq {bound : Nat} (t : Text) (h : t.length ≤ bound) :
    nameFrom bound t = name t := by
  refine eq_of_length_le (fun bound => by cases bound <;> rfl)
    (fun bound bound' c t hstep => ?_) t h
  simp only [nameFrom, hstep t (Nat.le_refl _), hstep (escape t).2 (escape_suffix t).length_le]

theorem name_cons (c : Char) (t : Text) : name (c :: t) =
    if isNameChar c then (c :: (name t).1, (name t).2)
    else if startsEscape (c :: t) then
      ((escape t).1 :: (name (escape t).2).1, (name (escape t).2).2)
    else ([], c :: t) := by
  have hbound : name (c :: t) = nameFrom (t.length + 1) (c :: t) := rfl
  rw [hbound]
  simp only [nameFrom, nameFrom_eq t (Nat.le_refl _),
    nameFrom_eq (escape t).2 (escape_suffix t).length_le]

theorem name_suffix_self (t : Text) : (name t).2 <:+ t := nameFrom_suffix _ t

theorem name_of_stops {t : Text} (h : Stops t) : name t = ([], t) := by
  cases t with
  | nil => rfl
  | cons c t =>
    have hback : (c == '\\') = false := beq_of_isMark (by decide) (h c rfl)
    rw [name_cons, passes_isNameChar.mark c (h c rfl), startsEscape_cons, hback]
    rfl

namespace IsBare

variable {w r : Text} (hw : IsBare w)

include hw

theorem append_ne (r : Text) : w ++ r ≠ r := by
  intro h
  rcases hw with rfl | rfl <;> exact absurd (List.append_left_eq_self.mp h) (by decide)

theorem name_cases (r : Text) : (name (w ++ r)).2 = '\\' :: r ∨ (name (w ++ r)).2 <:+ r.tail := by
  have hback : (name ('\\' :: r)).2 = '\\' :: r ∨ (name ('\\' :: r)).2 <:+ r.tail := by
    rw [name_cons, if_neg (by decide)]
    split
    · exact .inr ((name_suffix_self _).trans (escape_suffix_tail r))
    · exact .inl rfl
  rcases hw with rfl | rfl
  · exact hback
  · have hdash : name ('-' :: '\\' :: r) = ('-' :: (name ('\\' :: r)).1, (name ('\\' :: r)).2) := by
      rw [name_cons, if_pos (by decide)]
    rwa [List.cons_append, List.cons_append, List.nil_append, hdash]

theorem name_ne (hr : r ≠ []) : (name (w ++ r)).2 ≠ r := by
  rcases hw.name_cases r with heq | hsuffix
  · rw [heq]
    exact fun h => absurd (congrArg List.length h) (by simp)
  · exact ne_of_suffix_tail hr hsuffix

end IsBare

theorem of_name_eq {c : Char} {t : Text} (h : (name (c :: t)).2 = c :: t) :
    (name (c :: t)).1 = [] ∧ isNameChar c = false ∧ startsEscape (c :: t) = false := by
  rw [name_cons] at h ⊢
  by_cases hname : isNameChar c
  · rw [if_pos hname] at h
    exact absurd h (ne_of_suffix_tail (List.cons_ne_nil c t) (name_suffix_self t))
  · rw [if_neg hname] at h ⊢
    by_cases hescape : startsEscape (c :: t)
    · rw [if_pos hescape] at h
      exact absurd h
        (ne_of_suffix_tail (List.cons_ne_nil c t) ((name_suffix_self _).trans (escape_suffix t)))
    · rw [if_neg hescape]
      exact ⟨rfl, by simpa using hname, by simpa using hescape⟩

theorem name_transfer {w r s : Text} (h : (name (w ++ r)).2 = r) (hr : r ≠ []) (hj : Joint w r s) :
    ∃ s', Rest r s s' ∧ name (w ++ s) = ((name (w ++ r)).1, s') := by
  induction hlength : w.length using Nat.strongRecOn generalizing w with
  | ind k ih =>
    subst hlength
    cases w with
    | nil =>
      refine ⟨s, .inl rfl, ?_⟩
      obtain ⟨c, r, rfl⟩ := List.exists_cons_of_ne_nil hr
      obtain ⟨hnil, hname, hescape⟩ := of_name_eq h
      rw [List.nil_append, List.nil_append, hnil]
      cases s with
      | nil => rfl
      | cons d s =>
        have hd : isNameChar d = false := (hj.alike.any_head passes_isNameChar).symm.trans hname
        rw [name_cons, hd, ← hj.startsEscape_eq, hescape]
        rfl
    | cons c w =>
      rw [List.cons_append, name_cons] at h
      rw [List.cons_append, List.cons_append, name_cons, name_cons]
      by_cases hname : isNameChar c
      · simp only [if_pos hname] at h ⊢
        obtain ⟨s', hs', hlater⟩ := ih w.length (Nat.lt_succ_self _) h hj.of_cons rfl
        exact ⟨s', hs', by rw [hlater]⟩
      by_cases hescape : startsEscape (c :: (w ++ r))
      · simp only [if_neg hname, if_pos hescape] at h
        have hsuffix := name_suffix_self (escape (w ++ r)).2
        rw [h] at hsuffix
        -- an escape takes something, so it does not start right before `r`
        have hne : w ≠ [] := by
          rintro rfl
          exact ne_of_suffix_tail hr (hsuffix.trans (escape_suffix_tail r)) rfl
        have hescape' := startsEscape_append_eq hne c r s ▸ hescape
        simp only [if_neg hname, if_pos hescape, if_pos hescape']
        obtain ⟨e, x, hle, hjx, heq, heq'⟩ := exists_escape_eq hsuffix hr hj.of_cons
        rw [heq] at h ⊢
        rcases heq' with heq' | ⟨rfl, hs, hblank, heq'⟩
        · obtain ⟨s', hs', hlater⟩ := ih x.length (Nat.lt_succ_of_le hle) h hjx rfl
          exact ⟨s', hs', by rw [heq', hlater]⟩
        · -- the blank ends the escape, and the mark behind it the name
          have hstops : Stops (s.drop 1) := by
            rcases hjx.blank hs with hs | hs
            · rw [hs] at hblank
              contradiction
            · exact hs.1
          refine ⟨s.drop 1, .inr ⟨hs, hblank, rfl⟩, ?_⟩
          obtain ⟨d, r, rfl⟩ := List.exists_cons_of_ne_nil hr
          have hnil := (of_name_eq h).1
          rw [heq', name_of_stops hstops, List.nil_append, hnil]
      · simp only [if_neg hname, if_neg hescape] at h
        exact absurd (List.append_left_eq_self.mp h) (List.cons_ne_nil c w)

end Graft.Style
