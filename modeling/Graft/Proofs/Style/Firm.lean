import Graft.Proofs.Style.Nodes

set_option autoImplicit false

/-!
Lexemes that stay the same whatever follows them: signs that always stand alone, and comments that
end. A block that is closed ends in one, so it can be read without what stands behind it.
-/

namespace Graft.Style

open Lexeme

variable {cs u : Text} {ts : List Token} {c : Char}

/-- Tokens that are written as they are read. -/
def isBare : Token → Bool
  | .blank _ | .literal _ | .comment _ | .opening _ | .closing _ => true
  | _ => false

theorem not_isBare {found : List Token × Text} {r : Text} {t : Token}
    (hbare : found.1.head?.any isBare = false) (h : found = (t :: ts, r)) : isBare t = false := by
  subst h
  exact hbare

theorem bare_stringTokens (quote : Char) (cs : Text) :
    (stringTokens quote cs).1.head?.any isBare = false := by
  rw [stringTokens_eq]
  cases (stringIn quote cs).2.1 <;> rfl

theorem bare_urlTokens (cs : Text) : (urlTokens cs).1.head?.any isBare = false := by
  rw [urlTokens_eq]
  cases (urlIn (cs.dropWhile isSpace)).2.1 <;> rfl

theorem bare_nameTokens (cs : Text) : (nameTokens cs).1.head?.any isBare = false := by
  rw [nameTokens_eq]
  split
  · split
    · exact bare_urlTokens _
    · rfl
  · rfl

theorem bare_numberTokens (shown cs : Text) :
    (numberTokens shown cs).1.head?.any isBare = false := by
  unfold numberTokens
  split
  · rfl
  · split <;> rfl

theorem bare_rangeTokens (cs : Text) : (rangeTokens cs).1.head?.any isBare = false := by
  rw [rangeTokens_eq]
  split
  · rfl
  · split <;> rfl

/-- What is read for such a token is what would be written, but for a comment that the end of the
text cuts off. -/
inductive Shows (c : Char) (cs : Text) : Token → Text → Prop where
  | plain {t : Token} {r : Text} (ht : Value.isComment t = false)
      (hblank : ∀ u, t = .blank u → ∀ d ∈ u, isSpace d) (h : c :: cs = t.write ++ r) :
      Shows c cs t r
  | comment {cs' t r : Text} (hc : c = '/') (hcs : cs = '*' :: cs') (h : commentFrom cs' = (t, r)) :
      Shows c cs (.comment t) r

theorem Shows.one {u t : Token} {rest r : Text} (h : Shows c cs u rest)
    (heq : ([u], rest) = (t :: ts, r)) :
    ts = [] ∧ Shows c cs t r := by
  obtain ⟨hts, rfl⟩ := Prod.mk.inj heq
  obtain ⟨rfl, rfl⟩ := List.cons.inj hts
  exact ⟨rfl, h⟩

theorem shows_of_signTokens {r : Text} {t : Token} (h : signTokens c cs = (t :: ts, r))
    (ht : isBare t) : ts = [] ∧ Shows c cs t r := by
  have hsign : ∀ {u : Token} {rest : Text}, c :: cs = u.write ++ rest → Value.isComment u = false →
      (∀ v, u ≠ .blank v) →
      ([u], rest) = (t :: ts, r) → ts = [] ∧ Shows c cs t r :=
    fun hu hcomment hblank => Shows.one (.plain hcomment (fun v hv => absurd hv (hblank v)) hu)
  have hfalse : isBare t = false → ts = [] ∧ Shows c cs t r :=
    fun hbare => absurd ht (by simp [hbare])
  unfold signTokens at h
  dsimp only at h
  split at h
  · next hc =>
    split at h
    · exact hfalse (not_isBare rfl h)
    · exact hsign (by rw [eq_of_beq hc]; rfl) rfl (by simp) h
  split at h
  · next hc =>
    split at h
    · exact hfalse (not_isBare rfl h)
    · exact hsign (by rw [eq_of_beq hc]; rfl) rfl (by simp) h
  split at h
  · exact hsign rfl rfl (by simp) h
  split at h
  · exact hsign rfl rfl (by simp) h
  split at h
  · exact hfalse (not_isBare (bare_stringTokens _ _) h)
  split at h
  · next hc =>
    obtain ⟨hslash, hstar⟩ := Bool.and_eq_true_iff.mp hc
    obtain ⟨cs', rfl⟩ := List.head?_eq_some_iff.mp (eq_of_beq hstar)
    exact Shows.one (.comment (eq_of_beq hslash) rfl rfl) h
  split at h
  · next hc =>
    obtain ⟨hless, htake⟩ := Bool.and_eq_true_iff.mp hc
    have hsplit := List.take_append_drop 3 cs
    rw [eq_of_beq htake] at hsplit
    exact hsign (by rw [eq_of_beq hless]; exact congrArg ('<' :: ·) hsplit.symm) rfl (by simp) h
  split at h
  · next hc =>
    obtain ⟨hbar, hhead⟩ := Bool.and_eq_true_iff.mp hc
    obtain ⟨cs', rfl⟩ := List.head?_eq_some_iff.mp (eq_of_beq hhead)
    exact hsign (by rw [eq_of_beq hbar]; rfl) rfl (by simp) h
  split at h
  · next hc =>
    obtain ⟨-, hhead⟩ := Bool.and_eq_true_iff.mp hc
    obtain ⟨cs', rfl⟩ := List.head?_eq_some_iff.mp (eq_of_beq hhead)
    exact hsign rfl rfl (by simp) h
  · exact hsign rfl rfl (by simp) h

theorem shows_of_front {r : Text} {t : Token} (h : front c cs = (t :: ts, r)) (ht : isBare t) :
    ts = [] ∧ Shows c cs t r := by
  have hfalse : isBare t = false → ts = [] ∧ Shows c cs t r :=
    fun hbare => absurd ht (by simp [hbare])
  unfold front at h
  dsimp only at h
  split at h
  · refine Shows.one (.plain rfl ?_ List.takeWhile_append_dropWhile.symm) h
    rintro u ⟨⟩ d hd
    exact List.mem_takeWhile_imp hd
  split at h
  · exact hfalse (not_isBare (bare_rangeTokens _) h)
  split at h
  · next htake =>
    have hsplit := List.take_append_drop 3 (c :: cs)
    rw [eq_of_beq htake] at hsplit
    refine Shows.one (.plain rfl ?_ hsplit.symm) h
    nofun
  split at h
  · exact hfalse (not_isBare (bare_nameTokens _) h)
  split at h
  · exact hfalse (not_isBare (bare_numberTokens _ _) h)
  · exact shows_of_signTokens h ht

/-- Lexemes that are read whatever follows them, and end in no blank. -/
structure Firm (ls : List Lexeme) : Prop where
  lexemes_append : ∀ r, lexemes (textOf ls ++ r) = ls ++ lexemes r
  last : ∀ c ∈ (textOf ls).getLast?, isSpace c = false

theorem firm_nil : Firm [] := ⟨fun _ => rfl, by simp [textOf]⟩

theorem textOf_append (ls ls' : List Lexeme) : textOf (ls ++ ls') = textOf ls ++ textOf ls' := by
  rw [textOf, List.flatMap_append]
  rfl

theorem tokensOf_append (ls ls' : List Lexeme) :
    tokensOf (ls ++ ls') = tokensOf ls ++ tokensOf ls' := by
  rw [tokensOf, List.flatMap_append]
  rfl

theorem tokensOf_cons (l : Lexeme) (ls : List Lexeme) :
    tokensOf (l :: ls) = l.tokens ++ tokensOf ls := rfl

theorem Firm.append {ls ls' : List Lexeme} (h : Firm ls) (h' : Firm ls') : Firm (ls ++ ls') where
  lexemes_append r := by
    rw [textOf_append, List.append_assoc, h.lexemes_append, h'.lexemes_append, List.append_assoc]
  last c hc := by
    rw [textOf_append, List.getLast?_append] at hc
    rcases Option.or_eq_some_iff.mp hc with hc | ⟨-, hc⟩
    · exact h'.last c hc
    · exact h.last c hc

theorem Firm.lexemes_eq {ls : List Lexeme} (h : Firm ls) : lexemes (textOf ls) = ls := by
  have hnil := h.lexemes_append []
  rwa [List.append_nil, lexemes_nil, List.append_nil] at hnil

theorem firm_write {t : Token} {w : Text} (ht : t.write = c :: w)
    (h : ∀ r, front c (w ++ r) = ([t], r)) (hlast : ∀ d ∈ t.write.getLast?, isSpace d = false) :
    Firm [⟨t.write, [t]⟩] := by
  have htext : textOf [⟨t.write, [t]⟩] = t.write := List.append_nil _
  refine ⟨fun r => ?_, by rwa [htext]⟩
  rw [htext, ht, List.cons_append, lexemes_cons (h r)]
  rfl

variable {l : Lexeme} {ls : List Lexeme} {r : Text}

theorem shows_of_lexemes {t : Token} (h : lexemes (l.text ++ r) = l :: ls) (ht : l.tokens = t :: ts)
    (hbare : isBare t) :
    ∃ c w, l.text = c :: w ∧ ts = [] ∧ Shows c (w ++ r) t r ∧ lexemes r = ls := by
  obtain ⟨c, w, hl, hfront, hrest⟩ := front_of_lexemes h
  rw [ht] at hfront
  obtain ⟨hts, hshows⟩ := shows_of_front hfront hbare
  exact ⟨c, w, hl, hts, hshows, hrest⟩

theorem Token.write_comment (t : Text) :
    (Token.comment t).write = "/*".toList ++ t ++ "*/".toList := rfl

theorem commentFrom_eq {t r : Text} (h : commentFrom cs = (t, r)) (hr : r ≠ []) :
    cs = t ++ '*' :: '/' :: r := by
  induction cs generalizing t with
  | nil => exact absurd (Prod.mk.inj h).2.symm hr
  | cons c cs ih =>
    rw [commentFrom_cons] at h
    split at h
    · next hc =>
      obtain ⟨hstar, hslash⟩ := Bool.and_eq_true_iff.mp hc
      obtain ⟨rfl, rfl⟩ := Prod.mk.inj h
      cases cs with
      | nil => contradiction
      | cons d cs => rw [eq_of_beq hstar, eq_of_beq (show d == '/' from hslash)]; rfl
    · obtain ⟨rfl, rfl⟩ := Prod.mk.inj h
      exact congrArg (c :: ·) (ih rfl)

section

variable (h : lexemes (l.text ++ r) = l :: ls)
include h

theorem eq_of_lexemes {t : Token} (ht : l.tokens = t :: ts)
    (hbare : isBare t) (hcomment : Value.isComment t → r ≠ []) : l = ⟨t.write, [t]⟩ := by
  obtain ⟨c, w, hl, rfl, hshows, -⟩ := shows_of_lexemes h ht hbare
  have htext : l.text ++ r = t.write ++ r := by
    rw [hl, List.cons_append]
    cases hshows with
    | plain _ _ heq => exact heq
    | comment hc hcs heq =>
      rw [hc, hcs, commentFrom_eq heq (hcomment rfl), Token.write_comment]
      simp
  calc
    l = ⟨l.text, l.tokens⟩ := rfl
    _ = ⟨t.write, [t]⟩ := by rw [List.append_cancel_right htext, ht]

theorem spaces_of_lexemes (ht : l.tokens = .blank u :: ts) : ∀ c ∈ u, isSpace c := by
  obtain ⟨c, w, -, -, hshows, -⟩ := shows_of_lexemes h ht rfl
  cases hshows with
  | plain _ hblank _ => exact hblank u rfl

theorem firm_of_comment {t : Text} (hr : r ≠ []) (ht : l.tokens = .comment t :: ts) : Firm [l] := by
  obtain ⟨c, w, hl, -, hshows, -⟩ := shows_of_lexemes h ht rfl
  obtain rfl := eq_of_lexemes h ht rfl fun _ => hr
  cases hshows with
  | plain hcomment _ _ => contradiction
  | @comment cs' _ _ hc hcs heq =>
    have hsuffix := commentFrom_suffix cs'
    rw [heq] at hsuffix
    obtain ⟨v, rfl⟩ := hsuffix
    obtain rfl : w = '*' :: v := List.append_cancel_right hcs
    refine firm_write (t := .comment t) hl (fun s => ?_) ?_
    · have hfront : ∀ u, front '/' ('*' :: u) = ([.comment (commentFrom u).1], (commentFrom u).2) :=
        fun _ => rfl
      rw [hc, List.cons_append, hfront, comment_transfer (by rw [heq]) hr s, heq]
    · rw [Token.write_comment, List.getLast?_append_of_ne_nil _ (by decide)]
      rintro d ⟨⟩
      rfl

theorem firm_of_hidden (ht : l.tokens = .literal u :: ts)
    (hu : u = "<!--".toList ∨ u = "-->".toList) : Firm [l] := by
  obtain rfl := eq_of_lexemes h ht rfl (by simp [Value.isComment])
  rcases hu with rfl | rfl
  · exact firm_write rfl (fun _ => rfl) (by rintro d ⟨⟩; rfl)
  · exact firm_write rfl (fun _ => rfl) (by rintro d ⟨⟩; rfl)

end

theorem front_closing (s : Text) : front '\x7d' s = ([.closing '\x7d'], s) := by
  unfold front
  dsimp only
  rw [startsRange_cons]
  rfl

theorem firm_of_closing (h : lexemes (textOf (ls ++ [l]) ++ r) = ls ++ [l] ++ lexemes r)
    (ht : l.tokens = [.closing '\x7d']) : Firm (ls ++ [l]) := by
  rw [textOf_append, List.append_assoc, List.append_assoc] at h
  have hrest := (lexemes_of_append h).2
  have htext : textOf ([l] ++ lexemes r) = l.text ++ r := by
    rw [textOf_append, textOf_lexemes, textOf, List.flatMap_singleton]
  rw [htext] at hrest
  obtain rfl := eq_of_lexemes hrest ht rfl (by simp [Value.isComment])
  have hbrace := firm_write (t := .closing '\x7d') (c := '\x7d') (w := []) rfl front_closing
    (by rintro d ⟨⟩; rfl)
  refine ⟨fun s => ?_, fun c hc => hbrace.last c ?_⟩
  swap
  · rw [textOf_append, List.getLast?_append] at hc
    exact hc
  rw [textOf_append, List.append_assoc, List.append_assoc]
  have hstops : ∀ t, Stops ('\x7d' :: t) := by
    rintro t c ⟨⟩
    rfl
  have hjoint : Joint (textOf ls) ('\x7d' :: r) ('\x7d' :: s) :=
    .of_stops (hstops r) (hstops s) (by simp) rfl (by simp [startsBlank, isSpace])
  exact (lexemes_append (h.trans (congrArg (ls ++ ·) (hbrace.lexemes_append r).symm)) hjoint
    (fun _ _ _ => rfl) (fun _ _ _ => rfl) (by simp [startsBlank, isSpace])).trans
    (congrArg (ls ++ ·) (hbrace.lexemes_append s))

theorem isOne_of_mem {t : Text} (h : l ∈ lexemes t) :
    (∃ u, l.tokens = [u]) ∨ ∃ u f, l.tokens = [u, f] ∧ isCutFlaw f := by
  induction t using lexemes_induction with
  | nil =>
    rw [lexemes_nil] at h
    contradiction
  | cons c w r found hfront ih =>
    rw [lexemes_cons hfront] at h
    rcases List.mem_cons.mp h with rfl | h
    · have hone := isOne_front c (w ++ r)
      rw [hfront] at hone
      exact hone.imp_right fun ⟨u, f, htokens, hf, _⟩ => ⟨u, f, htokens, hf⟩
    · exact ih h

theorem tokens_ne_nil {t : Text} (h : l ∈ lexemes t) : l.tokens ≠ [] := by
  rcases isOne_of_mem h with ⟨v, hv⟩ | ⟨v, f, hv, -⟩ <;> rw [hv] <;> exact List.cons_ne_nil _ _

theorem exists_head {t : Text} {u : Token} {ls' : List Lexeme} (h : lexemes t = ls ++ ls')
    (hts : tokensOf ls = u :: ts) :
    ∃ l ls₁ us, ls = l :: ls₁ ∧ l.tokens = u :: us ∧
      lexemes (l.text ++ textOf (ls₁ ++ ls')) = l :: (ls₁ ++ ls') := by
  cases ls with
  | nil => contradiction
  | cons l ls₁ =>
    obtain ⟨v, us, hv⟩ := List.exists_cons_of_ne_nil (tokens_ne_nil (h ▸ by simp : l ∈ lexemes t))
    rw [tokensOf_cons, hv] at hts
    obtain rfl := (List.cons.inj hts).1
    exact ⟨l, ls₁, us, rfl, hv, lexemes_self h⟩

theorem exists_last {t : Text} {u : Token} (h : ∀ l ∈ ls, l ∈ lexemes t)
    (hts : tokensOf ls = ts ++ [u]) (hu : isCutFlaw u = false) :
    ∃ ls₁ l, ls = ls₁ ++ [l] ∧ l.tokens = [u] := by
  rcases List.eq_nil_or_concat ls with rfl | ⟨ls₁, l, rfl⟩
  · simp [tokensOf] at hts
  · refine ⟨ls₁, l, List.concat_eq_append, ?_⟩
    have hl : l ∈ lexemes t := h l (by simp)
    rw [List.concat_eq_append, tokensOf_append, tokensOf_cons] at hts
    have hlast := congrArg List.getLast? hts
    rcases isOne_of_mem hl with ⟨v, hv⟩ | ⟨v, f, hv, hf⟩
    · rw [hv] at hlast ⊢
      simpa [tokensOf] using hlast
    · rw [hv] at hlast
      obtain rfl : f = u := by simpa [tokensOf] using hlast
      rw [hu] at hf
      contradiction

/-- Lexemes that are read as certain values, with others behind them; places do not matter. -/
def Tells (ls rest : List Lexeme) (vs : List Value) : Prop :=
  Value.Spells ((tokensOf ls).map (Prod.mk {})) ((tokensOf rest).map (Prod.mk {})) vs

section Values

variable {p q : Place} {t : Text} {vs ws : List Value} {rest ls' : List Lexeme}
variable {v : Value} {ms : List Value}

theorem map_placed (p : Place) (ls : List Lexeme) :
    (placed p ls).map (fun e => (({} : Place), e.2)) = (tokensOf ls).map (Prod.mk {}) := by
  rw [← map_snd_placed p, List.map_map]
  rfl

theorem tells_of_spells (h : Value.Spells (placed p ls) (placed q rest) vs) :
    Tells ls rest (Value.unplacedAll vs) := by
  refine ⟨?_, ?_⟩
  · rw [← map_placed p, ← Value.unplacedAll_nest, h.nest_eq]
  · rw [← map_placed p ls, ← map_placed q rest, Value.readAll_unplaced, ← Value.unplacedAll_reverse]
    refine h.closed.imp (fun hnil => ?_) fun hclosed => ?_
    · rw [hnil, List.map_nil]
    · rw [hclosed, List.map_nil]

theorem Tells.append (h : Tells ls (ls' ++ rest) vs) (h' : Tells ls' rest ws) :
    Tells (ls ++ ls') rest (vs ++ ws) := by
  unfold Tells at h h' ⊢
  rw [tokensOf_append, List.map_append] at h ⊢
  exact h.append h'

theorem Tells.of_rest (h : Tells ls rest vs) {rest' : List Lexeme}
    (hrest : tokensOf rest = [] → tokensOf rest' = []) :
    Tells ls rest' vs :=
  ⟨h.nest_eq,
    h.closed.imp_left fun hnil => by rw [hrest (List.map_eq_nil_iff.mp hnil), List.map_nil]⟩

theorem tokensOf_eq_nil (h : Value.nest [] [] (tokensFrom p (textOf ls)) = vs)
    (hls : lexemes (textOf ls) = ls) :
    tokensOf ls = [] ↔ vs = [] := by
  rw [← h, Value.nest_eq_nil_iff, tokensFrom_eq, hls, ← map_snd_placed p, List.map_eq_nil_iff]

theorem exists_tells (h : Value.nest [] [] (tokensFrom p t) = v :: vs) (hcut : Uncut vs) :
    ∃ ls ls',
      lexemes t = ls ++ ls' ∧ Value.Chunk (placed (p.after (textOf ls)) ls') (placed p ls) v ∧
      Tells ls ls' [v.unplaced] ∧
        Value.nest [] [] (tokensFrom (p.after (textOf ls)) (textOf ls')) = vs := by
  obtain ⟨ts, ts', heq, hchunk, hspells, hvs⟩ := Value.exists_chunk h
  obtain ⟨ls, ls', hlexemes, rfl, rfl⟩ := exists_of_tokensFrom_eq heq (hcut.of_nest hvs)
  refine ⟨ls, ls', hlexemes, hchunk, tells_of_spells hspells, ?_⟩
  rw [tokensFrom_eq, (lexemes_of_append hlexemes).2, hvs]

theorem exists_tells_of_bare {q : Place} {u : Token}
    (h : Value.nest [] [] (tokensFrom p t) = .token q u :: vs) (hcut : Uncut vs) (hu : isBare u) :
    ∃ l ls', lexemes t = l :: ls' ∧ l.tokens = [u] ∧ Tells [l] ls' [.token {} u] ∧
      Value.nest [] [] (tokensFrom (p.after (textOf [l])) (textOf ls')) = vs := by
  obtain ⟨ls, ls', heq, hchunk, htells, hvs⟩ := exists_tells h hcut
  have htokens : tokensOf ls = [u] := by
    rw [← map_snd_placed p]
    generalize placed p ls = ts at hchunk
    generalize hv : Value.token q u = v at hchunk
    cases hchunk with
    | alone halone =>
      rcases halone with rfl | ⟨c, -, rfl⟩
      · exact congrArg (fun u => [u]) (Value.token.inj hv).2.symm
      · rw [(Value.token.inj hv).2] at hu
        contradiction
    | bracket p name c inside hclosed => cases name <;> contradiction
  obtain ⟨l, ls₁, us, rfl, hl, hlexemes⟩ := exists_head heq htokens
  obtain ⟨c, w, -, rfl, -⟩ := shows_of_lexemes hlexemes hl hu
  rw [tokensOf_cons, hl] at htokens
  obtain rfl : ls₁ = [] := by
    cases ls₁ with
    | nil => rfl
    | cons m ls₁ =>
      have hnil : m.tokens ++ tokensOf ls₁ = [] := (List.cons.inj htokens).2
      exact absurd (List.append_eq_nil_iff.mp hnil).1
        (tokens_ne_nil (heq ▸ by simp : m ∈ lexemes t))
  exact ⟨l, ls', heq, hl, htells, hvs⟩

theorem exists_of_isHidden {m : Value} (h : isHidden m) :
    ∃ q u, m = .token q (.literal u) ∧ (u = "<!--".toList ∨ u = "-->".toList) := by
  have hliteral : ∀ {s : String}, m.isLiteral s → ∃ q, m = .token q (.literal s.toList) := by
    intro s hs
    unfold Value.isLiteral at hs
    split at hs
    · next p t => exact ⟨p, by rw [eq_of_beq hs]⟩
    · contradiction
  rcases Bool.or_eq_true_iff.mp h with h | h
  · obtain ⟨q, rfl⟩ := hliteral h
    exact ⟨q, _, rfl, .inl rfl⟩
  · obtain ⟨q, rfl⟩ := hliteral h
    exact ⟨q, _, rfl, .inr rfl⟩

theorem Uncut.append_hidden (h : Uncut vs) (hms : ∀ m ∈ ms, isHidden m) : Uncut (ms ++ vs) := by
  cases ms with
  | nil => exact h
  | cons m ms =>
    intro q f heq
    obtain ⟨q', u, rfl, -⟩ := exists_of_isHidden (hms m List.mem_cons_self)
    obtain ⟨-, rfl⟩ := Value.token.inj (List.cons.inj heq).1
    rfl

theorem exists_tells_of_hidden (h : Value.nest [] [] (tokensFrom p t) = ms ++ vs)
    (hms : ∀ m ∈ ms, isHidden m) (hcut : Uncut vs) :
    ∃ ls ls', lexemes t = ls ++ ls' ∧ Firm ls ∧ Tells ls ls' (Value.unplacedAll ms) ∧
      Value.nest [] [] (tokensFrom (p.after (textOf ls)) (textOf ls')) = vs := by
  induction ms generalizing p t with
  | nil =>
    exact ⟨[], lexemes t, rfl, firm_nil, ⟨Value.nest_top [], .inr rfl⟩,
      by rw [textOf_lexemes]; exact h⟩
  | cons m ms ih =>
    obtain ⟨hm, hms'⟩ := List.forall_mem_cons.mp hms
    obtain ⟨q, u, rfl, hu⟩ := exists_of_isHidden hm
    obtain ⟨l, ls', hlexemes, hl, htells, hrest⟩ :=
      exists_tells_of_bare h (hcut.append_hidden hms') rfl
    obtain ⟨ls₁, ls₂, heq, hfirm, htells', hvs⟩ := ih hrest hms'
    obtain rfl : ls' = ls₁ ++ ls₂ := by rw [← heq, lexemes_tail hlexemes]
    have hfirst : lexemes (l.text ++ textOf (ls₁ ++ ls₂)) = l :: (ls₁ ++ ls₂) :=
      lexemes_self hlexemes
    refine ⟨l :: ls₁, ls₂, hlexemes, (firm_of_hidden hfirst hl hu).append hfirm,
      htells.append htells', ?_⟩
    rw [← Place.after_append, ← textOf_append] at hvs
    exact hvs

theorem exists_tells_of_comment {q : Place} {u : Text}
    (h : Value.nest [] [] (tokensFrom p t) = .token q (.comment u) :: vs) (hcut : Uncut vs)
    (hvs : vs ≠ []) :
    ∃ l ls', lexemes t = l :: ls' ∧ Firm [l] ∧ Tells [l] ls' [.token {} (.comment u)] ∧
      Value.nest [] [] (tokensFrom (p.after (textOf [l])) (textOf ls')) = vs := by
  obtain ⟨l, ls', hlexemes, hl, htells, hrest⟩ := exists_tells_of_bare h hcut rfl
  refine ⟨l, ls', hlexemes, firm_of_comment (lexemes_self hlexemes) ?_ hl, htells, hrest⟩
  intro hnil
  change textOf ls' = [] at hnil
  rw [hnil, tokensFrom, Value.nest_eq_nil_iff.mpr rfl] at hrest
  exact hvs hrest.symm

theorem Value.Chunk.of_braces {rest ts : List (Place × Token)} (h : Value.Chunk rest ts v)
    (hv : v.isBraces) :
    ∃ p ts', ts = (p, .opening '\x7b') :: ts' ∧
      (rest ≠ [] → ∃ ts'' q, ts' = ts'' ++ [(q, .closing '\x7d')]) := by
  cases h with
  | alone halone => rcases halone with rfl | ⟨c, -, rfl⟩ <;> contradiction
  | @bracket p name c ts inside hclosed =>
    cases name with
    | some n => contradiction
    | none =>
      obtain rfl : c = '\x7b' := by
        unfold Value.isBraces Value.bracketed at hv
        split at hv
        · next heq => exact (Value.block.inj heq).2.1
        · contradiction
      exact ⟨p, ts, rfl, hclosed⟩

theorem exists_tells_of_braces {block : Value} (h : Value.nest [] [] (tokensFrom p t) = block :: vs)
    (hcut : Uncut vs) (hblock : block.isBraces) :
    ∃ ls ls', lexemes t = ls ++ ls' ∧ (textOf ls).head? = some '\x7b' ∧
      Tells ls ls' [block.unplaced] ∧
      Value.nest [] [] (tokensFrom (p.after (textOf ls)) (textOf ls')) = vs ∧
      (vs ≠ [] → ∃ ls₁ l, ls = ls₁ ++ [l] ∧ l.tokens = [.closing '\x7d']) := by
  obtain ⟨ls, ls', heq, hchunk, htells, hvs⟩ := exists_tells h hcut
  obtain ⟨p', ts, hts, hclosed⟩ := hchunk.of_braces hblock
  have htokens : tokensOf ls = .opening '\x7b' :: ts.map (·.2) := by
    rw [← map_snd_placed p, hts, List.map_cons]
  refine ⟨ls, ls', heq, ?_, htells, hvs, fun hne => ?_⟩
  · obtain ⟨l, ls₁, us, rfl, hl, hlexemes⟩ := exists_head heq htokens
    rw [eq_of_lexemes hlexemes hl rfl (by simp [Value.isComment])]
    rfl
  · have hrest : placed (p.after (textOf ls)) ls' ≠ [] := by
      intro hnil
      rw [tokensFrom_eq, (lexemes_of_append heq).2, hnil, Value.nest_eq_nil_iff.mpr rfl] at hvs
      exact hne hvs.symm
    obtain ⟨ts', q', rfl⟩ := hclosed hrest
    rw [List.map_append, ← List.cons_append] at htokens
    exact exists_last (fun l hl => heq ▸ List.mem_append_left ls' hl) htokens rfl

end Values

end Graft.Style
