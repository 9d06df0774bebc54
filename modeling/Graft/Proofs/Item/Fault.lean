import Graft.Proofs.Item.Function
import Graft.Proofs.Item.Structure
import Graft.Proofs.Shown

set_option autoImplicit false

/-!
Faults of a source that cannot be scanned. Each one points at the text it is about: a line and a
column that exist, and the rest of that line from there on, which starts with what the fault names.
A comment or literal that is blamed has no end; a bracket that is blamed as unbalanced is the first
token that does not answer the innermost bracket open before it, and one blamed as unclosed is the
innermost open one when the source is over.
-/

namespace Graft

namespace Text

theorem exists_splitOn_takeWhile (t : Text) :
    ∃ rest, t.splitOn '\n' = t.takeWhile (· != '\n') :: rest := by
  induction t with
  | nil => exact ⟨[], rfl⟩
  | cons c t ih =>
    obtain ⟨rest, hrest⟩ := ih
    by_cases hc : c = '\n'
    · exact ⟨splitOn '\n' t, by simp [splitOn, splitWhen, hc]⟩
    · refine ⟨rest, ?_⟩
      have hcut := splitOn_append (u := [c]) (by simpa using Ne.symm hc) hrest
      rw [List.takeWhile_cons_of_pos (by simpa using hc)]
      exact hcut

theorem exists_row (a z : Text) :
    ∃ ls last rest, a = ls.flatMap (· ++ ['\n']) ++ last ∧ (∀ l ∈ ls, '\n' ∉ l) ∧ '\n' ∉ last ∧
      (a ++ z).splitOn '\n' = ls ++ (last ++ z.takeWhile (· != '\n')) :: rest := by
  obtain ⟨ls, last, hlast, -, hsplit, happend⟩ := exists_splitOn_append a
  obtain ⟨rest, hrest⟩ := exists_splitOn_takeWhile z
  refine ⟨ls, last, rest, ?_, ?_, hlast, ?_⟩
  · rw [← unlines_concat, ← hsplit, unlines_splitOn]
  · intro l hl
    exact newline_not_mem_of_splitOn a l (by simp [hsplit, hl])
  · rw [happend, splitOn_append hlast hrest]

theorem count_newline {ls : List Text} (hls : ∀ l ∈ ls, '\n' ∉ l) :
    (ls.flatMap (· ++ ['\n'])).count '\n' = ls.length := by
  induction ls with
  | nil => rfl
  | cons l ls ih =>
    rw [List.forall_mem_cons] at hls
    rw [List.flatMap_cons, List.count_append, List.count_append,
      List.count_eq_zero_of_not_mem hls.1, ih hls.2, List.length_cons]
    simp [Nat.add_comm]

theorem position_append {ls : List Text} {last : Text} (hls : ∀ l ∈ ls, '\n' ∉ l)
    (hlast : '\n' ∉ last) (z : Text) :
    position (ls.flatMap (· ++ ['\n']) ++ last ++ z) (ls.flatMap (· ++ ['\n']) ++ last).length =
      (ls.length + 1, last.length + 1) := by
  have hstart : dropLastWhile (· != '\n') (ls.flatMap (· ++ ['\n']) ++ last) =
      ls.flatMap (· ++ ['\n']) := by
    have hall : ∀ c ∈ last, c != '\n' := fun c hc => bne_iff_ne.mpr fun heq => hlast (heq ▸ hc)
    rw [dropLastWhile_append_of_all _ hall]
    rcases List.eq_nil_or_concat ls with rfl | ⟨ls, l, rfl⟩
    · rfl
    · rw [List.concat_eq_append, List.flatMap_append, List.flatMap_singleton, ← List.append_assoc]
      exact dropLastWhile_concat _ rfl
  rw [position, Item.Function.lineStart_eq, List.take_left, hstart, List.count_append,
    count_newline hls, List.count_eq_zero_of_not_mem hlast, List.length_append,
    Nat.add_sub_cancel_left]

end Text

def Cause.signs : Cause → List Text
  | openComment => ["/*".toList]
  | openString => ["\"".toList]
  | openRawString => ["r".toList, "b".toList]
  | unbalanced c | unclosed c => [[c]]
  | style _ | script | suite => []

namespace Item

open Lexeme

/-- A comment or a literal opens the text, and nothing in it ends that. -/
inductive Endless : Cause → Text → Prop
  | comment {rest : Text} : afterComment? 0 rest = none → Endless .openComment ('/' :: '*' :: rest)
  | string {rest : Text} : afterString? rest = none → Endless .openString ('"' :: rest)
  | raw {marks : Nat} {opening body : Text} : RawOpening marks opening →
    afterRaw? marks body = none →
    Endless .openRawString (opening ++ body)

theorem endless_of_afterLetter {t : Text} {cause : Cause} (h : afterLetter t = .error cause) :
    Endless cause t := by
  unfold afterLetter at h
  split at h
  · rename_i marks body hraw
    split at h
    · contradiction
    · rename_i hend
      obtain ⟨opening, hopening, rfl⟩ := rawOpening_eq_some_iff.mp hraw
      obtain rfl := Except.error.inj h
      exact .raw hopening hend
  · split at h <;> contradiction

theorem endless_of_afterMask {prev : Option Char} {t : Text} {cause : Cause}
    (h : afterMask prev t = .error cause) :
    Endless cause t := by
  cases t with
  | nil => simp [afterMask, rawOpening?] at h
  | cons c cs =>
    cases front c cs with
    | string =>
      simp only [afterMask] at h
      split at h
      · contradiction
      · rename_i hend
        obtain rfl := Except.error.inj h
        exact .string hend
    | quote => simp [afterMask] at h
    | line => simp [afterMask] at h
    | block rest =>
      simp only [afterMask] at h
      split at h
      · contradiction
      · rename_i hend
        obtain rfl := Except.error.inj h
        exact .comment hend
    | other hstring hquote hline hblock =>
      rw [afterMask_other prev hstring hquote hline hblock] at h
      split at h
      · contradiction
      · exact endless_of_afterLetter h

theorem Endless.exists_sign {cause : Cause} {t : Text} (h : Endless cause t) :
    ∃ sign ∈ cause.signs, '\n' ∉ sign ∧ sign ≠ [] ∧ sign <+: t := by
  cases h with
  | comment => exact ⟨"/*".toList, by simp [Cause.signs], by decide, by decide, _, rfl⟩
  | string => exact ⟨"\"".toList, by simp [Cause.signs], by decide, by decide, _, rfl⟩
  | raw hopening =>
    cases hopening with
    | plain => exact ⟨"r".toList, by simp [Cause.signs], by decide, by decide, _, rfl⟩
    | byte => exact ⟨"b".toList, by simp [Cause.signs], by decide, by decide, _, rfl⟩

namespace Document

/-- The innermost bracket that is open behind some tokens: those after it match each other. -/
def Innermost (ts : List Token) (t : Token) : Prop :=
  (t.char = '\x7b' ∨ t.char = '(') ∧
    ∃ pre post, ts = pre ++ t :: post ∧ nest [] (post.map (·.char)) = some []

def Answers (ts : List Token) (c : Char) : Prop :=
  ∀ o, opener? c = some o → ∃ s, Innermost ts s ∧ s.char = o

def Nested (ts : List Token) : Prop := ∀ pre t post, ts = pre ++ t :: post → Answers pre t.char

namespace Pairing

variable {stack ts left : List Token} {pairs : List (Nat × Nat)}

theorem split {a b : List Token} (h : Pairing stack (a ++ b) pairs left) :
    ∃ pairs₁ mid pairs₂, Pairing stack a pairs₁ mid ∧ Pairing mid b pairs₂ left := by
  induction a generalizing stack pairs with
  | nil => exact ⟨[], stack, pairs, .done stack, h⟩
  | cons t a ih =>
    cases h with
    | pass hc h =>
      obtain ⟨pairs₁, mid, pairs₂, h₁, h₂⟩ := ih h
      exact ⟨pairs₁, mid, pairs₂, .pass hc h₁, h₂⟩
    | push ho hc h =>
      obtain ⟨pairs₁, mid, pairs₂, h₁, h₂⟩ := ih h
      exact ⟨pairs₁, mid, pairs₂, .push ho hc h₁, h₂⟩
    | pop ho h =>
      obtain ⟨pairs₁, mid, pairs₂, h₁, h₂⟩ := ih h
      exact ⟨_, mid, pairs₂, .pop ho h₁, h₂⟩

theorem nest_eq (h : Pairing stack ts pairs left) :
    nest (stack.map (·.char)) (ts.map (·.char)) = some (left.map (·.char)) := by
  induction h with
  | done => rfl
  | pass hc _ ih => simpa [nest, hc, opener?] using ih
  | push ho hc _ ih => simpa [nest, ho, hc] using ih
  | pop ho _ ih => simpa [nest, ho] using ih

/-- What is on top of the stack in the end was met on the way, and what follows it matches; or it
was there from the start, and all that was above it is closed. -/
theorem top_cases {t : Token} (h : Pairing stack ts pairs (t :: left))
    (hts : ∀ u ∈ ts, isStructural u.char) :
    Innermost ts t ∨ ∃ inner,
      stack = inner ++ t :: left ∧ nest (inner.map (·.char)) (ts.map (·.char)) = some [] := by
  generalize hleft : t :: left = top at h ⊢
  induction h with
  | done => exact .inr ⟨[], rfl, rfl⟩
  | @pass stack ts left' pairs u hc _ ih =>
    rcases ih (fun v hv => hts v (by simp [hv])) hleft with
      ⟨ho, pre, post, rfl, hpost⟩ | ⟨inner, rfl, hinner⟩
    · exact .inl ⟨ho, u :: pre, post, rfl, hpost⟩
    · exact .inr ⟨inner, rfl, by simpa [nest, hc, opener?] using hinner⟩
  | @push stack ts left' pairs u ho hc _ ih =>
    rcases ih (fun v hv => hts v (by simp [hv])) hleft with
      ⟨ho, pre, post, rfl, hpost⟩ | ⟨inner, heq, hinner⟩
    · exact .inl ⟨ho, u :: pre, post, rfl, hpost⟩
    · cases inner with
      | nil =>
        obtain ⟨rfl, rfl⟩ := List.cons.inj (heq.trans hleft.symm)
        exact .inl ⟨opens_of_structural (hts u (by simp)) ho hc, [], ts, rfl, hinner⟩
      | cons v inner =>
        obtain ⟨rfl, rfl⟩ := List.cons.inj heq
        exact .inr ⟨inner, rfl, by simpa [nest, ho, hc] using hinner⟩
  | @pop stack ts left' pairs top' u ho _ ih =>
    rcases ih (fun v hv => hts v (by simp [hv])) hleft with
      ⟨ho, pre, post, rfl, hpost⟩ | ⟨inner, rfl, hinner⟩
    · exact .inl ⟨ho, u :: pre, post, rfl, hpost⟩
    · exact .inr ⟨top' :: inner, rfl, by simpa [nest, ho] using hinner⟩

theorem innermost {t : Token} (h : Pairing [] ts pairs (t :: left))
    (hts : ∀ u ∈ ts, isStructural u.char) :
    Innermost ts t := by
  rcases h.top_cases hts with h | ⟨inner, heq, -⟩
  · exact h
  · simp at heq

theorem answered (h : Pairing [] ts pairs left) (hts : ∀ u ∈ ts, isStructural u.char) :
    Nested ts := by
  rintro pre t post rfl o ho
  obtain ⟨pairs₁, mid, pairs₂, h₁, h₂⟩ := h.split
  cases h₂ with
  | pass hc => simp [hc, opener?] at ho
  | push hnone => simp [hnone] at ho
  | pop htop =>
    refine ⟨_, h₁.innermost fun u hu => hts u (by simp [hu]), ?_⟩
    exact Option.some.inj (htop.symm.trans ho)

end Pairing

theorem Innermost.exists_nest {ts : List Token} {s : Token} {left : Text} (h : Innermost ts s)
    (hnest : nest [] (ts.map (·.char)) = some left) : ∃ outer, left = s.char :: outer := by
  obtain ⟨hs, pre, post, rfl, hpost⟩ := h
  have hopens : ∀ outer, nest outer (s.char :: post.map (·.char)) = some (s.char :: outer) := by
    intro outer
    have hstack := nest_append_stack hpost (s.char :: outer)
    rcases hs with hs | hs <;> simpa [nest, hs, opener?] using hstack
  rw [List.map_append, nest_append, List.map_cons] at hnest
  obtain ⟨outer, -, hleft⟩ := Option.bind_eq_some_iff.mp hnest
  exact ⟨outer, (Option.some.inj ((hopens outer).symm.trans hleft)).symm⟩

theorem pairing_of_error {stack ts : List Token} {t : Token} (h : pair stack ts = .error t) :
    ∃ pre post pairs left o, ts = pre ++ t :: post ∧ Pairing stack pre pairs left ∧
      opener? t.char = some o ∧
      (left.map (·.char)).head? ≠ some o := by
  induction ts generalizing stack with
  | nil => simp [pair] at h
  | cons u ts ih =>
    unfold pair at h
    split at h
    · rename_i ho
      split at h
      · rename_i hc
        obtain ⟨pre, post, pairs, left, o, rfl, hpre, hlast⟩ := ih h
        exact ⟨u :: pre, post, pairs, left, o, rfl, .pass (by simpa using hc) hpre, hlast⟩
      · rename_i hc
        obtain ⟨pre, post, pairs, left, o, rfl, hpre, hlast⟩ := ih h
        exact ⟨u :: pre, post, pairs, left, o, rfl, .push ho (by simpa using hc) hpre, hlast⟩
    · rename_i c ho
      split at h
      · obtain rfl := Except.error.inj h
        exact ⟨[], ts, [], [], c, rfl, .done _, ho, by simp⟩
      · rename_i top rest
        split at h
        · rename_i htop
          have htop : top.char = c := by simpa using htop
          cases hp : pair rest ts with
          | ok r => simp [hp, Bind.bind, Except.bind, pure, Except.pure] at h
          | error e =>
            obtain rfl : e = t := by simpa [hp, Bind.bind, Except.bind] using h
            obtain ⟨pre, post, pairs, left, o, rfl, hpre, hlast⟩ := ih hp
            exact ⟨u :: pre, post, _, left, o, rfl, .pop (htop ▸ ho) hpre, hlast⟩
        · rename_i htop
          obtain rfl := Except.error.inj h
          exact ⟨[], ts, [], top :: rest, c, rfl, .done _, ho, by simpa using htop⟩

/-- What a fault says of the source, cut in two where it points. -/
def Blames (before rest : Text) : Cause → Prop
  | .unbalanced c =>
    ∃ ls after, rest = c :: after ∧ Lexes none (before ++ [c]) (ls ++ [.plain c]) after ∧
    Nested (tokensFrom 0 ls) ∧ ¬Answers (tokensFrom 0 ls) c
  | .unclosed c => ∃ ls, Lexes none (before ++ rest) ls [] ∧ Nested (tokensFrom 0 ls) ∧
    Innermost (tokensFrom 0 ls) ⟨c, before.length⟩
  | cause => ∃ ls, Lexes none before ls rest ∧ Nested (tokensFrom 0 ls) ∧ Endless cause rest

/-- A fault points at a line and a column of the source, each counted from zero here. -/
structure Points (source : Text) (fault : Fault) (line column : Nat)
    (row before rest : Text) : Prop where
  place : fault.place = some (line + 1, column + 1)
  row_eq : (source.splitOn '\n')[line]? = some row
  column_lt : column < row.length
  near : row.drop column = fault.near
  near_ne_nil : fault.near ≠ []
  sign : ∃ sign ∈ fault.cause.signs, sign <+: fault.near
  source_eq : source = before ++ rest
  /-- The lines before, and what stands before the column. -/
  before_eq : before = ((source.splitOn '\n').take line).flatMap (· ++ ['\n']) ++ row.take column
  blame : Blames before rest fault.cause

theorem points_faultAt {before rest : Text} {cause : Cause} (sign : Text)
    (hsign : sign ∈ cause.signs) (hline : '\n' ∉ sign) (hne : sign ≠ []) (hstart : sign <+: rest)
    (hblame : Blames before rest cause) :
    ∃ line column row,
      Points (before ++ rest) (faultAt (before ++ rest) cause before.length) line column row
      before rest := by
  obtain ⟨ls, last, rows, hbefore, hls, hlast, hsplit⟩ := Text.exists_row before rest
  have hnear : (faultAt (before ++ rest) cause before.length).near =
      rest.takeWhile (· != '\n') := by
    simp [faultAt]
  have hstarts : sign <+: rest.takeWhile (· != '\n') := by
    obtain ⟨r, rfl⟩ := hstart
    have hall : ∀ c ∈ sign, c != '\n' := fun c hc => bne_iff_ne.mpr fun heq => hline (heq ▸ hc)
    rw [List.takeWhile_append_of_pos hall]
    exact List.prefix_append _ _
  have hrest : rest.takeWhile (· != '\n') ≠ [] :=
    fun hnil => hne (List.prefix_nil.mp (hnil ▸ hstarts))
  refine ⟨ls.length, last.length, last ++ rest.takeWhile (· != '\n'), ?_⟩
  constructor
  case place =>
    have hplace := Text.position_append hls hlast rest
    rw [← hbefore] at hplace
    exact congrArg some hplace
  case row_eq => simp [hsplit]
  case column_lt =>
    rw [List.length_append]
    exact Nat.lt_add_of_pos_right (List.length_pos_iff.mpr hrest)
  case near => rw [hnear, List.drop_left]
  case near_ne_nil => rwa [hnear]
  case sign => exact ⟨sign, hsign, by rwa [hnear]⟩
  case source_eq => rfl
  case before_eq => rw [hsplit, List.take_left, List.take_left, ← hbefore]
  case blame => exact hblame

theorem exists_of_tokensFrom {n : Nat} {ls : List Lexeme} {pre post : List Token} {t : Token}
    (h : tokensFrom n ls = pre ++ t :: post) :
    ∃ ls₁ ls₂, ls = ls₁ ++ .plain t.char :: ls₂ ∧
      tokensFrom n ls₁ = pre ∧ t.offset = n + (ls₁.flatMap Lexeme.text).length := by
  have hmem : t ∈ tokensFrom n ls := by simp [h]
  obtain ⟨ls₁, ls₂, rfl, hoffset, hs⟩ := exists_of_mem_tokensFrom hmem
  refine ⟨ls₁, ls₂, rfl, ?_, hoffset⟩
  have hnodup : (tokensFrom n (ls₁ ++ .plain t.char :: ls₂)).Nodup :=
    (tokensFrom_sorted n _).imp fun hlt heq => Nat.ne_of_lt hlt (congrArg Token.offset heq)
  rw [tokensFrom_append, tokensFrom, if_pos hs, ← hoffset] at h hnodup
  obtain ⟨-, hlater, hapart⟩ := List.nodup_append.mp hnodup
  have hbefore : t ∉ tokensFrom n ls₁ := fun hmem => hapart t hmem t List.mem_cons_self rfl
  exact ((List.append_cons_inj_of_notMem hbefore (List.nodup_cons.mp hlater).1).mp h).1

variable {ls : List Lexeme} {x z : Text}

theorem isStructural_of_mem {t : Token} (h : t ∈ tokensFrom 0 ls) : isStructural t.char := by
  obtain ⟨-, -, -, -, hs⟩ := exists_of_mem_tokensFrom h
  exact hs

theorem newline_not_structural {c : Char} (h : isStructural c) : '\n' ∉ [c] := by
  rw [List.mem_singleton]
  rintro rfl
  exact absurd h (by decide)

theorem points_unbalanced {t : Token} (hlexes : Lexes none x ls z)
    (h : pair [] (tokensFrom 0 ls) = .error t) :
    ∃ line column row before rest,
      Points (x ++ z) (faultAt (x ++ z) (.unbalanced t.char) t.offset) line column row
        before rest := by
  obtain ⟨pre, post, pairs, left, o, hts, hpairing, ho, hleft⟩ := pairing_of_error h
  obtain ⟨ls₁, ls₂, rfl, rfl, hoffset⟩ := exists_of_tokensFrom hts
  have hmem : t ∈ tokensFrom 0 (ls₁ ++ .plain t.char :: ls₂) := by simp [hts]
  rw [List.append_cons] at hlexes
  obtain ⟨u, v, rfl, hu, -⟩ := hlexes.split
  obtain rfl : ls₁.flatMap Lexeme.text ++ [t.char] = u := by simpa [Lexeme.text] using hu.text_eq
  have hblame : Blames (ls₁.flatMap Lexeme.text) (t.char :: (v ++ z)) (.unbalanced t.char) := by
    refine ⟨ls₁, v ++ z, rfl, hu, hpairing.answered fun u hu => isStructural_of_mem hu,
      fun hanswers => ?_⟩
    obtain ⟨s, hs, hchar⟩ := hanswers o ho
    obtain ⟨outer, houter⟩ := hs.exists_nest hpairing.nest_eq
    exact hleft (by rw [houter, hchar]; rfl)
  obtain ⟨line, column, row, hpoints⟩ := points_faultAt [t.char] (by simp [Cause.signs])
    (newline_not_structural (isStructural_of_mem hmem)) (by simp) ⟨_, rfl⟩ hblame
  rw [Nat.zero_add] at hoffset
  rw [hoffset, List.append_assoc, List.append_assoc]
  exact ⟨line, column, row, _, _, hpoints⟩

theorem points_unclosed {t : Token} {left : List Token} {pairs : List (Nat × Nat)}
    (hlexes : Lexes none x ls []) (h : pair [] (tokensFrom 0 ls) = .ok (pairs, t :: left)) :
    ∃ line column row before rest,
      Points x (faultAt x (.unclosed t.char) t.offset) line column row before rest := by
  have hpairing := pairing_of_pair h
  have hts : ∀ u ∈ tokensFrom 0 ls, isStructural u.char := fun u hu => isStructural_of_mem hu
  have hinnermost := hpairing.innermost hts
  have hmem : t ∈ tokensFrom 0 ls := by
    obtain ⟨-, pre, post, heq, -⟩ := hinnermost
    simp [heq]
  obtain ⟨ls₁, ls₂, hls, hoffset, hs⟩ := exists_of_mem_tokensFrom hmem
  rw [Nat.zero_add] at hoffset
  have hx : x = ls₁.flatMap Lexeme.text ++ t.char :: ls₂.flatMap Lexeme.text := by
    rw [← hlexes.text_eq, hls]
    simp [Lexeme.text]
  have hblame :
      Blames (ls₁.flatMap Lexeme.text) (t.char :: ls₂.flatMap Lexeme.text) (.unclosed t.char) :=
    ⟨ls, hx ▸ hlexes, hpairing.answered hts, hoffset ▸ hinnermost⟩
  obtain ⟨line, column, row, hpoints⟩ := points_faultAt [t.char] (by simp [Cause.signs])
    (newline_not_structural hs) (by simp) ⟨_, rfl⟩ hblame
  rw [hoffset, hx]
  exact ⟨line, column, row, _, _, hpoints⟩

theorem points_endless {cause : Cause} {left : List Token} {pairs : List (Nat × Nat)}
    (hlexes : Lexes none x ls z) (h : pair [] (tokensFrom 0 ls) = .ok (pairs, left))
    (hendless : Endless cause z) :
    ∃ line column row, Points (x ++ z) (faultAt (x ++ z) cause x.length) line column row x z := by
  obtain ⟨sign, hsign, hline, hne, hstart⟩ := hendless.exists_sign
  have hnested : Nested (tokensFrom 0 ls) :=
    (pairing_of_pair h).answered fun u hu => isStructural_of_mem hu
  refine points_faultAt sign hsign hline hne hstart ?_
  cases hendless with
  | comment hend => exact ⟨ls, hlexes, hnested, .comment hend⟩
  | string hend => exact ⟨ls, hlexes, hnested, .string hend⟩
  | raw hopening hend => exact ⟨ls, hlexes, hnested, .raw hopening hend⟩

/-- Whatever is wrong with a source, the fault points at it: its line and its column are there, the
rest of the line is what it quotes, and it starts with the comment, literal or bracket that is to
blame. -/
theorem scan_error_points {source : Text} {fault : Fault} (h : scan source = .error fault) :
    ∃ line column row before rest, Points source fault line column row before rest := by
  unfold scan at h
  generalize hread : Lexeme.read none source = r at h
  obtain ⟨ls, stop⟩ := r
  obtain ⟨x, z, rfl, hlexes, hstop⟩ := Lexes.exists_of_read hread
  simp only at h
  cases hpair : pair [] (tokensFrom 0 ls) with
  | error t =>
    rw [hpair] at h
    obtain rfl := Except.error.inj h
    exact points_unbalanced hlexes hpair
  | ok r =>
    obtain ⟨pairs, left⟩ := r
    rw [hpair] at h
    cases stop with
    | some cause =>
      obtain rfl := Except.error.inj h
      rw [hlexes.text_eq]
      obtain ⟨line, column, row, hpoints⟩ :=
        points_endless hlexes hpair (endless_of_afterMask hstop)
      exact ⟨line, column, row, x, z, hpoints⟩
    | none =>
      obtain rfl : z = [] := hstop
      rw [List.append_nil] at h ⊢
      cases left with
      | nil => contradiction
      | cons t left =>
        obtain rfl := Except.error.inj h
        exact points_unclosed hlexes hpair

theorem scan_error_of_map {source : Text} {fault : Fault}
    (h : (scan source).map (fun _ => ()) = .error fault) :
    scan source = .error fault := by
  cases hscan : scan source with
  | ok d => simp [hscan, Except.map] at h
  | error e => simpa [hscan, Except.map] using h

/-- A parenthesis that answers a brace, behind a comment over two lines and a string with another
one. -/
theorem scan_error_points_parenthesis :
    scan "f \x7b\n  /* \x7d\n */ \")\" ) \x7d\n".toList =
      .error ⟨.unbalanced ')', some (3, 9), ") \x7d".toList⟩ ∧
      ∃ line column row before rest, Points "f \x7b\n  /* \x7d\n */ \")\" ) \x7d\n".toList
        ⟨.unbalanced ')', some (3, 9), ") \x7d".toList⟩ line column row before rest := by
  have hscan : scan "f \x7b\n  /* \x7d\n */ \")\" ) \x7d\n".toList =
      .error ⟨.unbalanced ')', some (3, 9), ") \x7d".toList⟩ :=
    scan_error_of_map (by decide +kernel)
  exact ⟨hscan, scan_error_points hscan⟩

end Document

end Item

end Graft
