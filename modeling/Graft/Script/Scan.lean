import Graft.Text

set_option autoImplicit false

/-!
Reading JavaScript and TypeScript from the front of a text: blanks and comments, words, literals,
and the places where a semicolon may be left out. What a sign means depends on where it stands, so
there is no list of tokens; a parser asks for the token it can use.
-/

namespace Graft.Script

structure Span where
  start : Nat
  stop : Nat
  deriving DecidableEq, Repr, Inhabited

/-- What is left to read, what was left after the last token, and the length of the whole source. -/
structure Cursor where
  rest : Text
  afterLast : Text
  size : Nat

def Cursor.offset (s : Cursor) : Nat := s.size - s.rest.length

def Cursor.last (s : Cursor) : Nat := s.size - s.afterLast.length

def Cursor.ofText (source : Text) : Cursor := ⟨source, source, source.length⟩

abbrev Parser := StateT Cursor Option

def isSpace (c : Char) : Bool :=
  let n := c.toNat
  (9 ≤ n && n ≤ 13) || n == 32 || n == 0x85 || n == 0xa0 || n == 0x1680 ||
    (0x2000 ≤ n && n ≤ 0x200b) || n == 0x2028 || n == 0x2029 || n == 0x202f || n == 0x205f ||
    n == 0x2060 || n == 0x3000 || n == 0xfeff

def isPlainSpace (c : Char) : Bool := (9 ≤ c.toNat && c.toNat ≤ 13) || c == ' '

def isMark (c : Char) : Bool := ":;\x60\"'@#.,|^&<=>+-*/\\%?!~()[]\x7b\x7d".toList.contains c

def isWordChar (c : Char) : Bool := !(c.toNat < 0x20 || isSpace c || isMark c)

def isWordStart (c : Char) : Bool := isWordChar c && !Text.isDigit c

def endsLineComment (c : Char) : Bool :=
  c == '\n' || c == '\r' || c.toNat == 0x2028 || c.toNat == 0x2029

def afterBlock? : Text → Option Text
  | [] => none
  | '*' :: '/' :: cs => some cs
  | _ :: cs => afterBlock? cs

def afterComment? : Text → Option Text
  | '/' :: '/' :: cs => some (cs.dropWhile (!endsLineComment ·))
  | '/' :: '*' :: cs => afterBlock? cs
  | _ => none

/-- Comments and blanks in front: the rests of the source before and after each comment, and what
follows. -/
def extrasFrom : Nat → Text → List (Text × Text) × Text
  | 0, t => ([], t)
  | _, [] => ([], [])
  | bound + 1, c :: cs =>
    if isSpace c then extrasFrom bound cs
    else match afterComment? (c :: cs) with
      | some rest =>
        let (comments, result) := extrasFrom bound rest
        ((c :: cs, rest) :: comments, result)
      | none => ([], c :: cs)

/-- What follows blanks and comments, unless a stroke stands there that starts no comment. -/
def afterGap? : Nat → Text → Option Text
  | 0, t => some t
  | bound + 1, t =>
    match t.dropWhile isPlainSpace with
    | '/' :: '/' :: cs => afterGap? bound (cs.dropWhile (· != '\n'))
    | '/' :: '*' :: cs => afterGap? bound ((afterBlock? cs).getD [])
    | '/' :: _ => none
    | t => some t

/-- True where a new line cannot go on with the expression before it. With `inExpression`, brackets
go on with it; with `inSignature`, a brace does. -/
def startsAnew (inExpression inSignature : Bool) : Text → Bool
  | [] => true
  | '\x7b' :: _ => !inSignature
  | '(' :: _ | '[' :: _ => !inExpression
  | '+' :: cs => cs.head? == some '+'
  | '-' :: cs => cs.head? == some '-'
  | '!' :: cs => cs.head? != some '='
  | 'i' :: 'n' :: cs =>
    if cs.head?.any Text.isLetter then
      !(Text.startsWith cs "stanceof".toList && !(cs.drop 8).head?.any Text.isLetter)
    else false
  | c :: _ => !("\x60,.;*%><=?^|&/:".toList.contains c)

/-- Whether a semicolon is implied right here: at the end, before a closing brace, or at the end of
a line that the next one does not go on with. -/
def impliedAt (inExpression inSignature : Bool) : Text → Bool
  | [] => true
  | '\x7d' :: cs => (cs.dropWhile isPlainSpace).head? != some ':' || inExpression
  | '\n' :: cs =>
    match afterGap? (cs.length + 1) cs with
    | some t => startsAnew inExpression inSignature t
    | none => false
  | c :: cs => isPlainSpace c && impliedAt inExpression inSignature cs

def impliedRest? (inExpression inSignature : Bool) : Nat → Text → Option Text
  | 0, _ => none
  | bound + 1, t =>
    if impliedAt inExpression inSignature t then some t
    else (afterComment? (t.dropWhile isSpace)).bind (impliedRest? inExpression inSignature bound)

def impliedFrom (inExpression inSignature : Bool) (bound : Nat) (t : Text) : Bool :=
  (impliedRest? inExpression inSignature bound t).isSome

/-- What follows an escape, the backslash already read. -/
def afterEscape? : Text → Option Text
  | [] => none
  | 'x' :: a :: b :: cs => if Text.isHexDigit a && Text.isHexDigit b then some cs else none
  | 'u' :: '\x7b' :: cs =>
    let ds := cs.takeWhile Text.isHexDigit
    match cs.drop ds.length with
    | '\x7d' :: rest => if ds.isEmpty then none else some rest
    | _ => none
  | 'u' :: cs =>
    if (cs.take 4).length == 4 && (cs.take 4).all Text.isHexDigit then some (cs.drop 4) else none
  | 'x' :: _ => none
  | '\r' :: '\n' :: cs => some cs
  | _ :: cs => some cs

def afterString? (quote : Char) : Nat → Text → Option Text
  | 0, _ => none
  | _, [] => none
  | bound + 1, c :: cs =>
    if c == quote then some cs
    else if c == '\\' then (afterEscape? cs).bind (afterString? quote bound)
    else if c == '\n' || c == '\r' then none
    else afterString? quote bound cs

def afterClass? : Text → Option Text
  | [] => none
  | '\\' :: c :: cs => if c == '\n' then none else afterClass? cs
  | c :: cs => if c == ']' then some cs else if c == '\n' then none else afterClass? cs

def afterRegex? : Nat → Text → Option Text
  | 0, _ => none
  | _, [] => none
  | bound + 1, c :: cs =>
    if c == '/' then some (cs.dropWhile fun c => 'a' ≤ c && c ≤ 'z')
    else if c == '\n' then none
    else if c == '\\' then
      match cs with
      | d :: ds => if d == '\n' then none else afterRegex? bound ds
      | [] => none
    else if c == '[' then (afterClass? cs).bind (afterRegex? bound)
    else afterRegex? bound cs

def afterDigits (isDigit : Char → Bool) : Text → Text
  | '_' :: c :: cs => if isDigit c then afterDigits isDigit cs else '_' :: c :: cs
  | c :: cs => if isDigit c then afterDigits isDigit cs else c :: cs
  | [] => []

def afterExponent (t : Text) : Text :=
  match t with
  | c :: cs =>
    if c == 'e' || c == 'E' then
      let ds := match cs with
        | '+' :: ds | '-' :: ds => ds
        | ds => ds
      if ds.head?.any Text.isDigit then afterDigits Text.isDigit ds else t
    else t
  | [] => []

def isRadixDigit (mark c : Char) : Bool :=
  if mark == 'x' || mark == 'X' then Text.isHexDigit c
  else if mark == 'b' || mark == 'B' then c == '0' || c == '1'
  else (mark == 'o' || mark == 'O') && '0' ≤ c && c ≤ '7'

def afterNumber? (t : Text) : Option Text :=
  let dropN (t : Text) : Text := if t.head? == some 'n' then t.drop 1 else t
  match t with
  | '.' :: c :: cs =>
    if Text.isDigit c then some (afterExponent (afterDigits Text.isDigit cs)) else none
  | '0' :: m :: d :: cs =>
    if isRadixDigit m d then some (dropN (afterDigits (isRadixDigit m) cs)) else decimal t
  | t => decimal t
where
  decimal (t : Text) : Option Text :=
    if !t.head?.any Text.isDigit then none
    else match afterDigits Text.isDigit t with
      | 'n' :: rest => some rest
      | '.' :: rest =>
        let rest := if rest.head?.any Text.isDigit then afterDigits Text.isDigit rest else rest
        some (afterExponent rest)
      | rest => some (afterExponent rest)

def wordFrom : Nat → Text → Text × Text
  | 0, t => ([], t)
  | _, [] => ([], [])
  | bound + 1, c :: cs =>
    if isWordChar c then
      let (w, rest) := wordFrom bound cs
      (c :: w, rest)
    else if c == '\\' && cs.head? == some 'u' then
      match afterEscape? cs with
      | some rest =>
        let (w, rest') := wordFrom bound rest
        (c :: cs.take (cs.length - rest.length) ++ w, rest')
      | none => ([], c :: cs)
    else ([], c :: cs)

def word? (bound : Nat) (t : Text) : Option (Text × Text) :=
  match t with
  | [] => none
  | c :: _ =>
    if isWordStart c || c == '\\' then
      let (w, rest) := wordFrom bound t
      if w.isEmpty then none else some (w, rest)
    else none

namespace Parser

variable {α : Type}

def fail : Parser α := fun _ => none

def guardThat (b : Bool) : Parser PUnit := if b then pure ⟨⟩ else fail

/-- Moves to a later rest of the source; what is passed over was a token. -/
def moveTo (rest : Text) : Parser PUnit := fun s => some (⟨⟩, { s with rest, afterLast := rest })

def token (after : Text → Option Text) : Parser PUnit := do
  match after (← get).rest with
  | some rest => moveTo rest
  | none => fail

def extras : Parser (List Span) := fun s =>
  let (comments, rest) := extrasFrom s.size s.rest
  some (comments.map fun (a, b) => ⟨s.size - a.length, s.size - b.length⟩, { s with rest })

def ahead : Parser Text := fun s => some ((extrasFrom s.size s.rest).2, s)

def peek? : Parser (Option Char) := return (← ahead).head?

def atText? (s : String) : Parser Bool := return Text.startsWith (← ahead) s.toList

def accept (s : String) : Parser Bool := do
  let t ← ahead
  if Text.startsWith t s.toList then
    moveTo (t.drop s.length)
    return true
  else return false

def expect (s : String) : Parser PUnit := do guardThat (← accept s)

def peekWord? : Parser (Option Text) := do
  return (word? (← get).size (← ahead)).map (·.1)

def peekAfterWord : Parser Text := do
  let t ← ahead
  return ((word? (← get).size t).map (·.2)).getD t

def atWord? (w : String) : Parser Bool := return (← peekWord?) == some w.toList

def acceptWord (w : String) : Parser Bool := do
  match word? (← get).size (← ahead) with
  | some (w', rest) =>
    if w' == w.toList then
      moveTo rest
      return true
    else return false
  | none => return false

def expectWord (w : String) : Parser PUnit := do guardThat (← acceptWord w)

def word : Parser Text := do
  match word? (← get).size (← ahead) with
  | some (w, rest) =>
    moveTo rest
    return w
  | none => fail

/-- The span of what a parser reads, from its first token to its last. -/
def spanned (p : Parser α) : Parser (α × Span) := do
  let _ ← extras
  let start := (← get).offset
  let a ← p
  return (a, ⟨start, (← get).last⟩)

def attempt (p : Parser α) : Parser (Option α) := fun s =>
  match p s with
  | some (a, s') => some (some a, s')
  | none => some (none, s)

def many (p : Parser α) : Nat → Parser (List α)
  | 0 => pure []
  | bound + 1 => do
    match ← attempt p with
    | some a => return a :: (← many p bound)
    | none => return []

def commaSep1 (p : Parser α) (bound : Nat) : Parser (List α) := do
  let first ← p
  return first :: (← many (do expect ","; p) bound)

def implied (inExpression inSignature : Bool) : Parser Bool := do
  let s ← get
  return impliedFrom inExpression inSignature (s.size + 1) s.rest

/-- Passes over the comments behind which a semicolon is implied: they belong to what it ends. -/
def trailingComments : Parser PUnit := do
  let s ← get
  match impliedRest? false false (s.size + 1) s.rest with
  | some rest => moveTo rest
  | none => return ⟨⟩

def semicolon (inExpression inSignature : Bool) : Parser PUnit := do
  if ← implied inExpression inSignature then return ⟨⟩ else expect ";"

def literal (after : Text → Option Text) : Parser PUnit := do
  let _ ← extras
  token after

def string : Parser PUnit := literal fun
  | '"' :: cs => afterString? '"' (cs.length + 1) cs
  | '\'' :: cs => afterString? '\'' (cs.length + 1) cs
  | _ => none

def number : Parser PUnit := literal afterNumber?

def regex : Parser PUnit := literal fun
  | '/' :: cs =>
    if cs.head? == some '/' || cs.head? == some '*' then none else afterRegex? (cs.length + 1) cs
  | _ => none

def privateName : Parser PUnit := literal fun
  | '#' :: cs => (word? (cs.length + 1) cs).map (·.2)
  | _ => none

end Parser

end Graft.Script
