import Graft.Text.Identifier
import Graft.Text.Lines

set_option autoImplicit false

/-!
The tokens of a Python source: words, numbers, strings and operators, the ends of logical lines, and
the steps of indentation. Lines end at a newline here; other line ends are made plain beforehand.
-/

namespace Graft.Suite

inductive TokenKind where
  | newline
  | indent
  | dedent
  | name
  | number
  | string
  | op
  | finish
  deriving DecidableEq, Repr, Inhabited

/-- A token, the line it starts on, its column in bytes, and the line it ends on. -/
structure Token where
  kind : TokenKind
  text : Text
  line : Nat
  column : Nat
  stop : Nat
  deriving DecidableEq, Repr, Inhabited

namespace Token

/-- A place in a source: line from one, column in bytes of UTF-8 from zero. -/
structure Spot where
  line : Nat := 1
  column : Nat := 0
  deriving DecidableEq, Repr

def Spot.next (s : Spot) (c : Char) : Spot :=
  if c == '\n' then ⟨s.line + 1, 0⟩ else { s with column := s.column + c.utf8Size }

def Spot.after (s : Spot) (t : Text) : Spot := t.foldl Spot.next s

def isNameStart (c : Char) : Bool := Text.isLetter c || c == '_' || 128 ≤ c.toNat

def isNameChar (c : Char) : Bool := isNameStart c || Text.isDigit c

def stringMarks : List Text := ["", "b", "u", "r", "f", "br", "rb", "fr", "rf"].map String.toList

def markLength? (t : Text) : Option Nat :=
  let mark := (t.take 2).takeWhile Text.isLetter
  let quoteAt (n : Nat) : Bool := (t.drop n).head?.any fun c => c == '"' || c == '\''
  if quoteAt mark.length && stringMarks.contains (mark.map Text.lowerAscii) then some mark.length
  else none

def shortEnd? (quote : Char) : Text → Option Nat
  | [] => none
  | '\\' :: _ :: rest => (shortEnd? quote rest).map (· + 2)
  | c :: rest =>
    if c == quote then some 1 else if c == '\n' then none else (shortEnd? quote rest).map (· + 1)

def longEnd? (quote : Char) : Text → Option Nat
  | [] => none
  | '\\' :: _ :: rest => (longEnd? quote rest).map (· + 2)
  | c :: rest =>
    if [quote, quote, quote].isPrefixOf (c :: rest) then some 3
    else (longEnd? quote rest).map (· + 1)

def quotedLength? (t : Text) : Option Nat :=
  match t with
  | [] => none
  | q :: rest =>
    if [q, q].isPrefixOf rest then (longEnd? q (rest.drop 2)).map (· + 3)
    else (shortEnd? q rest).map (· + 1)

def afterDigits? (isDigit : Char → Bool) : Text → Option Text
  | c :: '_' :: rest => if isDigit c then afterDigits? isDigit rest else none
  | [c] => if isDigit c then some [] else none
  | c :: d :: rest =>
    if isDigit c then
      if isDigit d then afterDigits? isDigit (d :: rest) else some (d :: rest)
    else none
  | [] => none

def endsNumber (rest : Text) : Bool :=
  let words := ["and", "else", "for", "if", "in", "is", "or", "not"]
  match rest with
  | [] => true
  | c :: _ => !isNameChar c || words.any fun w => w.toList.isPrefixOf rest

def closeNumber? (rest : Text) : Option Text := if endsNumber rest then some rest else none

def afterUnit? (rest : Text) : Option Text :=
  match rest with
  | 'j' :: r | 'J' :: r => closeNumber? r
  | r => closeNumber? r

def afterExponent? (rest : Text) : Option Text :=
  match rest with
  | e :: more =>
    if e == 'e' || e == 'E' then
      match more with
      | s :: digits =>
        if s == '+' || s == '-' then (afterDigits? Text.isDigit digits).bind afterUnit?
        else if Text.isDigit s then (afterDigits? Text.isDigit more).bind afterUnit?
        else closeNumber? rest
      | [] => none
    else afterUnit? rest
  | [] => some []

def afterPoint? (rest : Text) : Option Text :=
  if rest.head?.any Text.isDigit then (afterDigits? Text.isDigit rest).bind afterExponent?
  else afterExponent? rest

def afterRadix? (isDigit : Char → Bool) (rest : Text) : Option Text := do
  let rest := match rest with
    | '_' :: r => r
    | r => r
  let after ← afterDigits? isDigit rest
  if after.head?.any Text.isDigit then none else closeNumber? after

def afterDecimal? (t : Text) : Option Text := do
  let rest ← afterDigits? Text.isDigit t
  let digits := (t.take (t.length - rest.length)).filter (· != '_')
  match rest with
  | '.' :: r => afterPoint? r
  | c :: _ =>
    if c == 'e' || c == 'E' || c == 'j' || c == 'J' then afterExponent? rest
    else if digits.head? == some '0' && digits.any (· != '0') then none
    else closeNumber? rest
  | [] => if digits.head? == some '0' && digits.any (· != '0') then none else some []

def afterNumber? (t : Text) : Option Text :=
  match t with
  | '0' :: 'x' :: r | '0' :: 'X' :: r => afterRadix? Text.isHexDigit r
  | '0' :: 'o' :: r | '0' :: 'O' :: r => afterRadix? (fun c => '0' ≤ c && c ≤ '7') r
  | '0' :: 'b' :: r | '0' :: 'B' :: r => afterRadix? (fun c => c == '0' || c == '1') r
  | '.' :: r => afterPoint? r
  | t => afterDecimal? t

def operators : List Text :=
  ["**=", "//=", ">>=", "<<=", "...", "!=", "%=", "&=", "**", "*=", "+=", "-=", "->",
    "//", "/=", ":=", "<<", "<=", "<>", "==", ">=", ">>", "@=", "^=", "|=", "%", "&", "(", ")", "*",
    "+", ",", "-", ".", "/", ":", ";", "<", "=", ">", "@", "[", "]", "^", "\x7b", "|", "\x7d",
    "~"].map String.toList

def closer? : Char → Option Char
  | '(' => some ')'
  | '[' => some ']'
  | '\x7b' => some '\x7d'
  | _ => none

def isCloser (c : Char) : Bool := c == ')' || c == ']' || c == '\x7d'

/-- The closing brackets still awaited, innermost first, after an operator. At most two hundred
brackets may be open. -/
def bracketsAfter? (awaited : List Char) (op : Text) : Option (List Char) :=
  match op with
  | [c] =>
    match closer? c with
    | some d => if awaited.length < 200 then some (d :: awaited) else none
    | none =>
      if isCloser c then
        match awaited with
        | d :: rest => if c == d then some rest else none
        | [] => none
      else some awaited
  | _ => some awaited

/-- The kind of the token at the front of a text that starts with no blank, and what follows it. -/
def read? (t : Text) : Option (TokenKind × Text) :=
  match t with
  | [] => none
  | c :: rest =>
    match markLength? t with
    | some n => (quotedLength? (t.drop n)).map fun k => (.string, t.drop (n + k))
    | none =>
      if isNameStart c then
        let word := t.takeWhile isNameChar
        if Text.isIdentifier word then some (.name, t.drop word.length) else none
      else if Text.isDigit c || (c == '.' && rest.head?.any Text.isDigit) then
        (afterNumber? t).map fun r => (.number, r)
      else (operators.find? fun o => o.isPrefixOf t).map fun o => (.op, t.drop o.length)

/-- The width of an indentation, with tabs to the next eighth column and with tabs as one. -/
structure Margin where
  wide : Nat := 0
  narrow : Nat := 0
  /-- The width at the first backslash, if that is not zero: it counts for the lines it joins. -/
  joined : Nat := 0
  deriving DecidableEq, Repr

def Margin.level (m : Margin) : Nat × Nat :=
  if m.joined == 0 then (m.wide, m.narrow) else (m.joined, m.joined)

/-- The blanks at the start of a line, with what follows them. A backslash joins the next line,
which has to be there. -/
def margin? : Margin → Text → Option (Margin × Text)
  | m, ' ' :: rest => margin? { m with wide := m.wide + 1, narrow := m.narrow + 1 } rest
  | m, '\t' :: rest => margin? { m with wide := (m.wide / 8 + 1) * 8, narrow := m.narrow + 1 } rest
  | m, '\x0c' :: rest => margin? { m with wide := 0, narrow := 0 } rest
  | m, '\\' :: rest =>
    match rest with
    | '\n' :: c :: more =>
      margin? (if m.joined == 0 then { m with joined := m.wide } else m) (c :: more)
    | _ => none
  | m, t => some (m, t)

abbrev Levels := List (Nat × Nat)

def closeLevels (wide : Nat) : Levels → Nat × Levels
  | [] => (0, [])
  | l :: ls =>
    if wide < l.1 then let (n, rest) := closeLevels wide ls; (n + 1, rest) else (0, l :: ls)

/-- The steps of indentation at a new line: one in, some out, or none. Both widths have to agree on
the direction. -/
def levels? (levels : Levels) (level : Nat × Nat) : Option (List TokenKind × Levels) :=
  let top := levels.head?.getD (0, 0)
  if level.1 == top.1 then if level.2 == top.2 then some ([], levels) else none
  else if top.1 < level.1 then
    if top.2 < level.2 && levels.length < 99 then some ([.indent], level :: levels) else none
  else
    let (n, rest) := closeLevels level.1 levels
    if rest.head?.getD (0, 0) == level then some (List.replicate n .dedent, rest) else none

structure State where
  spot : Spot := {}
  levels : Levels := []
  awaited : List Char := []
  atLineStart : Bool := true
  /-- True of a line that holds no token yet and whose end does not count. -/
  blank : Bool := false

def isSkipped (c : Char) : Bool := c == ' ' || c == '\t' || c == '\x0c'

def scan : Nat → State → Text → List Token → Option (List Token)
  | 0, _, _, _ => none
  | fuel + 1, s, t, out =>
    let make (kind : TokenKind) (text : Text) : Token :=
      ⟨kind, text, s.spot.line, s.spot.column, (s.spot.after text).line⟩
    let skip (n : Nat) : State := { s with spot := s.spot.after (t.take n) }
    if s.atLineStart then
      match margin? {} t with
      | none => none
      | some (m, rest) =>
        let moved := { skip (t.length - rest.length) with atLineStart := false }
        if rest.head?.any fun c => c == '#' || c == '\n' then
          scan fuel { moved with blank := true } rest out
        else if !s.awaited.isEmpty then scan fuel { moved with blank := false } rest out
        else do
          let (steps, levels) ← levels? s.levels m.level
          let tokens : List Token :=
            steps.map fun k => ⟨k, [], moved.spot.line, moved.spot.column, moved.spot.line⟩
          scan fuel { moved with levels, blank := false } rest (tokens ++ out)
    else
      match t with
      | [] => if s.awaited.isEmpty then some (make .finish [] :: out).reverse else none
      | '\n' :: rest =>
        let moved := { skip 1 with atLineStart := true }
        if s.blank || !s.awaited.isEmpty then scan fuel moved rest out
        else scan fuel moved rest (make .newline ['\n'] :: out)
      | '\\' :: '\n' :: c :: rest => scan fuel (skip 2) (c :: rest) out
      | '#' :: rest =>
        let n := (rest.takeWhile (· != '\n')).length + 1
        scan fuel (skip n) (t.drop n) out
      | c :: rest =>
        if isSkipped c then scan fuel (skip 1) rest out
        else do
          let (kind, after) ← read? t
          let n := t.length - after.length
          let text := t.take n
          let awaited ← if kind == .op then bracketsAfter? s.awaited text else some s.awaited
          scan fuel { skip n with awaited } after (make kind text :: out)

def ofText? (t : Text) : Option (List Token) := scan (2 * t.length + 3) {} t []

def ofSource? (t : Text) : Option (List Token) :=
  let t := t.plainNewlines
  ofText? (if t.getLast? == some '\n' || t.isEmpty then t else t ++ ['\n'])

end Token

end Graft.Suite
