import Graft.Text

set_option autoImplicit false

/-!
The tokens of CSS. Reading never fails: what is malformed becomes a token of its own kind.
-/

namespace Graft.Style

inductive Flaw where
  | badString
  | badUrl
  /-- A closing bracket without an opening one. -/
  | unmatched (bracket : Char)
  | openString
  | openUrl
  deriving DecidableEq, Repr

inductive Token where
  | blank (t : Text)
  | literal (t : Text)
  | ident (name : Text)
  | atKeyword (name : Text)
  | hash (name : Text) (isIdent : Bool)
  /-- A string, with the quotes it is written in. -/
  | string (shown : Text)
  | url (shown : Text)
  | unicodeRange (first last : Nat)
  | number (shown : Text)
  | percentage (shown : Text)
  | dimension (shown unit : Text)
  | comment (t : Text)
  | flaw (f : Flaw)
  | opening (c : Char)
  | function (name : Text)
  | closing (c : Char)
  deriving DecidableEq, Repr

def isSpace (c : Char) : Bool := c == ' ' || c == '\n' || c == '\t'

def isNonAscii (c : Char) : Bool := 0x7f < c.toNat

def isNameStart (c : Char) : Bool := Text.isLetter c || c == '_' || isNonAscii c

def isNameChar (c : Char) : Bool := isNameStart c || Text.isDigit c || c == '-'

/-- Null characters become replacement characters, and every line end a newline. -/
def preprocess : Text → Text
  | [] => []
  | '\r' :: '\n' :: cs => '\n' :: preprocess cs
  | c :: cs =>
    (if c == '\r' || c == '\x0c' then '\n'
      else if c == Char.ofNat 0 then Char.ofNat 0xfffd else c) ::
      preprocess cs

def startsEscape : Text → Bool
  | ['\\'] => true
  | '\\' :: c :: _ => c != '\n'
  | _ => false

def startsName : Text → Bool
  | [] => false
  | '-' :: cs => (cs.head?.any fun c => isNameStart c || c == '-') || startsEscape cs
  | c :: cs => isNameStart c || startsEscape (c :: cs)

def hexValue (t : Text) : Nat := t.foldl (fun n c => 16 * n + (Text.digitValue? c).getD 0) 0

def charOf (n : Nat) : Char := if n == 0 || !n.isValidChar then Char.ofNat 0xfffd else Char.ofNat n

def escape (t : Text) : Char × Text :=
  let digits := (t.take 6).takeWhile Text.isHexDigit
  if digits.isEmpty then
    match t with
    | c :: cs => (c, cs)
    | [] => (Char.ofNat 0xfffd, [])
  else
    let rest := t.drop digits.length
    (charOf (hexValue digits), if rest.head?.any isSpace then rest.drop 1 else rest)

def nameFrom : Nat → Text → Text × Text
  | 0, t => ([], t)
  | _, [] => ([], [])
  | bound + 1, c :: cs =>
    if isNameChar c then
      let (n, rest) := nameFrom bound cs
      (c :: n, rest)
    else if startsEscape (c :: cs) then
      let (e, rest) := escape cs
      let (n, rest) := nameFrom bound rest
      (e :: n, rest)
    else ([], c :: cs)

def name (t : Text) : Text × Text := nameFrom t.length t

def escapeBreak? (c : Char) : Option Text :=
  if c == '\n' then some "\\A ".toList
  else if c == '\r' then some "\\D ".toList
  else if c == '\x0c' then some "\\C ".toList
  else none

def writeNameChar (c : Char) : Text :=
  if isNameChar c then [c] else (escapeBreak? c).getD ['\\', c]

def writeName (t : Text) : Text := Text.expand writeNameChar t

def writeNameStart (c : Char) : Text :=
  if isNameStart c then [c]
  else if Text.isDigit c then '\\' :: ((Nat.toDigits 16 c.toNat).map Char.toUpper ++ [' '])
  else (escapeBreak? c).getD ['\\', c]

def writeIdent : Text → Text
  | [] => []
  | ['-'] => ['\\', '-']
  | '-' :: '-' :: cs => '-' :: '-' :: writeName cs
  | '-' :: c :: cs => '-' :: (writeNameStart c ++ writeName cs)
  | c :: cs => writeNameStart c ++ writeName cs

def writeStringChar (c : Char) : Text :=
  if c == '"' || c == '\\' then ['\\', c] else (escapeBreak? c).getD [c]

def writeUrlChar (c : Char) : Text :=
  if ['\'', '"', '\\', ' ', '(', ')'].contains c then ['\\', c]
  else if c == '\t' then "\\9 ".toList
  else (escapeBreak? c).getD [c]

inductive Ending where
  | closed
  | cut
  | bad
  deriving DecidableEq, Repr

/-- The inside of a string up to its quote. A newline breaks it off; an escaped one is left out. -/
def stringFrom (quote : Char) : Nat → Text → Text × Ending × Text
  | 0, t => ([], .cut, t)
  | _, [] => ([], .cut, [])
  | bound + 1, c :: cs =>
    if c == quote then ([], .closed, cs)
    else if c == '\n' then ([], .bad, c :: cs)
    else if c == '\\' then
      match cs with
      | [] => ([], .cut, [])
      | '\n' :: cs => stringFrom quote bound cs
      | cs =>
        let (e, rest) := escape cs
        let (t, ending, rest) := stringFrom quote bound rest
        (e :: t, ending, rest)
    else
      let (t, ending, rest) := stringFrom quote bound cs
      (c :: t, ending, rest)

def stringTokens (quote : Char) (t : Text) : List Token × Text :=
  let (inside, ending, rest) := stringFrom quote t.length t
  let shown := '"' :: Text.expand writeStringChar inside
  match ending with
  | .closed => ([.string (shown ++ ['"'])], rest)
  | .cut => ([.string shown, .flaw .openString], rest)
  | .bad => ([.flaw .badString], rest)

def isUnprintable (c : Char) : Bool :=
  let n := c.toNat
  n ≤ 8 || n == 0xb || (0xe ≤ n && n ≤ 0x1f) || n == 0x7f

/-- The inside of an address without quotes. Blanks may only come before its end. -/
def urlFrom : Nat → Text → Text × Ending × Text
  | 0, t => ([], .cut, t)
  | _, [] => ([], .cut, [])
  | bound + 1, c :: cs =>
    if c == ')' then ([], .closed, cs)
    else if isSpace c then
      match cs.dropWhile isSpace with
      | [] => ([], .cut, [])
      | ')' :: rest => ([], .closed, rest)
      | rest => ([], .bad, rest)
    else if startsEscape (c :: cs) then
      let (e, rest) := escape cs
      let (t, ending, rest) := urlFrom bound rest
      (e :: t, ending, rest)
    else if c == '"' || c == '\'' || c == '(' || isUnprintable c then ([], .bad, cs)
    else
      let (t, ending, rest) := urlFrom bound cs
      (c :: t, ending, rest)

def afterBadUrl : Text → Text
  | [] => []
  | '\\' :: ')' :: cs => afterBadUrl cs
  | ')' :: cs => cs
  | _ :: cs => afterBadUrl cs

def urlTokens (t : Text) : List Token × Text :=
  let t := t.dropWhile isSpace
  let (inside, ending, rest) := urlFrom t.length t
  let shown := "url(".toList ++ Text.expand writeUrlChar inside
  match ending with
  | .closed => ([.url (shown ++ [')'])], rest)
  | .cut => ([.url shown, .flaw .openUrl], rest)
  | .bad => ([.flaw .badUrl], afterBadUrl rest)

def digits (t : Text) : Text := t.takeWhile Text.isDigit

def sign (t : Text) : Text := if t.head?.any fun c => c == '+' || c == '-' then t.take 1 else []

def exponent (t : Text) : Text :=
  match t with
  | c :: cs =>
    if c == 'e' || c == 'E' then
      let s := sign cs
      let ds := digits (cs.drop s.length)
      if ds.isEmpty then [] else c :: (s ++ ds)
    else []
  | [] => []

def number? (t : Text) : Option Text :=
  let s := sign t
  let whole := digits (t.drop s.length)
  let rest := t.drop (s.length + whole.length)
  let fraction := match rest with
    | '.' :: ds => if (digits ds).isEmpty then [] else '.' :: digits ds
    | _ => []
  if whole.isEmpty && fraction.isEmpty then none
  else some (s ++ whole ++ fraction ++ exponent (rest.drop fraction.length))

def numberTokens (shown rest : Text) : List Token × Text :=
  if startsName rest then
    let (unit, rest) := name rest
    ([.dimension shown unit], rest)
  else if rest.head? == some '%' then ([.percentage shown], rest.drop 1)
  else ([.number shown], rest)

/-- What follows the sign of a range of code points: digits with placeholders, or two numbers. -/
def rangeTokens (t : Text) : List Token × Text :=
  let first := (t.take 6).takeWhile Text.isHexDigit
  let marks := ((t.take 6).drop first.length).takeWhile (· == '?')
  let rest := t.drop (first.length + marks.length)
  if !marks.isEmpty then
    ([.unicodeRange (hexValue (first ++ marks.map fun _ => '0'))
      (hexValue (first ++ marks.map fun _ => 'F'))], rest)
  else match rest with
    | '-' :: c :: cs =>
      if Text.isHexDigit c then
        let last := ((c :: cs).take 6).takeWhile Text.isHexDigit
        ([.unicodeRange (hexValue first) (hexValue last)], (c :: cs).drop last.length)
      else ([.unicodeRange (hexValue first) (hexValue first)], rest)
    | _ => ([.unicodeRange (hexValue first) (hexValue first)], rest)

def startsRange : Text → Bool
  | c :: '+' :: d :: _ => (c == 'U' || c == 'u') && (Text.isHexDigit d || d == '?')
  | _ => false

/-- The inside of a comment, and what follows it; the end of the text ends it too. -/
def commentFrom : Text → Text × Text
  | [] => ([], [])
  | '*' :: '/' :: cs => ([], cs)
  | c :: cs =>
    let (t, rest) := commentFrom cs
    (c :: t, rest)

def nameTokens (t : Text) : List Token × Text :=
  match name t with
  | (n, '(' :: rest) =>
    let quoted := (rest.dropWhile isSpace).head?.any fun c => c == '"' || c == '\''
    if n.map Text.lowerAscii == "url".toList && !quoted then urlTokens rest
    else ([.function n], rest)
  | (n, rest) => ([.ident n], rest)

def joinsEquals (c : Char) : Bool := ['~', '|', '^', '$', '*'].contains c

/-- The tokens for a sign that starts no name and no number. -/
def signTokens (c : Char) (cs : Text) : List Token × Text :=
  if c == '@' then
    if startsName cs then
      let (n, rest) := name cs
      ([.atKeyword n], rest)
    else ([.literal ['@']], cs)
  else if c == '#' then
    if cs.head?.any isNameChar || startsEscape cs then
      let (n, rest) := name cs
      ([.hash n (startsName cs)], rest)
    else ([.literal ['#']], cs)
  else if c == '\x7b' || c == '[' || c == '(' then ([.opening c], cs)
  else if c == '\x7d' || c == ']' || c == ')' then ([.closing c], cs)
  else if c == '"' || c == '\'' then stringTokens c cs
  else if c == '/' && cs.head? == some '*' then
    let (t, rest) := commentFrom (cs.drop 1)
    ([.comment t], rest)
  else if c == '<' && cs.take 3 == "!--".toList then ([.literal "<!--".toList], cs.drop 3)
  else if c == '|' && cs.head? == some '|' then ([.literal "||".toList], cs.drop 1)
  else if joinsEquals c && cs.head? == some '=' then ([.literal [c, '=']], cs.drop 1)
  else ([.literal [c]], cs)

/-- The tokens at the front of a text that is not empty: one, or a cut one with its flaw. -/
def front (c : Char) (cs : Text) : List Token × Text :=
  let t := c :: cs
  if isSpace c then ([.blank (t.takeWhile isSpace)], t.dropWhile isSpace)
  else if startsRange t then rangeTokens (cs.drop 1)
  else if t.take 3 == "-->".toList then ([.literal "-->".toList], cs.drop 2)
  else if startsName t then nameTokens t
  else match number? t with
    | some shown => numberTokens shown (t.drop shown.length)
    | none => signTokens c cs

structure Place where
  line : Nat := 1
  column : Nat := 1
  deriving DecidableEq, Repr, Inhabited

def Place.after (p : Place) (t : Text) : Place :=
  t.foldl (fun p c => if c == '\n' then ⟨p.line + 1, 1⟩ else ⟨p.line, p.column + 1⟩) p

def tokensFrom (p : Place) (t : Text) : List (Place × Token) :=
  match t with
  | [] => []
  | c :: cs =>
    let (found, rest) := front c cs
    if rest.length < (c :: cs).length then
      found.map (p, ·) ++
        tokensFrom (p.after ((c :: cs).take ((c :: cs).length - rest.length))) rest
    else found.map (p, ·)
termination_by t.length
decreasing_by assumption

def tokens (source : Text) : List (Place × Token) := tokensFrom {} (preprocess source)

end Graft.Style
