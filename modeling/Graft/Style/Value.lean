import Graft.Style.Token

set_option autoImplicit false

/-!
Component values of CSS: tokens with their brackets matched. An opening bracket without its partner
holds the rest of the text.
-/

namespace Graft.Style

inductive Value where
  | token (p : Place) (t : Token)
  | block (p : Place) (bracket : Char) (inside : List Value)
  | function (p : Place) (name : Text) (inside : List Value)

instance : Inhabited Value := ⟨.token {} (.literal [])⟩

namespace Value

def place : Value → Place
  | token p _ | block p _ _ | function p _ _ => p

def isBraces : Value → Bool
  | block _ '\x7b' _ => true
  | _ => false

def isLiteral (s : String) : Value → Bool
  | token _ (.literal t) => t == s.toList
  | _ => false

/-- A bracket that is still open, and what came before it on its level, latest first. -/
structure Opened where
  place : Place
  name : Option Text
  bracket : Char
  before : List Value

def partnerOf (c : Char) : Char := if c == '\x7b' then '\x7d' else if c == '[' then ']' else ')'

def close (o : Opened) (level : List Value) : List Value :=
  (match o.name with
    | some n => function o.place n level.reverse
    | none => block o.place o.bracket level.reverse) :: o.before

/-- Matches the brackets of the tokens left; `level` holds what was read on the innermost level,
latest first. -/
def nest : List Opened → List Value → List (Place × Token) → List Value
  | [], level, [] => level.reverse
  | o :: os, level, [] => nest os (close o level) []
  | os, level, (p, .opening c) :: ts => nest (⟨p, none, c, level⟩ :: os) [] ts
  | os, level, (p, .function n) :: ts => nest (⟨p, some n, '(', level⟩ :: os) [] ts
  | o :: os, level, (p, .closing c) :: ts =>
    if c == partnerOf o.bracket then nest os (close o level) ts
    else nest (o :: os) (token p (.flaw (.unmatched c)) :: level) ts
  | [], level, (p, .closing c) :: ts => nest [] (token p (.flaw (.unmatched c)) :: level) ts
  | os, level, (p, t) :: ts => nest os (token p t :: level) ts
termination_by os _ ts => (ts.length, os.length)

def isComment : Token → Bool
  | .comment _ => true
  | _ => false

def ofText (source : Text) (comments : Bool) : List Value :=
  nest [] [] ((tokens source).filter fun (_, t) => comments || !isComment t)

end Value

namespace Token

def write : Token → Text
  | .blank t | .literal t => t
  | .ident n => writeIdent n
  | .atKeyword n => '@' :: writeIdent n
  | .hash n isIdent => '#' :: if isIdent then writeIdent n else writeName n
  | .string shown | .url shown | .number shown => shown
  | .unicodeRange a b =>
    let hex (n : Nat) : Text := (Nat.toDigits 16 n).map Char.toUpper
    'U' :: '+' :: if a == b then hex a else hex a ++ '-' :: hex b
  | .percentage shown => shown ++ ['%']
  | .dimension shown unit =>
    -- a unit that looks like an exponent
    match unit with
    | ['e'] | ['E'] => shown ++ "\\65 ".toList
    | 'e' :: '-' :: cs | 'E' :: '-' :: cs => shown ++ "\\65 ".toList ++ writeName ('-' :: cs)
    | unit => shown ++ writeIdent unit
  | .comment t => "/*".toList ++ t ++ "*/".toList
  | .flaw .badString => "\"[bad string]\n".toList
  | .flaw .badUrl => "url([bad url])".toList
  | .flaw (.unmatched c) | .opening c | .closing c => [c]
  | .flaw .openString | .flaw .openUrl => []
  | .function n => writeIdent n ++ ['(']

def kind : Token → String
  | .blank _ => "whitespace"
  | .literal t => t.toString
  | .ident _ => "ident"
  | .atKeyword _ => "at-keyword"
  | .hash .. => "hash"
  | .string _ => "string"
  | .url _ => "url"
  | .unicodeRange .. => "unicode-range"
  | .number _ => "number"
  | .percentage _ => "percentage"
  | .dimension .. => "dimension"
  | .comment _ => "comment"
  | .flaw _ => "error"
  | .function _ => "function"
  | .opening _ | .closing _ => "block"

end Token

namespace Value

def kind : Value → String
  | token _ t => t.kind
  | block _ '(' _ => "() block"
  | block .. => "block"
  | function .. => "function"

/-- True of two values that would run together if nothing stood between them. -/
def runTogether (a b : String) : Bool :=
  (["ident", "at-keyword", "hash", "dimension", "#", "-", "number"].contains a &&
    ["ident", "function", "url", "number", "percentage", "dimension",
      "unicode-range"].contains b) ||
  (["ident", "at-keyword", "hash", "dimension"].contains a && ["-", "-->"].contains b) ||
  (["#", "-", "number", "@"].contains a && ["ident", "function", "url"].contains b) ||
  (["unicode-range", ".", "+"].contains a && ["number", "percentage", "dimension"].contains b) ||
  (a == "@" && ["ident", "function", "url", "unicode-range", "-"].contains b) ||
  (a == "unicode-range" && ["ident", "function", "?"].contains b) ||
  (["$", "*", "^", "~", "|"].contains a && b == "=") ||
  (a == "ident" && b == "() block") || (a == "|" && b == "|") || (a == "/" && b == "*")

def between (a : Option String) (b : Value) : Text :=
  match a with
  | none => []
  | some a =>
    if runTogether a b.kind then "/**/".toList
    else if a == "\\" then
      match b with
      | token _ (.blank ('\n' :: _)) => []
      | _ => ['\n']
    else []

mutual

def endsOpen : Value → Bool
  | function _ _ inside => listEndsOpen inside
  | token _ (.flaw .openString) => true
  | _ => false

def listEndsOpen : List Value → Bool
  | [] => false
  | [v] => endsOpen v
  | _ :: vs => listEndsOpen vs

end

mutual

def write : Value → Text
  | token _ t => t.write
  | block _ c inside => c :: (writeAll none inside ++ [partnerOf c])
  | function _ n inside =>
    writeIdent n ++ '(' :: (writeAll none inside ++ if listEndsOpen inside then [] else [')'])

def writeAll (after : Option String) : List Value → Text
  | [] => []
  | v :: vs => between after v ++ write v ++ writeAll (some v.kind) vs

end

def serialize (vs : List Value) : Text := writeAll none vs

end Value

end Graft.Style
