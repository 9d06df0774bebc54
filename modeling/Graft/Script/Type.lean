import Graft.Script.Node

set_option autoImplicit false

/-!
Types, patterns and parameter lists. A flag says whether the end of a line may end the type.
-/

namespace Graft.Script

open Graft.Script.Parser

/-- The rules that take part in each other, one level down. -/
structure Inside where
  expression : Bool → Parser PUnit
  type : Bool → Parser PUnit
  statement : Parser Statement
  bound : Nat

variable (i : Inside)

def expressionWords : List Text :=
  ["function", "class", "this", "super", "true", "false", "null", "typeof", "void",
    "delete", "await", "yield", "import"].map String.toList

def identifier : Parser PUnit := do
  let w ← word
  guardThat (!expressionWords.contains w)

/-- Items separated by commas, any of which may be missing, up to a closing sign. -/
def looseItems (closer : String) (item : Parser PUnit) : Nat → Parser PUnit
  | 0 => fail
  | bound + 1 => do
    if ← accept closer then return ⟨⟩
    else if ← accept "," then looseItems closer item bound
    else
      item
      if ← accept "," then looseItems closer item bound else expect closer

def expressions (asi : Bool) : Parser PUnit := do
  i.expression asi
  let _ ← many (do expect ","; i.expression asi) i.bound

def spreadOr (p : Parser PUnit) : Parser PUnit := do
  if ← accept "..." then i.expression false else p

def arguments : Parser PUnit := do
  expect "("
  looseItems ")" (spreadOr i (i.expression false)) i.bound

def initializer? (asi : Bool) : Parser Bool := do
  let t ← ahead
  if Text.startsWith t ['='] && !Text.startsWith t ['=', '='] && !Text.startsWith t ['=', '>'] then
    expect "="
    i.expression asi
    return true
  else return false

def propertyName : Parser NameKind := do
  match ← peek? with
  | some '[' =>
    expect "["
    i.expression false
    expect "]"
    return .computed
  | some '#' =>
    privateName
    return .privateWord
  | some '"' | some '\'' =>
    string
    return .string
  | some c =>
    if Text.isDigit c || c == '.' then
      number
      return .number
    else
      let _ ← word
      return .word
  | none => fail

def decorator : Parser PUnit := do
  let member : Parser PUnit := do
    let _ ← word
    let _ ← many (do expect "."; let _ ← word) i.bound
    let _ ← attempt (do
      if ← accept "<" then
        let _ ← commaSep1 (i.type false) i.bound
        let _ ← accept ","
        expect ">"
      arguments i)
  expect "@"
  if ← accept "(" then
    member
    expect ")"
  else member

mutual

/-- What values can be bound to, nested at most so deep. -/
def pattern (i : Inside) : Nat → Parser PUnit
  | 0 => fail
  | depth + 1 => do
    if ← accept "..." then bindable i depth else bindable i depth

def bindable (i : Inside) : Nat → Parser PUnit
  | 0 => fail
  | depth + 1 => do
    if ← accept "[" then looseItems "]" (initialized i depth) i.bound
    else if ← accept "\x7b" then looseItems "\x7d" (patternMember i depth) i.bound
    else identifier

def initialized (i : Inside) : Nat → Parser PUnit
  | 0 => fail
  | depth + 1 => do
    pattern i depth
    let _ ← initializer? i false

def patternMember (i : Inside) : Nat → Parser PUnit
  | 0 => fail
  | depth + 1 => do
    if ← atText? "..." then pattern i depth
    else
      let keyed : Parser PUnit := do
        let _ ← propertyName i
        expect ":"
        initialized i depth
      let short : Parser PUnit := do
        if ← atText? "\x7b" then bindable i depth else let _ ← word
        let _ ← initializer? i false
      keyed <|> short

end

def patternDepth : Nat := 200

def typeArguments : Parser PUnit := do
  expect "<"
  let _ ← commaSep1 (i.type false) i.bound
  let _ ← accept ","
  expect ">"

def typeParameter : Parser PUnit := do
  if ← atWord? "const" then
    let next := (← peekAfterWord).dropWhile isSpace
    if next.head?.any isWordStart then expectWord "const"
  let _ ← word
  if ← acceptWord "extends" then i.type false
  else if ← accept ":" then i.type false
  if ← accept "=" then i.type false

def typeParameters : Parser PUnit := do
  expect "<"
  let _ ← commaSep1 (typeParameter i) i.bound
  let _ ← accept ","
  expect ">"

def typeHint? (asi : Bool) : Parser PUnit := do
  if ← accept ":" then i.type asi

/-- Takes a word if what follows it can be what it modifies. -/
def modifierWord (isFollower : Char → Bool) (ws : List String) : Parser PUnit := do
  match ← peekWord? with
  | some w =>
    if ws.any (·.toList == w) then
      let t := (extrasFrom (← get).size (← peekAfterWord)).2
      if t.head?.any isFollower then let _ ← word
  | none => return ⟨⟩

def startsBinding (c : Char) : Bool := isWordStart c || c == '\x7b' || c == '[' || c == '.'

def parameter : Parser PUnit := do
  let _ ← many (decorator i) i.bound
  modifierWord startsBinding ["public", "private", "protected"]
  modifierWord startsBinding ["override"]
  modifierWord startsBinding ["readonly"]
  if !(← acceptWord "this") then pattern i patternDepth
  let _ ← accept "?"
  typeHint? i false
  let _ ← initializer? i false

def parametersFrom : Nat → Parser (List Span)
  | 0 => fail
  | bound + 1 => do
    if ← accept ")" then return []
    let (_, span) ← spanned (parameter i)
    if ← accept "," then return span :: (← parametersFrom bound)
    else
      expect ")"
      return [span]

def formalParameters : Parser (List Span) := do
  expect "("
  parametersFrom i i.bound

def predicate (asi : Bool) : Parser PUnit := do
  let _ ← word
  expectWord "is"
  i.type asi

/-- What a function returns: a type, or what its success says. -/
def returned (asi : Bool) : Parser PUnit := do
  let asserts : Parser PUnit := do
    expectWord "asserts"
    predicate i asi <|> (do let _ ← word)
  (predicate i asi <|> asserts) <|> i.type asi

def returnHint? (asi : Bool) : Parser PUnit := do
  if ← accept ":" then returned i asi

def callSignature (asi : Bool) : Parser (Span × List Span) := do
  if ← atText? "<" then typeParameters i
  let (ps, span) ← spanned (formalParameters i)
  returnHint? i asi
  return (span, ps)

def functionType (asi : Bool) : Parser PUnit := do
  if ← atText? "<" then typeParameters i
  let _ ← formalParameters i
  expect "=>"
  returned i asi

/-- A path of names, calls and indices after `typeof` or `import`. -/
def queryTail : Nat → Parser PUnit
  | 0 => return ⟨⟩
  | bound + 1 => do
    if ← accept "." then
      if ← atText? "#" then privateName else let _ ← word
      queryTail bound
    else if ← accept "?." then
      let _ ← word
      queryTail bound
    else if ← atText? "(" then
      arguments i
      queryTail bound
    else match ← attempt (do
        expect "["
        string <|> number <|> (do let _ ← word)
        expect "]") with
      | some _ => queryTail bound
      | none =>
        match ← attempt (typeArguments i) with
        | some _ => queryTail bound
        | none => return ⟨⟩

/-- A template literal, with `hole` between the braces. -/
def templateFrom (hole : Parser PUnit) : Nat → Parser PUnit
  | 0 => fail
  | bound + 1 => do
    match (← get).rest with
    | '\x60' :: cs => moveTo cs
    | '\\' :: cs =>
      match afterEscape? cs with
      | some rest =>
        moveTo rest
        templateFrom hole bound
      | none => fail
    | '$' :: '\x7b' :: cs =>
      moveTo cs
      hole
      expect "\x7d"
      templateFrom hole bound
    | _ :: cs =>
      moveTo cs
      templateFrom hole bound
    | [] => fail

def template (hole : Parser PUnit) : Parser PUnit := do
  expect "\x60"
  templateFrom hole i.bound

def tupleMember : Parser PUnit := do
  let named : Parser PUnit := do
    let _ ← accept "..."
    let _ ← word
    let _ ← accept "?"
    expect ":"
    i.type false
  let plain : Parser PUnit := do
    let _ ← accept "..."
    i.type false
    let _ ← accept "?"
  named <|> plain

def mappedClause : Parser PUnit := do
  let _ ← word
  expectWord "in"
  i.type false
  if ← acceptWord "as" then i.type false

def indexSignature (asi : Bool) : Parser PUnit := do
  let sign ← if ← accept "+" then pure true else accept "-"
  if sign then expectWord "readonly" else modifierWord (· == '[') ["readonly"]
  expect "["
  mappedClause i <|> (do
    let _ ← word
    expect ":"
    i.type false)
  expect "]"
  if ← accept "-?:" then i.type asi
  else if ← accept "+?:" then i.type asi
  else
    let _ ← accept "?"
    expect ":"
    i.type asi

def startsName (c : Char) : Bool :=
  isWordStart c || c == '[' || c == '#' || c == '"' || c == '\'' || Text.isDigit c

def typeMember : Parser PUnit := do
  let construct : Parser PUnit := do
    modifierWord isWordStart ["abstract"]
    expectWord "new"
    let _ ← callSignature i true
  let named : Parser PUnit := do
    for ws in [["public", "private", "protected"], ["static"], ["override"], ["readonly"],
        ["async"], ["get", "set"]] do
      modifierWord (fun c => startsName c || c == '*') ws
    let _ ← accept "*"
    let _ ← propertyName i
    let _ ← accept "?"
    if (← atText? "(") || (← atText? "<") then
      let _ ← callSignature i true
    else typeHint? i true
  let call : Parser PUnit := do
    let _ ← callSignature i true
  if (← atText? "(") || (← atText? "<") then call
  else construct <|> indexSignature i true <|> named

def memberEnd : Parser PUnit := do
  if ← accept "," then return ⟨⟩ else semicolon false false

def typeMembers : Nat → Parser PUnit
  | 0 => fail
  | bound + 1 => do
    if (← accept "\x7d") || (← accept "|\x7d") then return ⟨⟩
    typeMember i
    memberEnd
    typeMembers bound

def objectType : Parser PUnit := do
  if !(← accept "\x7b|") then expect "\x7b"
  if !(← accept ",") then
    let _ ← accept ";"
  typeMembers i i.bound

def typeWords : List Text :=
  ["any", "number", "boolean", "string", "symbol", "void", "unknown", "never", "object",
    "this", "true", "false", "null", "undefined", "const"].map String.toList

def namedType : Parser PUnit := do
  let _ ← many (do expect "."; let _ ← word) i.bound
  let _ ← attempt (typeArguments i)

def wordType (asi : Bool) : Parser PUnit := do
  let w ← word
  if typeWords.contains w then return ⟨⟩
  else if w == "readonly".toList || w == "keyof".toList then i.type asi
  else if w == "unique".toList then expectWord "symbol"
  else if w == "infer".toList then
    let _ ← word
    let _ ← attempt (do expectWord "extends"; i.type asi)
  else if w == "typeof".toList then
    let _ ← word
    queryTail i i.bound
  else if w == "import".toList then queryTail i i.bound
  else if w == "new".toList then functionType i asi
  else if w == "abstract".toList then
    expectWord "new"
    functionType i asi
  else namedType i

def typeOperand (asi : Bool) : Parser PUnit := do
  match ← peek? with
  | some '(' =>
    functionType i asi <|> (do
      expect "("
      i.type false
      expect ")")
  | some '<' => functionType i asi
  | some '\x7b' => objectType i
  | some '[' =>
    expect "["
    looseItems "]" (tupleMember i) i.bound
  | some '"' | some '\'' => string
  | some '\x60' => template i (i.type false)
  | some '*' => expect "*"
  | some '?' =>
    expect "?"
    i.type asi
  | some '-' =>
    expect "-"
    number
  | some '+' =>
    expect "+"
    number
  | some c => if Text.isDigit c || c == '.' then number else wordType i asi
  | none => fail

def typeTail (asi : Bool) : Nat → Parser PUnit
  | 0 => return ⟨⟩
  | bound + 1 => do
    if asi && (← implied false false) then return ⟨⟩
    let t ← ahead
    match t with
    | '|' :: c :: _ =>
      if c == '|' || c == '\x7d' then return ⟨⟩
      else
        expect "|"
        typeOperand i asi
        typeTail asi bound
    | '&' :: c :: _ =>
      if c == '&' then return ⟨⟩
      else
        expect "&"
        typeOperand i asi
        typeTail asi bound
    | '[' :: _ =>
      match ← attempt (do
        expect "["
        if !(← accept "]") then
          i.type false
          expect "]") with
      | some _ => typeTail asi bound
      | none => return ⟨⟩
    | 'e' :: _ =>
      match ← attempt (do
        expectWord "extends"
        i.type false
        expect "?"
        i.type false
        expect ":"
        i.type asi) with
      | some _ => typeTail asi bound
      | none => return ⟨⟩
    | _ => return ⟨⟩

def anyType (asi : Bool) : Parser PUnit := do
  let t ← ahead
  if Text.startsWith t ['|'] && !Text.startsWith t ['|', '|'] then expect "|"
  else if Text.startsWith t ['&'] && !Text.startsWith t ['&', '&'] then expect "&"
  typeOperand i asi
  typeTail i asi i.bound

end Graft.Script
