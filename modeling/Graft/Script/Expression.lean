import Graft.Script.ClassBody

set_option autoImplicit false

/-!
Expressions. Which operator binds tighter does not matter here, so an expression is read as operands
with operators between them.
-/

namespace Graft.Script

open Graft.Script.Parser

variable (i : Inside)

def arrowBody (asi : Bool) : Parser PUnit := do
  if ← atText? "\x7b" then block i <|> i.expression asi else i.expression asi

def arrowHead : Parser PUnit := do
  let _ ← callSignature i false
  expect "=>"

def functionRest : Parser PUnit := do
  let _ ← accept "*"
  if (← peekWord?).isSome then let _ ← word
  let _ ← callSignature i false
  block i

def moduleRest : Parser PUnit := do
  if (← peekWord?).isSome then
    let _ ← commaless
  else string
  if ← atText? "\x7b" then block i
where
  commaless : Parser PUnit := do
    let _ ← word
    let _ ← many (do expect "."; let _ ← word) i.bound

def arrowFollows : Parser Bool := do
  let t ← peekAfterWord
  return Text.startsWith (extrasFrom (← get).size t).2 ['=', '>']

def asyncFunction (asi : Bool) : Parser PUnit := do
  expectWord "async"
  if ← acceptWord "function" then functionRest i
  else if (← peekWord?).isSome then
    let _ ← word
    expect "=>"
    arrowBody i asi
  else
    arrowHead i
    arrowBody i asi

def parenthesized : Parser PUnit := do
  expect "("
  i.expression false
  if ← accept ":" then i.type false
  else
    let _ ← many (do expect ","; i.expression false) i.bound
  expect ")"

def operandFollows (asi : Bool) : Parser Bool := do
  if asi && (← implied true false) then return false
  return (← peek?).all fun c => !(")]\x7d,;:".toList.contains c)

/-- An operand that starts with a word, and whether it can be assigned to. -/
def wordOperand (asi : Bool) : Parser Bool := do
  let w := ((← peekWord?).getD []).toString
  match w with
  | "function" =>
    expectWord "function"
    functionRest i
    return false
  | "class" =>
    classExpression i
    return false
  | "this" | "super" | "true" | "false" | "null" =>
    let _ ← word
    return false
  | "typeof" | "void" | "delete" | "await" =>
    let _ ← word
    i.expression asi
    return false
  | "yield" =>
    let _ ← word
    if ← accept "*" then i.expression asi
    else if ← operandFollows asi then i.expression asi
    return false
  | "import" =>
    let _ ← word
    guardThat ((← atText? "(") || (← atText? ".") || (← atText? "<"))
    return false
  | "new" =>
    (do
      expectWord "new"
      if ← accept "." then let _ ← word else i.expression asi
      return false) <|> (do
      let _ ← word
      return true)
  | "async" =>
    (do
      asyncFunction i asi
      return false) <|> plainName
  | "namespace" =>
    (do
      expectWord "namespace"
      moduleRest i
      return false) <|> plainName
  | _ => plainName
where
  plainName : Parser Bool := do
    if ← arrowFollows then
      let _ ← word
      expect "=>"
      arrowBody i asi
      return false
    else
      let _ ← word
      return true

def operand (asi : Bool) : Parser Bool := do
  match ← peek? with
  | some '(' =>
    (do
      arrowHead i
      arrowBody i asi
      return false) <|> (do
      parenthesized i
      return true)
  | some '<' =>
    (do
      arrowHead i
      arrowBody i asi
      return false) <|> (do
      typeArguments i
      i.expression asi
      return false)
  | some '[' =>
    expect "["
    looseItems "]" (spreadOr i (i.expression false)) i.bound
    return true
  | some '\x7b' =>
    object i <|> bindable i patternDepth
    return true
  | some '"' | some '\'' =>
    string
    return false
  | some '\x60' =>
    template i (expressions i false)
    return false
  | some '/' =>
    regex
    return false
  | some '!' | some '~' =>
    if !(← accept "!") then expect "~"
    i.expression asi
    return false
  | some '+' | some '-' =>
    if !((← accept "++") || (← accept "--")) then
      if !(← accept "+") then expect "-"
    i.expression asi
    return false
  | some '#' =>
    privateName
    expectWord "in"
    i.expression asi
    return false
  | some '@' =>
    let _ ← decorators i i.bound
    classExpression i
    return false
  | some c =>
    if Text.isDigit c || c == '.' then
      number
      return false
    else wordOperand i asi
  | none => fail

def operators : List String :=
  [">>>=", "===", "!==", "**=", "<<=", ">>=", ">>>", "&&=", "||=", "??=", "==", "!=", "<=",
    ">=", "&&", "||", "??", "+=", "-=", "*=", "/=", "%=", "&=", "|=", "^=", "<<", ">>", "**", "+",
    "-", "*", "/", "%", "&", "|", "^", "<", ">", "="]

def assignments : List String :=
  ["=", "+=", "-=", "*=", "/=", "%=", "&=", "|=", "^=", "<<=", ">>=", ">>>=", "**=", "&&=",
    "||=", "??="]

def operator? (t : Text) : Option String :=
  if Text.startsWith t ['=', '>'] then none else operators.find? fun s => Text.startsWith t s.toList

def startsChoice : Text → Bool
  | '?' :: cs =>
    match cs.dropWhile isPlainSpace with
    | ':' :: _ | ')' :: _ | ',' :: _ => false
    | '.' :: c :: _ => Text.isDigit c
    | _ => cs.head? != some '?'
  | _ => false

def isInfixWord (w : Text) : Bool :=
  ["as", "satisfies", "in", "instanceof", "of", "implements"].any (·.toList == w)

/-- Whether type arguments make sense with what follows them: an operand would make them
comparisons. -/
def afterTypeArguments : Parser PUnit := do
  match ← peek? with
  | some c =>
    if c == '(' || c == '\x60' then return ⟨⟩
    match ← peekWord? with
    | some w => guardThat (isInfixWord w || (← implied true false))
    | none => guardThat (!(Text.isDigit c || c == '"' || c == '\'' || c == '~'))
  | none => return ⟨⟩

def optionalChain : Parser PUnit := do
  expect "?."
  match ← peek? with
  | some '(' => arguments i
  | some '<' =>
    typeArguments i
    arguments i
  | some '[' =>
    expect "["
    expressions i false
    expect "]"
  | some '#' => privateName
  | _ => let _ ← word

/-- What follows an operand and goes on with it; `canAssign` says whether it can be assigned to. -/
def operandTail (asi : Bool) : Nat → Bool → Parser PUnit
  | 0, _ => return ⟨⟩
  | bound + 1, canAssign => do
    if asi && (← implied true false) then return ⟨⟩
    let t ← ahead
    match t with
    | '.' :: _ =>
      if Text.startsWith t ['.', '.', '.'] then return ⟨⟩
      expect "."
      if ← atText? "#" then privateName else let _ ← word
      operandTail asi bound true
    | '(' :: _ =>
      arguments i
      operandTail asi bound false
    | '[' :: _ =>
      expect "["
      expressions i false
      expect "]"
      operandTail asi bound true
    | '\x60' :: _ =>
      template i (expressions i false)
      operandTail asi bound false
    | '!' :: c :: _ =>
      if c == '=' then infix_ bound t
      else
        expect "!"
        operandTail asi bound true
    | ['!'] =>
      expect "!"
      operandTail asi bound true
    | '?' :: '.' :: c :: _ =>
      if Text.isDigit c then choice bound
      else
        optionalChain i
        operandTail asi bound true
    | '?' :: '?' :: _ => assignOrInfix bound canAssign t
    | '?' :: _ => if startsChoice t then choice bound else return ⟨⟩
    | '<' :: _ =>
      match ← attempt (do typeArguments i; afterTypeArguments) with
      | some _ => operandTail asi bound canAssign
      | none => assignOrInfix bound canAssign t
    | '+' :: '+' :: _ | '-' :: '-' :: _ =>
      if !(← accept "++") then expect "--"
      operandTail asi bound false
    | c :: _ =>
      if isWordStart c then wordInfix bound
      else assignOrInfix bound canAssign t
    | [] => return ⟨⟩
where
  /-- The rest of a choice. The colon after parentheses is its own where it gives no function its
  result. -/
  choice (bound : Nat) : Parser PUnit := do
    expect "?"
    (do i.expression false; expect ":") <|> (do
      parenthesized i
      operandTail false bound true
      expect ":")
    i.expression asi
    operandTail asi bound false
  infix_ (bound : Nat) (t : Text) : Parser PUnit := do
    match operator? t with
    | some s =>
      if assignments.contains s then return ⟨⟩
      else
        expect s
        let canAssign ← operand i asi
        operandTail asi bound canAssign
    | none => return ⟨⟩
  assignOrInfix (bound : Nat) (canAssign : Bool) (t : Text) : Parser PUnit := do
    match operator? t with
    | some s =>
      if canAssign && assignments.contains s then
        expect s
        i.expression asi
      else infix_ bound t
    | none => return ⟨⟩
  wordInfix (bound : Nat) : Parser PUnit := do
    if ← acceptWord "as" then
      if !(← acceptWord "const") then i.type asi
      operandTail asi bound false
    else if ← acceptWord "satisfies" then
      i.type asi
      operandTail asi bound false
    else if (← acceptWord "instanceof") || (← acceptWord "in") then
      let canAssign ← operand i asi
      operandTail asi bound canAssign
    else return ⟨⟩

def anyExpression (asi : Bool) : Parser PUnit := do
  let canAssign ← operand i asi
  operandTail i asi i.bound canAssign

end Graft.Script
