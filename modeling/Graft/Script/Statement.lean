import Graft.Script.Expression

set_option autoImplicit false

/-!
Statements and whole sources. A word that starts a statement is no name there, except the few that
are tried as names when they start nothing.
-/

namespace Graft.Script

open Graft.Script.Parser

variable (i : Inside)

def binding : Parser Bool := do
  let sure : Parser Bool := do
    let _ ← word
    expect "!"
    expect ":"
    i.type true
    return false
  let plain : Parser Bool := do
    bindable i patternDepth
    if ← implied false false then return false
    typeHint? i true
    initializer? i true
  sure <|> plain

def bindingsFrom : Nat → Parser Bool
  | 0 => fail
  | bound + 1 => do
    let hasValue ← binding i
    if ← accept "," then bindingsFrom bound else return hasValue

def bindings : Parser PUnit := do
  let hasValue ← bindingsFrom i i.bound
  semicolon hasValue false

def expressionStatement : Parser PUnit := do
  expressions i true
  semicolon true false

def conditional : Parser PUnit := do
  expectWord "if"
  parenthesized i
  let _ ← i.statement
  if ← acceptWord "else" then
    let _ ← i.statement

def caseBody : Nat → Parser PUnit
  | 0 => return ⟨⟩
  | bound + 1 => do
    if (← atWord? "case") || (← atWord? "default") || (← atText? "\x7d") then return ⟨⟩
    let _ ← i.statement
    caseBody bound

def switchCase : Parser PUnit := do
  if ← acceptWord "case" then expressions i false else expectWord "default"
  expect ":"
  caseBody i i.bound

def switch : Parser PUnit := do
  expectWord "switch"
  parenthesized i
  expect "\x7b"
  let _ ← many (switchCase i) i.bound
  expect "\x7d"

def eachHead : Parser PUnit := do
  expect "("
  let declared : Parser PUnit := do
    if !((← acceptWord "let") || (← acceptWord "const")) then expectWord "var"
    bindable i patternDepth
    let _ ← initializer? i false
  let assigned : Parser PUnit := do
    let canAssign ← operand i false
    guardThat canAssign
    let _ ← many (do
      if ← accept "." then
        if ← atText? "#" then privateName else let _ ← word
      else
        expect "["
        expressions i false
        expect "]") i.bound
  declared <|> assigned
  if !(← acceptWord "of") then expectWord "in"
  expressions i false
  expect ")"

def countHead : Parser PUnit := do
  let clause : Parser PUnit := do
    if !(← accept ";") then
      expressions i false
      expect ";"
  let declared : Parser PUnit := do
    if !((← acceptWord "let") || (← acceptWord "const")) then expectWord "var"
    bindings i
  expect "("
  declared <|> clause
  clause
  if !(← accept ")") then
    expressions i false
    expect ")"

def forLoop : Parser PUnit := do
  expectWord "for"
  if ← acceptWord "await" then eachHead i
  else eachHead i <|> countHead i
  let _ ← i.statement

def whileLoop : Parser PUnit := do
  expectWord "while"
  parenthesized i
  let _ ← i.statement

def doLoop : Parser PUnit := do
  expectWord "do"
  let _ ← i.statement
  expectWord "while"
  parenthesized i
  let _ ← accept ";"

def tryStatement : Parser PUnit := do
  expectWord "try"
  block i
  if ← acceptWord "catch" then
    if ← accept "(" then
      bindable i patternDepth
      typeHint? i false
      expect ")"
    block i
  if ← acceptWord "finally" then block i

def withStatement : Parser PUnit := do
  expectWord "with"
  parenthesized i
  let _ ← i.statement

def jump : Parser PUnit := do
  let _ ← word
  if !(← implied false false) then
    if !(← atText? ";") then let _ ← word
  semicolon false false

def returnStatement : Parser PUnit := do
  expectWord "return"
  if ← implied false false then return ⟨⟩
  if ← accept ";" then return ⟨⟩
  expressionStatement i

def throwStatement : Parser PUnit := do
  expectWord "throw"
  expressionStatement i

def functionDeclaration : Parser PUnit := do
  let _ ← acceptWord "async"
  expectWord "function"
  let isGenerator ← accept "*"
  let _ ← word
  let _ ← callSignature i true
  if ← atText? "\x7b" then block i
  else
    guardThat !isGenerator
    semicolon false true

def classDeclaration : Parser ClassNode := do
  let _ ← extras
  let start := (← get).offset
  let _ ← decorators i i.bound
  let isAbstract ← acceptWord "abstract"
  expectWord "class"
  let (name, children, body) ← classRest i
  if !isAbstract then trailingComments
  let span : Span := ⟨start, (← get).last⟩
  return { outer := span, span, name, body, children }

def enumMember : Parser PUnit := do
  let _ ← propertyName i
  let _ ← initializer? i false

def enumDeclaration : Parser PUnit := do
  let _ ← acceptWord "const"
  expectWord "enum"
  let _ ← word
  expect "\x7b"
  if !(← accept "\x7d") then
    let _ ← commaSep1 (enumMember i) i.bound
    let _ ← accept ","
    expect "\x7d"

def interfaceDeclaration : Parser PUnit := do
  let parent : Parser PUnit := do
    let _ ← word
    namedType i
  expectWord "interface"
  let _ ← word
  if ← atText? "<" then typeParameters i
  if ← acceptWord "extends" then
    let _ ← commaSep1 parent i.bound
  objectType i

def typeDeclaration : Parser PUnit := do
  expectWord "type"
  let _ ← word
  if ← atText? "<" then typeParameters i
  expect "="
  i.type true
  semicolon false false

def moduleDeclaration : Parser PUnit := do
  if !(← acceptWord "module") then expectWord "namespace"
  moduleRest i

def importAlias : Parser PUnit := do
  let _ ← word
  expect "="
  let _ ← word
  let _ ← many (do expect "."; let _ ← word) i.bound
  semicolon false false

def plainDeclaration : Parser PUnit := do
  match ((← peekWord?).getD []).toString with
  | "function" | "async" => functionDeclaration i
  | "var" | "let" =>
    let _ ← word
    bindings i
  | "const" =>
    enumDeclaration i <|> (do
      expectWord "const"
      bindings i)
  | "enum" => enumDeclaration i
  | "interface" => interfaceDeclaration i
  | "type" => typeDeclaration i
  | "module" | "namespace" => moduleDeclaration i
  | "import" =>
    expectWord "import"
    importAlias i
  | "declare" => ambient
  | _ => fail
where
  ambient : Parser PUnit := do
    expectWord "declare"
    let global : Parser PUnit := do
      expectWord "global"
      block i
    let moduleValue : Parser PUnit := do
      expectWord "module"
      expect "."
      let _ ← word
      expect ":"
      i.type true
      semicolon false false
    let declared : Parser PUnit := do
      guardThat (← startsDeclaration)
      let _ ← i.statement
    global <|> moduleValue <|> declared
  startsDeclaration : Parser Bool := do
    let words := ["function", "async", "var", "let", "const", "enum", "interface", "type", "module",
      "namespace", "import", "declare", "class", "abstract"]
    return (← atText? "@") || (← peekWord?).any fun w => words.any (·.toList == w)

def exportName : Parser PUnit := do
  if (← peekWord?).isSome then let _ ← word
  else string

def specifier : Parser PUnit := do
  let renamed : Parser PUnit := do
    exportName
    if ← acceptWord "as" then exportName
  let typed : Parser PUnit := do
    if !(← acceptWord "type") then expectWord "typeof"
    renamed
  let closed (p : Parser PUnit) : Parser PUnit := do
    p
    guardThat ((← atText? ",") || (← atText? "\x7d"))
  closed typed <|> closed renamed

def specifiers : Parser PUnit := do
  expect "\x7b"
  if !(← accept "\x7d") then
    let _ ← commaSep1 specifier i.bound
    let _ ← accept ","
    expect "\x7d"

def fromClause : Parser PUnit := do
  expectWord "from"
  string

def attributes : Parser PUnit := do
  if (← atWord? "with") || (← atWord? "assert") then
    let _ ← word
    object i

def importClause : Parser PUnit := do
  let all : Parser PUnit := do
    expect "*"
    expectWord "as"
    let _ ← word
  let several := all <|> specifiers i
  if (← peekWord?).isSome then
    let _ ← word
    if ← accept "," then several
  else several

def importStatement : Parser PUnit := do
  let required : Parser PUnit := do
    let _ ← word
    expect "="
    expectWord "require"
    expect "("
    string
    expect ")"
  let what : Parser PUnit := do
    (do
      importClause i
      fromClause) <|> required <|> string
  let typed : Parser PUnit := do
    if !(← acceptWord "type") then expectWord "typeof"
    what
  expectWord "import"
  (do
    typed <|> what
    attributes i
    semicolon false false) <|> importAlias i

/-- What follows `export`; a class is given with its own span. -/
def exported : Parser Statement := do
  let plain (p : Parser PUnit) : Parser Statement := do
    p
    return none
  let declared : Parser Statement :=
    (do return some (← classDeclaration i)) <|> plain (plainDeclaration i)
  let value : Parser PUnit := do
    i.expression true
    semicolon true false
  if ← accept "*" then
    if ← acceptWord "as" then exportName
    fromClause
    attributes i
    semicolon false false
    return none
  else if ← atText? "\x7b" then
    specifiers i
    if ← atWord? "from" then
      fromClause
      attributes i
    semicolon false false
    return none
  else if ← accept "=" then
    value
    return none
  else if ← acceptWord "default" then declared <|> plain value
  else
    plain (do
      expectWord "type"
      specifiers i
      if ← atWord? "from" then fromClause
      semicolon false false) <|>
    plain (do
      expectWord "as"
      expectWord "namespace"
      let _ ← word
      semicolon false false) <|> declared

def exportStatement : Parser Statement := do
  let (found, outer) ← spanned (do
    let _ ← decorators i i.bound
    expectWord "export"
    exported i)
  return found.map fun c => { c with outer := ⟨outer.start, c.span.stop⟩ }

def labelled : Parser PUnit := do
  let _ ← word
  expect ":"
  let _ ← i.statement

/-- Words that start a statement of their own kind and are no names at its start. -/
def controlWords : List (Text × Parser PUnit) :=
  [("if".toList, conditional i), ("switch".toList, switch i), ("for".toList, forLoop i),
    ("while".toList, whileLoop i), ("do".toList, doLoop i), ("try".toList, tryStatement i),
    ("with".toList, withStatement i), ("break".toList, jump), ("continue".toList, jump),
    ("return".toList, returnStatement i), ("throw".toList, throwStatement i),
    ("debugger".toList, do
      expectWord "debugger"
      semicolon false false),
    ("var".toList, plainDeclaration i), ("const".toList, plainDeclaration i),
    ("enum".toList, plainDeclaration i), ("interface".toList, plainDeclaration i)]

/-- A statement that starts with a word that may be a name as well. -/
def openStatement (w : Text) : Parser PUnit := do
  let declares :=
    ["let", "type", "module", "namespace", "declare", "async", "function"].any (·.toList == w)
  let declared := if declares then plainDeclaration i else fail
  let labels := if expressionWords.contains w then fail else labelled i
  declared <|> labels <|> expressionStatement i

def anyStatement : Parser Statement := do
  let plain (p : Parser PUnit) : Parser Statement := do
    p
    return none
  let class_ : Parser Statement := do
    return some (← classDeclaration i)
  match ← peek? with
  | some ';' => plain (expect ";")
  | some '\x7b' => plain (block i <|> expressionStatement i)
  | some '@' => class_ <|> exportStatement i <|> plain (expressionStatement i)
  | some _ =>
    match ← peekWord? with
    | some w =>
      match (controlWords i).find? (·.1 == w) with
      | some (_, p) => plain p
      | none =>
        if w == "class".toList then class_ <|> plain (expressionStatement i)
        else if w == "abstract".toList then class_
        else if w == "export".toList then exportStatement i <|> plain (openStatement i w)
        else if w == "import".toList then plain (importStatement i <|> expressionStatement i)
        else plain (openStatement i w)
    | none => plain (expressionStatement i)
  | none => fail

/-- The rules with everything nested at most so deep. -/
def inside (bound : Nat) : Nat → Inside
  | 0 => ⟨fun _ => fail, fun _ => fail, fail, bound⟩
  | depth + 1 =>
    let i := inside bound depth
    ⟨anyExpression i, anyType i, anyStatement i, bound⟩

def maxDepth : Nat := 400

def program : Nat → Inside → Parser (List ClassNode)
  | 0, _ => fail
  | bound + 1, i => do
    if (← ahead).isEmpty then return []
    match ← anyStatement i with
    | some c => return c :: (← program bound i)
    | none => program bound i

def afterHashBang (t : Text) : Text :=
  if Text.startsWith t ['#', '!'] then t.dropWhile (· != '\n') else t

/-- The classes a source declares at its top, in their order; nothing if it is no source. -/
def classes? (source : Text) : Option (List ClassNode) :=
  let bound := source.length + 1
  let start : Cursor := { Cursor.ofText source with rest := afterHashBang source }
  (program bound (inside bound maxDepth) start).map (·.1)

end Graft.Script
