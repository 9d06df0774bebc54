import Graft.Suite.Expression

set_option autoImplicit false

/-!
Statements of Python, and the patterns of a `case`.
-/

namespace Graft.Suite

open Graft.Suite.Parser

namespace Case

variable (i : Expression.Inside)

def signedNumber : Parser Expr := do
  let negative ← accept "-"
  let t ← next
  guardThat (t.kind == .number)
  match Literal.number? t.text with
  | some c => return if negative then .unary .minus (.constant c) else .constant c
  | none => fail

def numberLiteral : Parser Expr := do
  let left ← signedNumber
  let op ← if ← accept "+" then pure (some BinaryOp.add)
    else if ← accept "-" then pure (some BinaryOp.sub) else pure none
  match op with
  | none => return left
  | some op =>
    let t ← next
    guardThat (t.kind == .number)
    match left, Literal.number? t.text with
    | .constant (.imaginary _), _ | .unary _ (.constant (.imaginary _)), _ => fail
    | _, some (.imaginary d) => return .binary op left (.constant (.imaginary d))
    | _, _ => fail

def dotted : Parser Expr := do
  let first ← name
  let rest ← many (do expect "."; name) i.bound
  return rest.foldl Expr.attribute (.name first)

/-- A name that a value is bound to; the low line binds nothing. -/
def captureName : Parser Text := do
  let n ← name
  guardThat (n != ['_'])
  return n

def literal? : Parser (Option CasePattern) := do
  let t ← peek
  if t.kind == .string then return some (.value (← Expression.strings i))
  else if t.kind == .number || reads t "-" then return some (.value (← numberLiteral))
  else if ← accept "None" then return some (.singleton .none)
  else if ← accept "True" then return some (.singleton .true)
  else if ← accept "False" then return some (.singleton .false)
  else return none

variable (pattern : Parser CasePattern)

def maybeStar : Parser CasePattern := do
  if ← accept "*" then
    let n ← name
    return .star (if n == ['_'] then none else some n)
  else pattern

def itemsUpTo (closer : String) : Parser (List CasePattern × Bool) := do
  if ← accept closer then return ([], false)
  let r ← gather (maybeStar pattern) i.bound
  expect closer
  return r

def isStar : CasePattern → Bool
  | .star _ => true
  | _ => false

def parenthesized : Parser CasePattern := do
  let (items, trailing) ← itemsUpTo i pattern ")"
  match items, trailing with
  | [p], false => if isStar p then fail else return p
  | ps, _ => return .sequence ps

def keyed : Parser (Expr × CasePattern) := do
  let key ← match ← literal? i with
    | some (.value e) => pure e
    | some (.singleton c) => pure (.constant c)
    | some _ => fail
    | none => do
      let e ← dotted i
      match e with
      | .attribute .. => pure e
      | _ => fail
  expect ":"
  return (key, ← pattern)

/-- After an opening brace. The rest of a mapping comes last. -/
def mapping : Parser CasePattern := do
  let pairs ← many (do
    let p ← keyed i pattern
    guardThat ((← accept ",") || (← at? "\x7d"))
    return p) i.bound
  let rest ← if ← accept "**" then do
      let n ← captureName
      let _ ← accept ","
      pure (some n)
    else pure none
  expect "\x7d"
  return .mapping (pairs.map (·.1)) (pairs.map (·.2)) rest

def arguments : Nat → List CasePattern → List (Text × CasePattern) →
    Parser (List CasePattern × List (Text × CasePattern))
  | 0, _, _ => fail
  | bound + 1, plain, named => do
    if ← accept ")" then return (plain, named)
    let (plain, named) ←
      if isName (← peek) && reads (← peekSecond) "=" then do
        let n ← name
        expect "="
        pure (plain, named ++ [(n, ← pattern)])
      else do
        guardThat named.isEmpty
        pure (plain ++ [← pattern], named)
    if ← accept "," then arguments bound plain named
    else
      expect ")"
      return (plain, named)

def closed : Parser CasePattern := do
  match ← literal? i with
  | some p => return p
  | none =>
    if ← accept "(" then parenthesized i pattern
    else if ← accept "[" then return .sequence (← itemsUpTo i pattern "]").1
    else if ← accept "\x7b" then mapping i pattern
    else
      let e ← dotted i
      if ← accept "(" then
        let (plain, named) ← arguments pattern i.bound [] []
        return .instance e plain (named.map (·.1)) (named.map (·.2))
      else
        match e with
        | .name n => return if n == ['_'] then .wildcard else .capture n
        | e => return .value e

def step : Parser CasePattern := do
  let first ← closed i pattern
  let rest ← many (do expect "|"; closed i pattern) i.bound
  let p := if rest.isEmpty then first else .anyOf (first :: rest)
  if ← accept "as" then return .bound p (← captureName) else return p

def parse : Nat → Parser CasePattern
  | 0 => fail
  | depth + 1 => step i (parse depth)

def top (depth : Nat) : Parser CasePattern := do
  let (items, trailing) ← gather (maybeStar (parse i depth)) i.bound
  match items, trailing with
  | [p], false => if isStar p then fail else return p
  | ps, _ => return .sequence ps

end Case

namespace Statement

open Expression

variable (i : Inside)

def augmentations : List (String × BinaryOp) :=
  [("+=", .add), ("-=", .sub), ("*=", .mul), ("@=", .matMul), ("/=", .div), ("%=", .mod),
    ("&=", .bitAnd), ("|=", .bitOr), ("^=", .bitXor), ("<<=", .shiftLeft), (">>=", .shiftRight),
    ("**=", .pow), ("//=", .floorDiv)]

def valueOrYield : Parser Expr := do
  if ← at? "yield" then yieldExpr i else starExpressions i

/-- The values after each sign of a plain assignment; the last one is assigned. -/
def assigned : Nat → List Expr → Parser Stmt
  | 0, _ => fail
  | bound + 1, targets => do
    let e ← valueOrYield i
    if ← accept "=" then
      guardThat (isTarget e)
      assigned bound (targets ++ [e])
    else return .assign targets e

def expressionStatement : Parser Stmt := do
  let first ← peek
  let e ← valueOrYield i
  if ← accept "=" then
    guardThat (isTarget e)
    assigned i i.bound [e]
  else if ← accept ":" then
    guardThat (isSingleTarget e)
    let hint ← expression i
    let value ← if ← accept "=" then some <$> valueOrYield i else pure none
    let simple := match e with
      | .name _ => isName first
      | _ => false
    return .annotate e hint value simple
  else match operator? augmentations (← peek) with
    | some op =>
      guardThat (isSingleTarget e)
      let _ ← next
      return .augment e op (← valueOrYield i)
    | none => return .expr e

def dottedName : Parser Text := do
  let first ← name
  let rest ← many (do expect "."; name) i.bound
  return Text.join ['.'] (first :: rest)

def aliasOf (n : Parser Text) : Parser Alias := do
  let n ← n
  let asName ← if ← accept "as" then some <$> name else pure none
  return ⟨n, asName⟩

/-- Dots before a module name; three may come as one token. -/
def dots : Nat → Parser Nat
  | 0 => pure 0
  | bound + 1 => do
    if ← accept "." then return 1 + (← dots bound)
    else if ← accept "..." then return 3 + (← dots bound)
    else return 0

def importFrom : Parser Stmt := do
  let level ← dots i.bound
  let source ← attempt (dottedName i)
  guardThat (level != 0 || source.isSome)
  expect "import"
  if ← accept "*" then return .importsFrom level source [⟨['*'], none⟩]
  else if ← accept "(" then
    let (names, _) ← gather (aliasOf name) i.bound
    expect ")"
    return .importsFrom level source names
  else
    let (names, trailing) ← gather (aliasOf name) i.bound
    guardThat !trailing
    return .importsFrom level source names

def names : Parser (List Text) := do
  let (ns, trailing) ← gather name i.bound
  guardThat !trailing
  return ns

def deletion : Parser Stmt := do
  let (targets, _) ← gather (i.rule .primary) i.bound
  guardThat (areDeletable targets)
  guardThat ((← at? ";") || (← atKind? .newline))
  return .delete targets

def simple : Parser Stmt := do
  if ← accept "pass" then return .pass
  else if ← accept "break" then return .breaks
  else if ← accept "continue" then return .continues
  else if ← accept "return" then return .returns (← attempt (starExpressions i))
  else if ← accept "raise" then
    match ← attempt (expression i) with
    | none => return .raises none none
    | some e =>
      return .raises (some e) (← if ← accept "from" then some <$> expression i else pure none)
  else if ← accept "global" then return .global (← names i)
  else if ← accept "nonlocal" then return .nonlocal (← names i)
  else if ← accept "del" then deletion i
  else if ← accept "assert" then
    let test ← expression i
    return .asserts test (← if ← accept "," then some <$> expression i else pure none)
  else if ← accept "import" then
    let (ns, trailing) ← gather (aliasOf (dottedName i)) i.bound
    guardThat !trailing
    return .imports ns
  else if ← accept "from" then importFrom i
  else expressionStatement i

def placed (p : Parser Stmt) : Parser (Placed Stmt) := do
  let t ← peek
  let node ← p
  let stop := (← get).stop
  return ⟨⟨t.line, t.column, stop, t.line⟩, node⟩

def line : Nat → Parser Block
  | 0 => fail
  | bound + 1 => do
    let s ← placed (simple i)
    if ← accept ";" then
      if ← atKind? .newline then
        expectKind .newline
        return [s]
      else return s :: (← line bound)
    else
      expectKind .newline
      return [s]

variable (statements : Parser Block)

def block : Parser Block := do
  expect ":"
  if ← atKind? .newline then
    expectKind .newline
    expectKind .indent
    let b ← statements
    expectKind .dedent
    return b
  else line i i.bound

def elseBlock : Parser Block := do
  if ← accept "else" then block i statements else return []

/-- After `if` or `elif`; the alternatives nest. -/
def conditional : Nat → Parser Stmt
  | 0 => fail
  | bound + 1 => do
    let test ← named i
    let body ← block i statements
    if ← at? "elif" then
      let rest ← placed (do expect "elif"; conditional bound)
      return .ifElse test body [rest]
    else return .ifElse test body (← elseBlock i statements)

def withItem : Parser (Expr × Option Expr) := do
  let e ← expression i
  if ← accept "as" then
    let t ← starTarget i
    guardThat ((← at? ",") || (← at? ")") || (← at? ":"))
    return (e, some t)
  else return (e, none)

def withItems : Parser (List (Expr × Option Expr)) := do
  let inParentheses : Parser (List (Expr × Option Expr)) := do
    expect "("
    let (items, _) ← gather (withItem i) i.bound
    expect ")"
    guardThat (← at? ":")
    return items
  let plain : Parser (List (Expr × Option Expr)) := do
    let (items, trailing) ← gather (withItem i) i.bound
    guardThat !trailing
    return items
  inParentheses <|> plain

def withStatement (isAsync : Bool) : Parser Stmt := do
  let items ← withItems i
  return .withBlock isAsync items (← block i statements)

def forStatement (isAsync : Bool) : Parser Stmt := do
  let target ← starTargets i
  expect "in"
  let source ← starExpressions i
  let body ← block i statements
  return .forLoop isAsync target source body (← elseBlock i statements)

def handler (grouped : Bool) : Parser ((Option Expr × Option Text) × Block) := do
  expect "except"
  if grouped then expect "*"
  if !grouped && (← at? ":") then return ((none, none), ← block i statements)
  else
    let kind ← expression i
    let n ← if ← accept "as" then some <$> name else pure none
    return ((some kind, n), ← block i statements)

def tryStatement : Parser Stmt := do
  let body ← block i statements
  let grouped := reads (← peek) "except" && reads (← peekSecond) "*"
  let handlers ← many (handler i statements grouped) i.bound
  let orElse ← if handlers.isEmpty then pure [] else elseBlock i statements
  let final ← if ← accept "finally" then block i statements else pure []
  guardThat (!handlers.isEmpty || !final.isEmpty)
  return .tryBlock grouped body (handlers.map (·.1)) (handlers.map (·.2)) orElse final

def caseBlock : Parser ((CasePattern × Option Expr) × Block) := do
  expect "case"
  let p ← Case.top i i.bound
  let guard ← if ← accept "if" then some <$> named i else pure none
  return ((p, guard), ← block i statements)

/-- A selection by patterns; `match` is a plain name elsewhere. -/
def matchStatement : Parser Stmt := do
  expect "match"
  let (items, trailing) ← gather (starNamed i) i.bound
  let subject ← match items, trailing with
    | [e], false => if isStarred e then fail else pure e
    | es, _ => pure (.tuple es)
  expect ":"
  expectKind .newline
  expectKind .indent
  let first ← caseBlock i statements
  let rest ← many (caseBlock i statements) i.bound
  expectKind .dedent
  let cases := first :: rest
  return .matchBlock subject (cases.map (·.1)) (cases.map (·.2))

def functionStatement (isAsync : Bool) (decorators : List Expr) : Parser Stmt := do
  expect "def"
  let n ← name
  expect "("
  let ps ← params i true ")"
  expect ")"
  let returns ← if ← accept "->" then some <$> expression i else pure none
  return .function isAsync n ps returns decorators (← block i statements)

def classStatement (decorators : List Expr) : Parser Stmt := do
  expect "class"
  let n ← name
  let a ← if ← accept "(" then argumentsFrom i false i.bound {} else pure {}
  return .classDef n a.args a.keywords decorators (← block i statements)

/-- The line on which the tree of an expression starts: brackets around the whole of it do not
count. -/
def startLine (i : Inside) : Nat → List Token → Nat
  | 0, ts => (ts.head?.map (·.line)).getD 0
  | fuel + 1, ts =>
    let whole := (ts.head?.map (·.line)).getD 0
    match ts with
    | t :: rest =>
      let inner := rest.dropLast
      let grouped : Parser Expr := do if ← at? "yield" then yieldExpr i else named i
      if reads t "(" && (rest.getLast?.any (reads · ")")) &&
          succeedsOn grouped (inner ++ [{ t with kind := .finish, text := [] }])
      then startLine i fuel inner else whole
    | [] => whole

def decorator : Parser (Expr × Nat) := do
  expect "@"
  let before := (← get).tokens
  let e ← named i
  let after := (← get).tokens
  expectKind .newline
  return (e, startLine i before.length (before.take (before.length - after.length)))

def definition : Parser (Placed Stmt) := do
  let decorators ← many (decorator i) i.bound
  let exprs := decorators.map (·.1)
  let s ← placed (do
    if ← at? "class" then classStatement i statements exprs
    else if ← accept "async" then functionStatement i statements true exprs
    else functionStatement i statements false exprs)
  let first := (decorators.map (·.2)).foldl min s.place.line
  return { s with place := { s.place with first } }

def statement : Parser Block := do
  let t ← peek
  let one (p : Parser Stmt) : Parser Block := return [← placed p]
  if t.kind == .op && t.text == ['@'] then return [← definition i statements]
  else if reads t "def" || reads t "class" then return [← definition i statements]
  else if reads t "async" then
    if reads (← peekSecond) "def" then return [← definition i statements]
    else one (do
      expect "async"
      if ← accept "with" then withStatement i statements true
      else
        expect "for"
        forStatement i statements true)
  else if reads t "if" then one (do expect "if"; conditional i statements i.bound)
  else if reads t "while" then one (do
    expect "while"
    let test ← named i
    let body ← block i statements
    return .whileLoop test body (← elseBlock i statements))
  else if reads t "for" then one (do expect "for"; forStatement i statements false)
  else if reads t "with" then one (do expect "with"; withStatement i statements false)
  else if reads t "try" then one (do expect "try"; tryStatement i statements)
  else if reads t "match" then one (matchStatement i statements) <|> line i i.bound
  else line i i.bound

def sequence (i : Inside) : Nat → Parser Block
  | 0 => fail
  | depth + 1 => do
    let first ← statement i (sequence i depth)
    return first ++ (← many (statement i (sequence i depth)) i.bound).flatten

end Statement

def parse? (source : Text) : Option Block := do
  let tokens ← Token.ofSource? source
  let i := Expression.inside (source.length + 2) (source.length + 2)
  let file : Parser Block := do
    if ← atKind? .finish then return []
    let b ← Statement.sequence i 101
    expectKind .finish
    return b
  (file ⟨tokens, 1⟩).map (·.1)

def parseExpression? (source : Text) : Option Expr := do
  let tokens ← Token.ofText? source.plainNewlines
  let i := Expression.inside (source.length + 2) (source.length + 2)
  let whole : Parser Expr := do
    let (items, trailing) ← gather (Expression.expression i) i.bound
    let _ ← many (expectKind .newline) i.bound
    expectKind .finish
    match items, trailing with
    | [e], false => return e
    | es, _ => return .tuple es
  (whole ⟨tokens, 1⟩).map (·.1)

end Graft.Suite
