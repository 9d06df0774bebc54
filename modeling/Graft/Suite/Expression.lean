import Graft.Suite.Formatted
import Graft.Suite.Parser

set_option autoImplicit false

/-!
Expressions of Python. Each rule is written over the rules it meets again further inside, and
`Expression.parse` ties the knot with a bound on the depth.
-/

namespace Graft.Suite

namespace Expression

open Graft.Suite.Parser

inductive Rule where
  | expression
  | disjunction
  | inversion
  | bitwiseOr
  | factor
  | primary
  | starExpressions
  deriving DecidableEq, Repr

/-- The rules further inside, and a bound on the length of any list. -/
structure Inside where
  rule : Rule → Parser Expr
  bound : Nat

variable (i : Inside)

def expression : Parser Expr := i.rule .expression

def named : Parser Expr := do
  let t ← peek
  if isName t && reads (← peekSecond) ":=" then
    let target ← name
    expect ":="
    return .named (.name target) (← expression i)
  else
    let e ← expression i
    guardThat !(← at? ":=")
    return e

mutual

def isTarget : Expr → Bool
  | .name _ | .attribute .. | .subscript .. => true
  | .tuple items => areTargets items
  | .list items => areTargets items
  | .starred (.starred _) => false
  | .starred e => isTarget e
  | _ => false

def areTargets : List Expr → Bool
  | [] => true
  | e :: es => isTarget e && areTargets es

end

/-- What can be annotated or assigned to with an operator. -/
def isSingleTarget : Expr → Bool
  | .name _ | .attribute .. | .subscript .. => true
  | _ => false

mutual

def isDeletable : Expr → Bool
  | .name _ | .attribute .. | .subscript .. => true
  | .tuple items => areDeletable items
  | .list items => areDeletable items
  | _ => false

def areDeletable : List Expr → Bool
  | [] => true
  | e :: es => isDeletable e && areDeletable es

end

def operator? (table : List (String × BinaryOp)) (t : Token) : Option BinaryOp :=
  table.findSome? fun (s, op) => if t.kind == .op && t.text == s.toList then some op else none

/-- Operands joined by operators of one rank, from the left. -/
def chain (table : List (String × BinaryOp)) (operand : Parser Expr) : Nat → Expr → Parser Expr
  | 0, left => pure left
  | bound + 1, left => do
    match operator? table (← peek) with
    | some op =>
      let _ ← next
      chain table operand bound (.binary op left (← operand))
    | none => return left

def level (table : List (String × BinaryOp)) (operand : Parser Expr) : Parser Expr := do
  chain table operand i.bound (← operand)

def joinedBy (word : String) (make : List Expr → Expr) (operand : Parser Expr) : Parser Expr := do
  let first ← operand
  match ← many (do expect word; operand) i.bound with
  | [] => return first
  | rest => return make (first :: rest)

def param (annotated : Bool) (hint : Parser Expr) : Parser (Text × Option Expr) := do
  let n ← name
  if !annotated then return (n, none)
  else if ← accept ":" then return (n, some (← hint))
  else return (n, none)

structure ParamList where
  positional : List Param := []
  plain : List Param := []
  rest : Option Param := none
  keywordOnly : List Param := []
  keywords : Option Param := none
  seenDefault : Bool := false
  seenStar : Bool := false
  seenSlash : Bool := false
  /-- A bare star asks for a parameter after it. -/
  owed : Bool := false

def ParamList.done (l : ParamList) : Params :=
  .mk l.positional l.plain l.rest l.keywordOnly l.keywords

def paramItem (annotated : Bool) (closer : String) (l : ParamList) : Parser ParamList := do
  if ← accept "/" then
    guardThat (!l.seenSlash && !l.seenStar && !l.plain.isEmpty)
    return { l with positional := l.plain, plain := [], seenSlash := true }
  else if ← accept "**" then
    guardThat !l.owed
    let (n, a) ← param annotated (expression i)
    return { l with keywords := some (.mk n a none) }
  else if ← accept "*" then
    guardThat !l.seenStar
    if ← at? "," then return { l with seenStar := true, owed := true }
    else
      let starOrPlain : Parser Expr := do
        if ← accept "*" then return .starred (← i.rule .bitwiseOr)
        else expression i
      let (n, a) ← param annotated (if closer == ")" then starOrPlain else expression i)
      return { l with rest := some (.mk n a none), seenStar := true }
  else
    let (n, a) ← param annotated (expression i)
    let d ← if ← accept "=" then some <$> expression i else pure none
    if l.seenStar then
      return { l with keywordOnly := l.keywordOnly ++ [.mk n a d], owed := false }
    else
      guardThat (d.isSome || !l.seenDefault)
      return { l with plain := l.plain ++ [.mk n a d], seenDefault := d.isSome }

/-- Parameters up to, and without, the sign that closes the list. Nothing follows two stars. -/
def paramsFrom (annotated : Bool) (closer : String) : Nat → ParamList → Parser Params
  | 0, _ => fail
  | bound + 1, l => do
    if ← at? closer then
      guardThat !l.owed
      return l.done
    else
      guardThat l.keywords.isNone
      let l ← paramItem i annotated closer l
      if ← accept "," then paramsFrom annotated closer bound l
      else
        guardThat ((← at? closer) && !l.owed)
        return l.done

def params (annotated : Bool) (closer : String) : Parser Params :=
  paramsFrom i annotated closer i.bound {}

def starNamed : Parser Expr := do
  if ← accept "*" then return .starred (← i.rule .bitwiseOr) else named i

def starExpression : Parser Expr := do
  if ← accept "*" then return .starred (← i.rule .bitwiseOr) else expression i

def starExpressions : Parser Expr := do
  let (items, trailing) ← gather (starExpression i) i.bound
  match items, trailing with
  | [e], false => return e
  | es, _ => return .tuple es

def yieldExpr : Parser Expr := do
  expect "yield"
  if ← accept "from" then return .yieldFrom (← expression i)
  else return .yield (← attempt (starExpressions i))

def condition : Parser Expr := do
  expect "if"
  i.rule .disjunction

/-- One target of a loop: a primary that can be assigned to, which may be spread. -/
def starTarget : Parser Expr := do
  let e ← if ← accept "*" then Expr.starred <$> i.rule .primary else i.rule .primary
  guardThat (isTarget e)
  return e

def starTargets : Parser Expr := do
  let (items, trailing) ← gather (starTarget i) i.bound
  match items, trailing with
  | [e], false => return e
  | es, _ => return .tuple es

def clause : Parser Clause := do
  let isAsync ← accept "async"
  expect "for"
  let target ← starTargets i
  expect "in"
  let source ← i.rule .disjunction
  return .mk isAsync target source (← many (condition i) i.bound)

def clauses : Parser (List Clause) := do
  let first ← clause i
  return first :: (← many (clause i) i.bound)

def atClause? : Parser Bool := return (← at? "for") || (← at? "async")

def itemsAfter (first : Expr) (closer : String) : Parser (List Expr) := do
  if ← accept closer then return [first]
  expect ","
  if ← accept closer then return [first]
  let (rest, _) ← gather (starNamed i) i.bound
  expect closer
  return first :: rest

def isStarred : Expr → Bool
  | .starred _ => true
  | _ => false

def parenthesized : Parser Expr := do
  if ← accept ")" then return .tuple []
  if ← at? "yield" then
    let e ← yieldExpr i
    expect ")"
    return e
  let first ← starNamed i
  if ← at? "," then return .tuple (← itemsAfter i first ")")
  guardThat !(isStarred first)
  if ← atClause? then
    let cs ← clauses i
    expect ")"
    return .each first cs
  expect ")"
  return first

def bracketed : Parser Expr := do
  if ← accept "]" then return .list []
  let first ← starNamed i
  if !(isStarred first) && (← atClause?) then
    let cs ← clauses i
    expect "]"
    return .listOf first cs
  return .list (← itemsAfter i first "]")

def entry : Parser Entry := do
  if ← accept "**" then return .spread (← i.rule .bitwiseOr)
  let key ← expression i
  expect ":"
  return .pair key (← expression i)

def entriesAfter (first : Entry) : Parser Expr := do
  let rest ← many (do expect ","; entry i) i.bound
  let _ ← accept ","
  expect "\x7d"
  return .dict (first :: rest)

def braced : Parser Expr := do
  if ← accept "\x7d" then return .dict []
  if ← at? "**" then entriesAfter i (← entry i)
  else
    let isKey := !(isName (← peek) && reads (← peekSecond) ":=") && !(← at? "*")
    let first ← starNamed i
    if isKey && (← at? ":") then
      expect ":"
      let value ← expression i
      if ← atClause? then
        let cs ← clauses i
        expect "\x7d"
        return .dictOf first value cs
      entriesAfter i (.pair first value)
    else if !(isStarred first) && (← atClause?) then
      let cs ← clauses i
      expect "\x7d"
      return .setOf first cs
    else return .set (← itemsAfter i first "\x7d")

/-- Arguments read so far. After a keyword come no plain ones, after a mapping no stars. -/
structure Arguments where
  args : List Expr := []
  keywords : List Keyword := []
  seenKeyword : Bool := false
  seenMapping : Bool := false

def argument (a : Arguments) : Parser Arguments := do
  if ← accept "**" then
    let e ← expression i
    return { a with
      keywords := a.keywords ++ [.mk none e], seenKeyword := true, seenMapping := true }
  if ← accept "*" then
    guardThat !a.seenMapping
    return { a with args := a.args ++ [.starred (← expression i)] }
  if isName (← peek) && reads (← peekSecond) "=" then
    let n ← name
    expect "="
    return { a with keywords := a.keywords ++ [.mk (some n) (← expression i)], seenKeyword := true }
  guardThat !a.seenKeyword
  return { a with args := a.args ++ [← named i] }

/-- Arguments up to and with the closing parenthesis. The only argument of a call may be a generator
without brackets of its own. -/
def argumentsFrom (isCall : Bool) : Nat → Arguments → Parser Arguments
  | 0, _ => fail
  | bound + 1, a => do
    if ← accept ")" then return a
    let a ← argument i a
    if ← accept "," then argumentsFrom isCall bound a
    else
      match a.args, a.keywords with
      | [e], [] =>
        if isCall && !(isStarred e) && (← atClause?) then
          let cs ← clauses i
          expect ")"
          return { a with args := [.each e cs] }
        else
          expect ")"
          return a
      | _, _ =>
        expect ")"
        return a

def sliceBound : Parser (Option Expr) := do
  if (← at? ":") || (← at? ",") || (← at? "]") then return none else return some (← expression i)

def sliceItem : Parser Expr := do
  if ← accept "*" then return .starred (← expression i)
  if isName (← peek) && reads (← peekSecond) ":=" then named i
  else
    let lower ← sliceBound i
    if ← accept ":" then
      let upper ← sliceBound i
      let step ← if ← accept ":" then sliceBound i else pure none
      return .slice lower upper step
    else
      match lower with
      | some e => return e
      | none => fail

def index : Parser Expr := do
  let (items, trailing) ← gather (sliceItem i) i.bound
  expect "]"
  match items, trailing with
  | [e], false => return if isStarred e then .tuple [e] else e
  | es, _ => return .tuple es

def compile (source : Text) : Option Expr := do
  let tokens ← Token.ofText? ('(' :: source ++ [')'])
  let (e, _) ← i.rule .starExpressions ⟨tokens, 1⟩
  return e

def string : Parser Text := do
  let t ← next
  guardThat (t.kind == .string)
  return t.text

def strings : Parser Expr := do
  let first ← string
  let rest ← many string i.bound
  match Formatted.ofTokens? (compile i) (first :: rest) with
  | some e => return e
  | none => fail

def atom : Parser Expr := do
  let t ← peek
  match t.kind with
  | .string => strings i
  | .number =>
    let _ ← next
    match Literal.number? t.text with
    | some c => return .constant c
    | none => fail
  | .name =>
    let _ ← next
    if reads t "True" then return .constant .true
    else if reads t "False" then return .constant .false
    else if reads t "None" then return .constant .none
    else if isName t then return .name t.text
    else fail
  | .op =>
    let _ ← next
    if reads t "(" then parenthesized i
    else if reads t "[" then bracketed i
    else if reads t "\x7b" then braced i
    else if reads t "..." then return .constant .ellipsis
    else fail
  | _ => fail

def trailers : Nat → Expr → Parser Expr
  | 0, e => pure e
  | bound + 1, e => do
    if ← accept "." then trailers bound (.attribute e (← name))
    else if ← accept "(" then
      let a ← argumentsFrom i true i.bound {}
      trailers bound (.call e a.args a.keywords)
    else if ← accept "[" then trailers bound (.subscript e (← index i))
    else return e

def primary : Parser Expr := do trailers i i.bound (← atom i)

def awaited : Parser Expr := do
  if ← accept "await" then return .await (← primary i) else primary i

/-- A power binds tighter than a sign on its left and looser than one on its right. -/
def power : Parser Expr := do
  let base ← awaited i
  if ← accept "**" then return .binary .pow base (← i.rule .factor) else return base

def factor : Parser Expr := do
  if ← accept "+" then return .unary .plus (← i.rule .factor)
  else if ← accept "-" then return .unary .minus (← i.rule .factor)
  else if ← accept "~" then return .unary .invert (← i.rule .factor)
  else power i

def term : Parser Expr :=
  level i [("*", .mul), ("/", .div), ("//", .floorDiv), ("%", .mod), ("@", .matMul)] (factor i)

def sum : Parser Expr := level i [("+", .add), ("-", .sub)] (term i)

def shift : Parser Expr := level i [("<<", .shiftLeft), (">>", .shiftRight)] (sum i)

def bitwiseAnd : Parser Expr := level i [("&", .bitAnd)] (shift i)

def bitwiseXor : Parser Expr := level i [("^", .bitXor)] (bitwiseAnd i)

def bitwiseOr : Parser Expr := level i [("|", .bitOr)] (bitwiseXor i)

def compareOp : Parser CompareOp := do
  if ← accept "==" then return .eq
  else if ← accept "!=" then return .ne
  else if ← accept "<=" then return .le
  else if ← accept "<" then return .lt
  else if ← accept ">=" then return .ge
  else if ← accept ">" then return .gt
  else if ← accept "in" then return .isIn
  else if ← accept "not" then
    expect "in"
    return .notIn
  else
    expect "is"
    if ← accept "not" then return .isNot else return .is

def comparison : Parser Expr := do
  let left ← bitwiseOr i
  let rest ← many (do return (← compareOp, ← bitwiseOr i)) i.bound
  if rest.isEmpty then return left else return .compare left (rest.map (·.1)) (rest.map (·.2))

def inversion : Parser Expr := do
  if ← accept "not" then return .unary .not (← i.rule .inversion) else comparison i

def disjunction : Parser Expr :=
  joinedBy i "or" .either (joinedBy i "and" .both (inversion i))

def lambda : Parser Expr := do
  expect "lambda"
  let ps ← params i false ":"
  expect ":"
  return .lambda ps (← expression i)

def anyExpression : Parser Expr := do
  if ← at? "lambda" then lambda i
  else
    let e ← disjunction i
    if ← accept "if" then
      let test ← disjunction i
      expect "else"
      return .choice test e (← expression i)
    else return e

def rule : Rule → Parser Expr
  | .expression => anyExpression i
  | .disjunction => disjunction i
  | .inversion => inversion i
  | .bitwiseOr => bitwiseOr i
  | .factor => factor i
  | .primary => primary i
  | .starExpressions => starExpressions i

/-- The rules down to a depth; below it nothing is read. -/
def inside (bound : Nat) : Nat → Inside
  | 0 => ⟨fun _ => fail, bound⟩
  | depth + 1 => ⟨rule (inside bound depth), bound⟩

end Expression

end Graft.Suite
