import Graft.Suite.Quoted

set_option autoImplicit false

/-!
Expressions, patterns and statements written out in one layout. Parentheses stand only where the
level of an expression asks for them.
-/

namespace Graft.Suite

namespace Level

def named : Nat := 1
def tuple : Nat := 2
def yields : Nat := 3
def test : Nat := 4
def either : Nat := 5
def both : Nat := 6
def negation : Nat := 7
def comparison : Nat := 8
def bitOr : Nat := 9
def bitXor : Nat := 10
def bitAnd : Nat := 11
def shift : Nat := 12
def sum : Nat := 13
def product : Nat := 14
def factor : Nat := 15
def power : Nat := 16
def await : Nat := 17
def atom : Nat := 18

def next (l : Nat) : Nat := min (l + 1) atom

end Level

def UnaryOp.symbol : UnaryOp → Text
  | .invert => ['~']
  | .not => "not ".toList
  | .plus => ['+']
  | .minus => ['-']

def UnaryOp.level : UnaryOp → Nat
  | .not => Level.negation
  | _ => Level.factor

def BinaryOp.symbol : BinaryOp → String
  | .add => "+"
  | .sub => "-"
  | .mul => "*"
  | .matMul => "@"
  | .div => "/"
  | .mod => "%"
  | .floorDiv => "//"
  | .pow => "**"
  | .shiftLeft => "<<"
  | .shiftRight => ">>"
  | .bitOr => "|"
  | .bitXor => "^"
  | .bitAnd => "&"

def BinaryOp.level : BinaryOp → Nat
  | .add | .sub => Level.sum
  | .mul | .matMul | .div | .mod | .floorDiv => Level.product
  | .pow => Level.power
  | .shiftLeft | .shiftRight => Level.shift
  | .bitOr => Level.bitOr
  | .bitXor => Level.bitXor
  | .bitAnd => Level.bitAnd

def CompareOp.symbol : CompareOp → String
  | .eq => "=="
  | .ne => "!="
  | .lt => "<"
  | .le => "<="
  | .gt => ">"
  | .ge => ">="
  | .is => "is"
  | .isNot => "is not"
  | .isIn => "in"
  | .notIn => "not in"

namespace Print

def commas (ts : List Text) : Text := Text.join ", ".toList ts

def items : List Text → Text
  | [t] => t ++ [',']
  | ts => commas ts

def spaced (s : String) : Text := ' ' :: (s.toList ++ [' '])

/-- Parentheses where what is asked for binds tighter than what is there. -/
def wrap (asked there : Nat) (t : Text) : Text := if there < asked then '(' :: (t ++ [')']) else t

def comparisons : List CompareOp → List Text → Text
  | op :: ops, t :: ts => spaced op.symbol ++ t ++ comparisons ops ts
  | _, _ => []

def isWhole : Expr → Bool
  | .constant (.int _) | .constant .true | .constant .false => true
  | _ => false

def doubleBraces (ps : List Nat) : List Nat :=
  ps.flatMap fun n => if n == 0x7b || n == 0x7d then [n, n] else [n]

/-- The quotes that fit every part in turn, with the parts as they are then written. -/
def fitParts : List (List Nat × Bool) → List Text → Option (Text × List Text)
  | [], quotes => some ([], quotes)
  | (ps, isConstant) :: rest, quotes =>
    let (t, fitting) := withQuotes ps quotes isConstant
    if fitting.any quotes.contains then
      (fitParts rest fitting).map fun (ts, qs) => (t ++ ts, qs)
    else none

/-- A formatted text from its parts, each marked constant or not. If no quotes fit all parts, the
single quotes inside are escaped. -/
def formattedText (parts : List (List Nat × Bool)) : Text :=
  match fitParts parts allQuotes with
  | some (t, qs) =>
    let q := qs.headD []
    q ++ t ++ q
  | none =>
    let q := ['\'', '\'', '\'']
    q ++ parts.flatMap (fun p => escaped '\'' p.1) ++ q

/-- A value in braces; it cannot hold a backslash. -/
def formattedValue (value : Text) (conversion : Option Char) (spec : Option (List Nat)) :
    Option (List Nat) :=
  if value.contains '\\' then none
  else
    let value := if value.head? == some '\x7b' then ' ' :: value else value
    let conversion := match conversion with
      | some c => ['!', c]
      | none => []
    let spec := match spec with
      | some ps => ':'.toNat :: ps
      | none => []
    some (0x7b :: (points (value ++ conversion) ++ spec ++ [0x7d]))

mutual

/-- An expression where the level asked for is `l`. With `avoid`, backslashes are avoided; there is
no text at all if a value inside a formatted text needs one. -/
def expr (avoid : Bool) (l : Nat) : Expr → Option Text
  | .name id => some id
  | .constant c => some (c.print avoid)
  | .joined parts => do
    let parts ← innerAll parts
    if avoid then return 'f' :: sparingly (parts.flatMap (·.1)) allQuotes
    else return 'f' :: formattedText parts
  | .formatted .. => none
  | .named target value => do
    return wrap l Level.named ((← expr avoid Level.atom target) ++ " := ".toList ++
      (← expr avoid Level.atom value))
  | .both values => do
    return wrap l Level.both
      (Text.join (spaced "and") (← rising avoid (Level.next Level.both) values))
  | .either values => do
    return wrap l Level.either
      (Text.join (spaced "or") (← rising avoid (Level.next Level.either) values))
  | .unary op operand => do
    return wrap l op.level (op.symbol ++ (← expr avoid op.level operand))
  | .binary op left right => do
    let (a, b) :=
      if op == .pow then (Level.next op.level, op.level) else (op.level, Level.next op.level)
    return wrap l op.level ((← expr avoid a left) ++ spaced op.symbol ++ (← expr avoid b right))
  | .compare left ops others => do
    let inside := Level.next Level.comparison
    return wrap l Level.comparison
      ((← expr avoid inside left) ++ comparisons ops (← exprs avoid inside others))
  | .lambda ps body => do
    let ps ← params avoid ps
    let head := if ps.isEmpty then "lambda".toList else "lambda ".toList ++ ps
    return wrap l Level.test (head ++ ": ".toList ++ (← expr avoid Level.test body))
  | .choice test body orElse => do
    let inside := Level.next Level.test
    return wrap l Level.test
      ((← expr avoid inside body) ++ spaced "if" ++ (← expr avoid inside test) ++
      spaced "else" ++ (← expr avoid Level.test orElse))
  | .dict es => do return '\x7b' :: (commas (← entries avoid es) ++ ['\x7d'])
  | .set es => do return '\x7b' :: (commas (← exprs avoid Level.test es) ++ ['\x7d'])
  | .list es => do return '[' :: (commas (← exprs avoid Level.test es) ++ [']'])
  | .tuple es => do
    let t := items (← exprs avoid Level.test es)
    return if es.isEmpty || Level.tuple < l then '(' :: (t ++ [')']) else t
  | .listOf item cs => do
    return '[' :: ((← expr avoid Level.test item) ++ (← clauses avoid cs) ++ [']'])
  | .setOf item cs => do
    return '\x7b' :: ((← expr avoid Level.test item) ++ (← clauses avoid cs) ++ ['\x7d'])
  | .each item cs => do
    return '(' :: ((← expr avoid Level.test item) ++ (← clauses avoid cs) ++ [')'])
  | .dictOf key value cs => do
    return '\x7b' ::
      ((← expr avoid Level.test key) ++ ": ".toList ++ (← expr avoid Level.test value) ++
      (← clauses avoid cs) ++ ['\x7d'])
  | .await value =>
    do return wrap l Level.await ("await ".toList ++ (← expr avoid Level.atom value))
  | .yield none => some (wrap l Level.yields "yield".toList)
  | .yield (some value) => do
    return wrap l Level.yields ("yield ".toList ++ (← expr avoid Level.atom value))
  | .yieldFrom value => do
    return wrap l Level.yields ("yield from ".toList ++ (← expr avoid Level.atom value))
  | .attribute value n => do
    return (← expr avoid Level.atom value) ++ (if isWhole value then [' '] else []) ++ '.' :: n
  | .subscript value (.tuple (e :: es)) => do
    return (← expr avoid Level.atom value) ++
      '[' :: (items ((← expr avoid Level.test e) :: (← exprs avoid Level.test es)) ++ [']'])
  | .subscript value index => do
    return (← expr avoid Level.atom value) ++ '[' :: ((← expr avoid Level.test index) ++ [']'])
  | .starred value => do return '*' :: (← expr avoid Level.bitOr value)
  | .slice lower upper step => do
    let lower ← maybe avoid [] lower
    let upper ← maybe avoid [] upper
    return lower ++ ':' :: (upper ++ (← maybe avoid [':'] step))
  | .call function args ks => do
    return (← expr avoid Level.atom function) ++
      '(' :: (commas ((← exprs avoid Level.test args) ++ (← keywords avoid ks)) ++ [')'])

def maybe (avoid : Bool) (mark : Text) : Option Expr → Option Text
  | none => some []
  | some e => do return mark ++ (← expr avoid Level.test e)

def exprs (avoid : Bool) (l : Nat) : List Expr → Option (List Text)
  | [] => some []
  | e :: es => do return (← expr avoid l e) :: (← exprs avoid l es)

/-- Operands of a connective, each one level above the one before. -/
def rising (avoid : Bool) (l : Nat) : List Expr → Option (List Text)
  | [] => some []
  | e :: es => do return (← expr avoid l e) :: (← rising avoid (Level.next l) es)

def entries (avoid : Bool) : List Entry → Option (List Text)
  | [] => some []
  | e :: es => do return (← entry avoid e) :: (← entries avoid es)

def entry (avoid : Bool) : Entry → Option Text
  | .pair key value => do
    return (← expr avoid Level.test key) ++ ": ".toList ++ (← expr avoid Level.test value)
  | .spread value => do return '*' :: '*' :: (← expr avoid Level.bitOr value)

def clauses (avoid : Bool) : List Clause → Option Text
  | [] => some []
  | c :: cs => do return (← clause avoid c) ++ (← clauses avoid cs)

def clause (avoid : Bool) : Clause → Option Text
  | .mk isAsync target source conditions => do
    let inside := Level.next Level.test
    let head := if isAsync then " async for ".toList else " for ".toList
    let conditions ← exprs avoid inside conditions
    return head ++ (← expr avoid Level.tuple target) ++ " in ".toList ++
      (← expr avoid inside source) ++
      conditions.flatMap (" if ".toList ++ ·)

def keywords (avoid : Bool) : List Keyword → Option (List Text)
  | [] => some []
  | k :: ks => do return (← keyword avoid k) :: (← keywords avoid ks)

def keyword (avoid : Bool) : Keyword → Option Text
  | .mk none value => do return '*' :: '*' :: (← expr avoid Level.test value)
  | .mk (some n) value => do return n ++ '=' :: (← expr avoid Level.test value)

def param (avoid : Bool) : Param → Option Text
  | .mk n hint default => do
    let hint ← maybe avoid ": ".toList hint
    return n ++ hint ++ (← maybe avoid ['='] default)

def paramList (avoid : Bool) : List Param → Option (List Text)
  | [] => some []
  | p :: ps => do return (← param avoid p) :: (← paramList avoid ps)

def spreading (avoid : Bool) (mark : Text) : Option Param → Option (List Text)
  | none => some []
  | some p => do return [mark ++ (← param avoid p)]

def params (avoid : Bool) : Params → Option Text
  | .mk positional plain rest keywordOnly ks => do
    let first ← paramList avoid positional
    let first := if first.isEmpty then [] else first ++ [['/']]
    let plain ← paramList avoid plain
    let rest ← spreading avoid ['*'] rest
    let named ← paramList avoid keywordOnly
    let rest := if rest.isEmpty && !named.isEmpty then [['*']] else rest
    return commas (first ++ plain ++ rest ++ named ++ (← spreading avoid ['*', '*'] ks))

/-- A part of a formatted text, by code points: braces of a constant are doubled. -/
def inner : Expr → Option (List Nat)
  | .joined parts => do return (← innerAll parts).flatMap (·.1)
  | .constant (.text ps _) => some (doubleBraces ps)
  | .formatted value conversion none => do
    formattedValue (← expr true (Level.next Level.test) value) conversion none
  | .formatted value conversion (some spec) => do
    formattedValue (← expr true (Level.next Level.test) value) conversion (some (← inner spec))
  | _ => none

def innerAll : List Expr → Option (List (List Nat × Bool))
  | [] => some []
  | e :: es => do
    let isConstant := match e with
      | .constant _ => true
      | _ => false
    return (← inner e, isConstant) :: (← innerAll es)

end

mutual

def pattern (l : Nat) : CasePattern → Option Text
  | .value e => expr false Level.test e
  | .singleton c => some (c.print false)
  | .sequence ps => do return '[' :: (commas (← patterns Level.test ps) ++ [']'])
  | .star n => some ('*' :: n.getD ['_'])
  | .mapping keys ps rest => do
    let keys ← exprs false Level.test keys
    let pairs := List.zipWith (fun k p => k ++ ": ".toList ++ p) keys (← patterns Level.test ps)
    let rest := match rest with
      | some n => ['*' :: '*' :: n]
      | none => []
    return '\x7b' :: (commas (pairs ++ rest) ++ ['\x7d'])
  | .instance function ps names named => do
    let function ← expr false Level.atom function
    let ps ← patterns Level.test ps
    let named := List.zipWith (fun n p => n ++ '=' :: p) names (← patterns Level.test named)
    return function ++ '(' :: (commas (ps ++ named) ++ [')'])
  | .wildcard => some ['_']
  | .capture n => some n
  | .bound p n => do return wrap l Level.test ((← pattern Level.bitOr p) ++ " as ".toList ++ n)
  | .anyOf ps => do
    return wrap l Level.bitOr (Text.join (spaced "|") (← patterns (Level.next Level.bitOr) ps))

def patterns (l : Nat) : List CasePattern → Option (List Text)
  | [] => some []
  | p :: ps => do return (← pattern l p) :: (← patterns l ps)

end

def aliasText (a : Alias) : Text :=
  match a.asName with
  | some n => a.name ++ " as ".toList ++ n
  | none => a.name

def indented (ls : List Text) : List Text :=
  ls.map fun t => if t.isEmpty then t else "    ".toList ++ t

def plain (e : Expr) : Option Text := expr false Level.test e

def plainMaybe (mark : Text) (e : Option Expr) : Option Text := maybe false mark e

def withItem (p : Expr × Option Expr) : Option Text := do
  return (← plain p.1) ++ (← plainMaybe (spaced "as") p.2)

def decoratorLines (ds : List Expr) : Option (List Text) := do
  return (← exprs false Level.test ds).map ('@' :: ·)

def handlerHead (grouped : Bool) : Option Expr × Option Text → Option Text
  | (kind, n) => do
    let kind ← plainMaybe [' '] kind
    let n := match n with
      | some n => spaced "as" ++ n
      | none => []
    return (if grouped then "except*".toList else "except".toList) ++ kind ++ n ++ [':']

def caseHead (c : CasePattern × Option Expr) : Option Text := do
  return "case ".toList ++ (← pattern Level.test c.1) ++ (← plainMaybe (spaced "if") c.2) ++ [':']

def docstring : Constant → Option Text
  | .text ps marked => some ((if marked then ['u'] else []) ++ sparingly ps tripleQuotes)
  | _ => none

mutual

/-- The lines of a statement. A line may hold line feeds of its own inside a string, so only its
head is indented. -/
def stmt : Stmt → Option (List Text)
  | .expr e => do return [← expr false Level.yields e]
  | .assign targets value => do
    return [(← exprs false Level.tuple targets).flatMap (· ++ " = ".toList) ++ (← plain value)]
  | .augment target op value => do
    return [(← plain target) ++ ' ' :: (op.symbol.toList ++ "= ".toList) ++ (← plain value)]
  | .annotate target hint value simple => do
    let t ← plain target
    let t := match target, simple with
      | .name _, false => '(' :: (t ++ [')'])
      | _, _ => t
    return [t ++ ": ".toList ++ (← plain hint) ++ (← plainMaybe " = ".toList value)]
  | .returns value => do return ["return".toList ++ (← plainMaybe [' '] value)]
  | .pass => some ["pass".toList]
  | .breaks => some ["break".toList]
  | .continues => some ["continue".toList]
  | .delete targets => do return ["del ".toList ++ commas (← exprs false Level.test targets)]
  | .asserts test message => do
    return ["assert ".toList ++ (← plain test) ++ (← plainMaybe ", ".toList message)]
  | .raises error cause => do
    return ["raise".toList ++ (← plainMaybe [' '] error) ++ (← plainMaybe (spaced "from") cause)]
  | .global ns => some ["global ".toList ++ commas ns]
  | .nonlocal ns => some ["nonlocal ".toList ++ commas ns]
  | .imports ns => some ["import ".toList ++ commas (ns.map aliasText)]
  | .importsFrom level source ns =>
    some ["from ".toList ++ List.replicate level '.' ++ source.getD [] ++ spaced "import" ++
      commas (ns.map aliasText)]
  | .ifElse test body orElse => do
    return ("if ".toList ++ (← plain test) ++ [':']) :: indented (← sequence body) ++
      (← alternatives orElse)
  | .whileLoop test body orElse => do
    return ("while ".toList ++ (← plain test) ++ [':']) :: indented (← sequence body) ++
      (← orElseLines "else:" orElse)
  | .forLoop isAsync target source body orElse => do
    let word := if isAsync then "async for " else "for "
    let head := word.toList ++ (← expr false Level.tuple target) ++ spaced "in" ++ (← plain source)
    return (head ++ [':']) :: indented (← sequence body) ++ (← orElseLines "else:" orElse)
  | .withBlock isAsync contexts body => do
    let word := if isAsync then "async with " else "with "
    return (word.toList ++ commas (← contexts.mapM withItem) ++ [':']) :: indented (← sequence body)
  | .tryBlock grouped body kinds handlers orElse final => do
    let heads ← kinds.mapM (handlerHead grouped)
    return "try:".toList :: indented (← sequence body) ++ (← blocks heads handlers) ++
      (← orElseLines "else:" orElse) ++ (← orElseLines "finally:" final)
  | .matchBlock subject cases bodies => do
    let heads ← cases.mapM caseHead
    return ("match ".toList ++ (← plain subject) ++ [':']) :: indented (← blocks heads bodies)
  | .function isAsync n ps returns decorators body => do
    let word := if isAsync then "async def " else "def "
    let head := word.toList ++ n ++ '(' :: ((← params false ps) ++ [')']) ++
      (← plainMaybe " -> ".toList returns) ++ [':']
    return (← decoratorLines decorators) ++ head :: (← documented body)
  | .classDef n bases ks decorators body => do
    let args := (← exprs false Level.test bases) ++ (← keywords false ks)
    let head :=
      "class ".toList ++ n ++ (if args.isEmpty then [] else '(' :: (commas args ++ [')'])) ++ [':']
    return (← decoratorLines decorators) ++ head :: (← documented body)

/-- What follows when a condition fails. A condition alone there is joined to the one before. -/
def alternatives : List (Placed Stmt) → Option (List Text)
  | [] => some []
  | [⟨_, .ifElse test body orElse⟩] => do
    return ("elif ".toList ++ (← plain test) ++ [':']) :: indented (← sequence body) ++
      (← alternatives orElse)
  | s :: ss => do return "else:".toList :: indented ((← nested s) ++ (← sequence ss))

/-- A definition inside a body has an empty line in front. -/
def nested : Placed Stmt → Option (List Text)
  | ⟨_, s⟩ => do
    let ls ← stmt s
    return match s with
      | .function .. | .classDef .. => [] :: ls
      | _ => ls

def sequence : List (Placed Stmt) → Option (List Text)
  | [] => some []
  | s :: ss => do return (← nested s) ++ (← sequence ss)

def documented : List (Placed Stmt) → Option (List Text)
  | [] => some []
  | s :: ss => do
    let first ← match s.node with
      | .expr (.constant (.text ps marked)) => (docstring (.text ps marked)).map ([·])
      | _ => nested s
    return indented (first ++ (← sequence ss))

def orElseLines (head : String) : List (Placed Stmt) → Option (List Text)
  | [] => some []
  | s :: ss => do return head.toList :: indented ((← nested s) ++ (← sequence ss))

def blocks : List Text → List (List (Placed Stmt)) → Option (List Text)
  | h :: hs, b :: bs => do return h :: indented (← sequence b) ++ (← blocks hs bs)
  | _, _ => some []

end

end Print

def Stmt.print? (s : Stmt) : Option Text := (Print.stmt s).map Text.unlines

def Expr.print? (e : Expr) : Option Text := Print.plain e

end Graft.Suite
