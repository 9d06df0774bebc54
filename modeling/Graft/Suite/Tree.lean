import Graft.Double

set_option autoImplicit false

/-!
The syntax trees of Python sources.
-/

namespace Graft.Suite

inductive Constant where
  | none
  | true
  | false
  | ellipsis
  | int (n : Nat)
  | float (d : Double)
  | imaginary (d : Double)
  /-- A text by its code points; `marked` is true of one written with the mark `u`. -/
  | text (points : List Nat) (marked : Bool)
  | bytes (bs : List Nat)
  deriving DecidableEq, Repr, Inhabited

inductive UnaryOp where
  | invert
  | not
  | plus
  | minus
  deriving DecidableEq, Repr

inductive BinaryOp where
  | add
  | sub
  | mul
  | matMul
  | div
  | mod
  | floorDiv
  | pow
  | shiftLeft
  | shiftRight
  | bitOr
  | bitXor
  | bitAnd
  deriving DecidableEq, Repr

inductive CompareOp where
  | eq
  | ne
  | lt
  | le
  | gt
  | ge
  | is
  | isNot
  | isIn
  | notIn
  deriving DecidableEq, Repr

mutual

inductive Expr where
  | name (id : Text)
  | constant (c : Constant)
  /-- A text with values put in; the parts are constants and `formatted` values. -/
  | joined (parts : List Expr)
  | formatted (value : Expr) (conversion : Option Char) (spec : Option Expr)
  | named (target value : Expr)
  | both (values : List Expr)
  | either (values : List Expr)
  | unary (op : UnaryOp) (operand : Expr)
  | binary (op : BinaryOp) (left right : Expr)
  | compare (left : Expr) (ops : List CompareOp) (others : List Expr)
  | lambda (params : Params) (body : Expr)
  | choice (test body orElse : Expr)
  | dict (items : List Entry)
  | set (items : List Expr)
  | list (items : List Expr)
  | tuple (items : List Expr)
  | listOf (item : Expr) (clauses : List Clause)
  | setOf (item : Expr) (clauses : List Clause)
  | each (item : Expr) (clauses : List Clause)
  | dictOf (key value : Expr) (clauses : List Clause)
  | await (value : Expr)
  | yield (value : Option Expr)
  | yieldFrom (value : Expr)
  | attribute (value : Expr) (name : Text)
  | subscript (value index : Expr)
  | starred (value : Expr)
  | slice (lower upper step : Option Expr)
  | call (function : Expr) (args : List Expr) (keywords : List Keyword)

inductive Entry where
  | pair (key value : Expr)
  | spread (value : Expr)

inductive Clause where
  | mk (isAsync : Bool) (target source : Expr) (conditions : List Expr)

/-- A keyword argument; without a name it spreads a mapping. -/
inductive Keyword where
  | mk (name : Option Text) (value : Expr)

inductive Param where
  | mk (name : Text) (hint default : Option Expr)

inductive Params where
  | mk (positional plain : List Param) (rest : Option Param) (keywordOnly : List Param)
    (keywords : Option Param)

end

instance : Inhabited Expr := ⟨.name []⟩

inductive CasePattern where
  | value (e : Expr)
  | singleton (c : Constant)
  | sequence (items : List CasePattern)
  /-- `*name`, or `*_` without a name. -/
  | star (name : Option Text)
  | mapping (keys : List Expr) (items : List CasePattern) (rest : Option Text)
  | instance (function : Expr) (items : List CasePattern) (names : List Text)
    (named : List CasePattern)
  | wildcard
  | capture (name : Text)
  | bound (pattern : CasePattern) (name : Text)
  | anyOf (items : List CasePattern)

instance : Inhabited CasePattern := ⟨.wildcard⟩

structure Alias where
  name : Text
  asName : Option Text
  deriving DecidableEq, Repr

/-- Where a statement stands. Lines count from one; the column counts bytes of UTF-8 from zero. -/
structure Place where
  line : Nat
  column : Nat
  stop : Nat
  /-- Its first line, decorators included. -/
  first : Nat
  deriving DecidableEq, Repr, Inhabited

structure Placed (α : Type) where
  place : Place
  node : α

inductive Stmt where
  | expr (e : Expr)
  | assign (targets : List Expr) (value : Expr)
  | augment (target : Expr) (op : BinaryOp) (value : Expr)
  /-- `simple` is false of a target in parentheses. -/
  | annotate (target hint : Expr) (value : Option Expr) (simple : Bool)
  | returns (value : Option Expr)
  | pass
  | breaks
  | continues
  | delete (targets : List Expr)
  | asserts (test : Expr) (message : Option Expr)
  | raises (error cause : Option Expr)
  | global (names : List Text)
  | nonlocal (names : List Text)
  | imports (names : List Alias)
  | importsFrom (level : Nat) (source : Option Text) (names : List Alias)
  | ifElse (test : Expr) (body orElse : List (Placed Stmt))
  | whileLoop (test : Expr) (body orElse : List (Placed Stmt))
  | forLoop (isAsync : Bool) (target source : Expr) (body orElse : List (Placed Stmt))
  | withBlock (isAsync : Bool) (items : List (Expr × Option Expr)) (body : List (Placed Stmt))
  /-- `grouped` is true of handlers written with a star. -/
  | tryBlock (grouped : Bool) (body : List (Placed Stmt)) (kinds : List (Option Expr × Option Text))
    (handlers : List (List (Placed Stmt))) (orElse final : List (Placed Stmt))
  | matchBlock (subject : Expr) (patterns : List (CasePattern × Option Expr))
    (bodies : List (List (Placed Stmt)))
  | function (isAsync : Bool) (name : Text) (params : Params) (returns : Option Expr)
    (decorators : List Expr) (body : List (Placed Stmt))
  | classDef (name : Text) (bases : List Expr) (keywords : List Keyword) (decorators : List Expr)
    (body : List (Placed Stmt))

instance : Inhabited Stmt := ⟨.pass⟩

abbrev Block := List (Placed Stmt)

def Stmt.kind : Stmt → String
  | .expr _ => "expr"
  | .assign .. => "assign"
  | .augment .. => "augassign"
  | .annotate .. => "annassign"
  | .returns _ => "return"
  | .pass => "pass"
  | .breaks => "break"
  | .continues => "continue"
  | .delete _ => "delete"
  | .asserts .. => "assert"
  | .raises .. => "raise"
  | .global _ => "global"
  | .nonlocal _ => "nonlocal"
  | .imports _ => "import"
  | .importsFrom .. => "importfrom"
  | .ifElse .. => "if"
  | .whileLoop .. => "while"
  | .forLoop false .. => "for"
  | .forLoop true .. => "asyncfor"
  | .withBlock false .. => "with"
  | .withBlock true .. => "asyncwith"
  | .tryBlock false .. => "try"
  | .tryBlock true .. => "trystar"
  | .matchBlock .. => "match"
  | .function false .. => "functiondef"
  | .function true .. => "asyncfunctiondef"
  | .classDef .. => "classdef"

end Graft.Suite
