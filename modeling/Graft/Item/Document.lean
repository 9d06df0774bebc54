import Graft.Item.Lexeme

set_option autoImplicit false

/-!
Scanned Rust sources: the brackets and semicolons outside comments and literals, which bracket
closes which, and where the comments and literals are.
-/

namespace Graft.Item

structure Token where
  char : Char
  offset : Nat
  deriving DecidableEq, Repr, Inhabited

structure Span where
  start : Nat
  stop : Nat
  deriving DecidableEq, Repr, Inhabited

structure Document where
  source : Text
  tokens : Array Token
  /-- Each opening bracket with the one that closes it, in the order of closing. -/
  partners : List (Nat × Nat)
  masks : Array Span
  deriving Repr

namespace Document

def isStructural (c : Char) : Bool :=
  c == '\x7b' || c == '\x7d' || c == '(' || c == ')' || c == ';'

def tokensFrom : Nat → List Lexeme → List Token
  | _, [] => []
  | n, .plain c :: ls =>
    if isStructural c then ⟨c, n⟩ :: tokensFrom (n + 1) ls else tokensFrom (n + 1) ls
  | n, .masked t :: ls => tokensFrom (n + t.length) ls

def masksFrom : Nat → List Lexeme → List Span
  | _, [] => []
  | n, .plain _ :: ls => masksFrom (n + 1) ls
  | n, .masked t :: ls => ⟨n, n + t.length⟩ :: masksFrom (n + t.length) ls

def opener? : Char → Option Char
  | '\x7d' => some '\x7b'
  | ')' => some '('
  | _ => none

/-- Matches brackets against the stack of open ones. The result is the pairs and what is still open,
or the first bracket that does not match the innermost open one. -/
def pair : List Token → List Token → Except Token (List (Nat × Nat) × List Token)
  | stack, [] => .ok ([], stack)
  | stack, t :: ts =>
    match opener? t.char with
    | none => if t.char == ';' then pair stack ts else pair (t :: stack) ts
    | some c =>
      match stack with
      | [] => .error t
      | top :: rest =>
        if top.char == c then do
          let (pairs, left) ← pair rest ts
          return ((top.offset, t.offset) :: pairs, left)
        else .error t

def faultAt (source : Text) (cause : Cause) (offset : Nat) : Fault :=
  { cause
    place := some (source.position offset)
    near := (source.drop offset).takeWhile (· != '\n') }

/-- Of two faults the one further left is reported; a bracket left open comes last. -/
def scan (source : Text) : Except Fault Document :=
  let (ls, stop) := Lexeme.read none source
  let tokens := tokensFrom 0 ls
  match pair [] tokens with
  | .error t => .error (faultAt source (.unbalanced t.char) t.offset)
  | .ok (partners, left) =>
    match stop, left with
    | some cause, _ => .error (faultAt source cause (ls.flatMap Lexeme.text).length)
    | none, t :: _ => .error (faultAt source (.unclosed t.char) t.offset)
    | none, [] => .ok ⟨source, tokens.toArray, partners, (masksFrom 0 ls).toArray⟩

def partner? (d : Document) (offset : Nat) : Option Nat := d.partners.lookup offset

def maskAt? (d : Document) (offset : Int) : Option Span :=
  let n := bisect (fun i => (d.masks.getD i default).start ≤ offset) 0 d.masks.size
  if n = 0 then none
  else
    let s := d.masks.getD (n - 1) default
    if offset < s.stop then some s else none

def isMasked (d : Document) (offset : Nat) : Bool := (d.maskAt? offset).isSome

def nextToken? (d : Document) (offset : Int) (kinds : Text) : Option Token :=
  let n := bisect (fun i => (d.tokens.getD i default).offset < offset) 0 d.tokens.size
  (d.tokens.toList.drop n).find? fun t => kinds.contains t.char

end Document

end Graft.Item
