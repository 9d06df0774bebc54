import Graft.Suite.Token

set_option autoImplicit false

/-!
Parsers over the tokens of a Python source. A parser that fails leaves no trace, so alternatives
start from the same tokens.
-/

namespace Graft.Suite

structure Ahead where
  tokens : List Token
  stop : Nat := 1

abbrev Parser := StateT Ahead Option

namespace Parser

variable {α : Type}

def keywords : List Text :=
  ["False", "None", "True", "and", "as", "assert", "async", "await", "break", "class",
    "continue", "def", "del", "elif", "else", "except", "finally", "for", "from", "global", "if",
    "import", "in", "is", "lambda", "nonlocal", "not", "or", "pass", "raise", "return", "try",
    "while", "with", "yield"].map String.toList

def fail : Parser α := fun _ => none

def guardThat (b : Bool) : Parser PUnit := if b then pure ⟨⟩ else fail

def peek : Parser Token := fun s => s.tokens.head?.map (·, s)

def peekSecond : Parser Token := fun s => (s.tokens.drop 1).head?.map (·, s)

def isVisible : TokenKind → Bool
  | .name | .number | .string | .op => true
  | _ => false

def next : Parser Token := fun s =>
  match s.tokens with
  | t :: ts => some (t, ⟨ts, if isVisible t.kind then t.stop else s.stop⟩)
  | [] => none

def reads (t : Token) (s : String) : Bool :=
  (t.kind == .op || t.kind == .name) && t.text == s.toList

def at? (s : String) : Parser Bool := return reads (← peek) s

def atKind? (k : TokenKind) : Parser Bool := return (← peek).kind == k

def accept (s : String) : Parser Bool := do
  if ← at? s then
    let _ ← next
    return true
  else return false

def expect (s : String) : Parser PUnit := do guardThat (← accept s)

def expectKind (k : TokenKind) : Parser PUnit := do
  guardThat ((← next).kind == k)

def isName (t : Token) : Bool := t.kind == .name && !keywords.contains t.text

def name : Parser Text := do
  let t ← next
  if isName t then return t.text else fail

def attempt (p : Parser α) : Parser (Option α) := fun s =>
  match p s with
  | some (a, s') => some (some a, s')
  | none => some (none, s)

def many (p : Parser α) : Nat → Parser (List α)
  | 0 => pure []
  | bound + 1 => do
    match ← attempt p with
    | some a => return a :: (← many p bound)
    | none => return []

/-- One or more, separated by commas; also whether a comma came last. -/
def gather (p : Parser α) (bound : Nat) : Parser (List α × Bool) := do
  let first ← p
  let rest ← many (do expect ","; p) bound
  let trailing ← accept ","
  return (first :: rest, trailing)

def succeedsOn (p : Parser α) (tokens : List Token) : Bool :=
  match p ⟨tokens, 1⟩ with
  | some (_, s) => s.tokens.head?.any (·.kind == .finish)
  | none => false

end Parser

end Graft.Suite
