import Graft.Text
import Graft.Text.Word

set_option autoImplicit false

/-!
Patterns over texts, matched from the front with ordered choice: of all the ways to match, the first
one in the order of the alternatives counts, and a repetition tries its longest or its shortest run
first.
-/

namespace Graft.Text

inductive Pattern where
  | empty
  | one (p : Char → Bool)
  | seq (a b : Pattern)
  | alt (a b : Pattern)
  /-- Any number of times, longest run first. -/
  | many (a : Pattern)
  /-- Any number of times, shortest run first. -/
  | few (a : Pattern)
  /-- Remembers the text matched under a number. -/
  | slot (n : Nat) (a : Pattern)
  /-- Holds where `a` does not match; consumes nothing. -/
  | absent (a : Pattern)
  /-- Holds where a word starts or ends; consumes nothing. -/
  | edge
  /-- Holds at the end of the text and before a newline that ends it; consumes nothing. -/
  | finish

namespace Pattern

/-- What is left to match, the character before it, and the slots filled so far, latest first. -/
structure Cursor where
  prev : Option Char := none
  rest : Text
  slots : List (Nat × Text) := []

def Cursor.slot? (s : Cursor) (n : Nat) : Option Text := s.slots.lookup n

def Cursor.atEdge (s : Cursor) : Bool :=
  (s.prev.map isWord).getD false != (s.rest.head?.map isWord).getD false

abbrev Continuation := Cursor → Option Cursor

/-- Repeats `step` while it consumes something, then goes on with `k`; longest run first. -/
def longest (step : Cursor → Continuation → Option Cursor) :
    Nat → Cursor → Continuation → Option Cursor
  | 0, s, k => k s
  | n + 1, s, k =>
    (step s fun s' => if s'.rest.length < s.rest.length then longest step n s' k else none) <|> k s

def shortest (step : Cursor → Continuation → Option Cursor) :
    Nat → Cursor → Continuation → Option Cursor
  | 0, s, k => k s
  | n + 1, s, k =>
    k s <|> step s fun s' => if s'.rest.length < s.rest.length then shortest step n s' k else none

/-- The first way to match at `s` from which `k` succeeds. -/
def run : Pattern → Cursor → Continuation → Option Cursor
  | empty, s, k => k s
  | one p, s, k =>
    match s.rest with
    | [] => none
    | c :: cs => if p c then k { s with prev := some c, rest := cs } else none
  | seq a b, s, k => run a s fun s' => run b s' k
  | alt a b, s, k => run a s k <|> run b s k
  | many a, s, k => longest (run a) s.rest.length s k
  | few a, s, k => shortest (run a) s.rest.length s k
  | slot n a, s, k =>
    run a s fun s' =>
      k { s' with slots := (n, s.rest.take (s.rest.length - s'.rest.length)) :: s'.slots }
  | absent a, s, k => if (run a s some).isSome then none else k s
  | edge, s, k => if s.atEdge then k s else none
  | finish, s, k => if s.rest == [] || s.rest == ['\n'] then k s else none

def match? (p : Pattern) (t : Text) : Option Cursor := p.run { rest := t } some

def accepts (p : Pattern) (t : Text) : Bool := (p.match? t).isSome

def maybe (a : Pattern) : Pattern := alt a empty

def repeated (a : Pattern) : Pattern := seq a (many a)

def char (c : Char) : Pattern := one (· == c)

def oneOf (s : String) : Pattern := one fun c => s.toList.contains c

def noneOf (s : String) : Pattern := one fun c => !s.toList.contains c

def all : List Pattern → Pattern
  | [] => empty
  | [a] => a
  | a :: as => seq a (all as)

def any : List Pattern → Pattern
  | [] => absent empty
  | [a] => a
  | a :: as => alt a (any as)

def lit (s : String) : Pattern := all (s.toList.map char)

def dot : Pattern := one (· != '\n')

def blank : Pattern := one isBlank

def blanks : Pattern := many blank

def gap : Pattern := repeated blank

def word : Pattern := one isWord

def words : Pattern := repeated word

def keyword (s : String) : Pattern := seq (lit s) gap

def emptyLine : Pattern := all [char '\n', many (oneOf " \t"), char '\n']

def occursIn (p : Pattern) : Text → Bool
  | [] => p.accepts []
  | c :: cs => p.accepts (c :: cs) || occursIn p cs

def startsLine (p : Pattern) (t : Text) : Bool := p.accepts t || later t
where
  later : Text → Bool
    | [] => false
    | '\n' :: cs => p.accepts cs || later cs
    | _ :: cs => later cs

end Pattern

end Graft.Text
