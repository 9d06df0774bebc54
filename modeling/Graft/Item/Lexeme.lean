import Graft.Error

set_option autoImplicit false

/-!
The lexemes of a Rust source, as far as its brackets are concerned: comments and literals are
masked, every other character stands for itself. Nothing of the source is lost.
-/

namespace Graft.Item

inductive Lexeme where
  | plain (c : Char)
  | masked (t : Text)
  deriving DecidableEq, Repr

namespace Lexeme

def text : Lexeme → Text
  | plain c => [c]
  | masked t => t

def afterComment? : Nat → Text → Option Text
  | depth, '/' :: '*' :: rest => afterComment? (depth + 1) rest
  | 0, '*' :: '/' :: rest => some rest
  | depth + 1, '*' :: '/' :: rest => afterComment? depth rest
  | depth, _ :: rest => afterComment? depth rest
  | _, [] => none

/-- What follows the closing quote of a string; a backslash takes the next character along. -/
def afterString? : Text → Option Text
  | '"' :: rest => some rest
  | '\\' :: _ :: rest => afterString? rest
  | ['\\'] => none
  | _ :: rest => afterString? rest
  | [] => none

def rawOpening? (t : Text) : Option (Nat × Text) :=
  let t := match t with
    | 'b' :: rest => rest
    | t => t
  match t with
  | 'r' :: rest =>
    let marks := (rest.takeWhile (· == '#')).length
    match rest.drop marks with
    | '"' :: body => some (marks, body)
    | _ => none
  | _ => none

/-- What follows a raw string: its end is a quote and as many signs as at its start. -/
def afterRaw? (marks : Nat) (body : Text) : Option Text :=
  let stop := '"' :: List.replicate marks '#'
  (Text.find? stop body).map fun n => body.drop (n + stop.length)

def bracedCode? (t : Text) : Option Nat :=
  match t with
  | '\x7b' :: rest =>
    let n := (rest.takeWhile Text.isHexDigit).length
    if 1 ≤ n && n ≤ 6 && (rest.drop n).head? == some '\x7d' then some (n + 2) else none
  | _ => none

/-- What follows a character literal, given what follows its opening quote. A quote that opens none
starts a lifetime or a label. -/
def afterChar? (t : Text) : Option Text :=
  let closed (r : Text) : Option Text := match r with
    | '\'' :: rest => some rest
    | _ => none
  match t with
  | '\\' :: 'x' :: a :: b :: '\'' :: rest =>
    if Text.isHexDigit a && Text.isHexDigit b then some rest else closed (a :: b :: '\'' :: rest)
  | '\\' :: 'u' :: rest =>
    match (bracedCode? rest).bind fun n => closed (rest.drop n) with
    | some r => some r
    | none => closed rest
  | '\\' :: c :: rest => if c == '\n' then none else closed rest
  | c :: rest => if c == '\\' || c == '\'' || c == '\n' then none else closed rest
  | [] => none

/-- What follows a comment or literal at the front of `t`; `none` if there is none, an error if it
has no end. The character before decides whether a letter can start a literal. -/
def afterMask (prev : Option Char) (t : Text) : Except Cause (Option Text) :=
  let startsWord := !(prev.map Text.isWord).getD false
  match t with
  | '/' :: '/' :: rest => .ok (some (rest.dropWhile (· != '\n')))
  | '/' :: '*' :: rest =>
    match afterComment? 0 rest with
    | some r => .ok (some r)
    | none => .error .openComment
  | '"' :: rest =>
    match afterString? rest with
    | some r => .ok (some r)
    | none => .error .openString
  | '\'' :: rest => .ok (afterChar? rest)
  | _ =>
    if !startsWord then .ok none
    else match rawOpening? t with
      | some (marks, body) =>
        match afterRaw? marks body with
        | some r => .ok (some r)
        | none => .error .openRawString
      | none =>
        match t with
        | 'b' :: '\'' :: rest => .ok (afterChar? rest)
        | _ => .ok none

/-- The lexemes up to the end, or up to a comment or literal that has none. -/
def read (prev : Option Char) : Text → List Lexeme × Option Cause
  | [] => ([], none)
  | c :: cs =>
    match afterMask prev (c :: cs) with
    | .error cause => ([], some cause)
    | .ok none => let (ls, stop) := read (some c) cs; (plain c :: ls, stop)
    | .ok (some rest) =>
      let tail := cs.length - rest.length
      let mask := c :: cs.take tail
      let (ls, stop) := read mask.getLast? (cs.drop tail)
      (masked mask :: ls, stop)
termination_by t => t.length
decreasing_by all_goals simp +arith

end Lexeme

end Graft.Item
