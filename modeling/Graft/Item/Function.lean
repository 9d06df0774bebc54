import Graft.Extraction
import Graft.Item.Document
import Graft.Item.Header

set_option autoImplicit false

/-!
The functions of a Rust source, as pieces: every `fn` item with a body, outermost ones only, with
the attributes and comments directly above it.
-/

namespace Graft.Item

structure Details where
  /-- The brace of the innermost block around it. -/
  block : Option Nat := none
  /-- What that block is for, if it is an `impl` block. -/
  target : Option Text := none
  indent : Text := []
  qualifiers : List Text := []
  abi : Text := []
  generics : Text := []
  suffix : Text := []
  deriving DecidableEq, Repr, Inhabited

abbrev Function := Piece Details

namespace Document

def headerTarget? (d : Document) (start stop : Nat) : Option Text :=
  let header := d.source.slice start stop
  let free (word : String) : List Nat :=
    (keywords word header).filter fun n => !d.isMasked (start + n)
  match (free "impl").getLast?, free "fn" with
  | some n, [] => implTarget? (header.drop (n + 4))
  | _, _ => none

/-- Each `impl` block: its opening brace and its target, in source order. A header starts after the
last brace or semicolon. -/
def implsFrom (d : Document) : Nat → List Token → List (Nat × Text)
  | _, [] => []
  | start, t :: ts =>
    let next := if t.char == '(' || t.char == ')' then start else t.offset + 1
    let rest := implsFrom d next ts
    if t.char == '\x7b' then
      match headerTarget? d start t.offset with
      | some target => (t.offset, target) :: rest
      | none => rest
    else rest

def impls (d : Document) : List (Nat × Text) := implsFrom d 0 d.tokens.toList

def enclosing? (d : Document) (offset : Nat) : Option Nat :=
  ((d.tokens.toList.filter fun t =>
    t.char == '\x7b' && t.offset < offset &&
      (d.partner? t.offset).any (offset < ·)).getLast?).map (·.offset)

end Document

namespace Function

def attribute? (line : Text) : Option Text :=
  let inner? (t : Text) : Option Text := match t with
    | '[' :: rest =>
      match rest.reverse with
      | ']' :: body => if body.contains '\n' then none else some body.reverse
      | _ => none
    | _ => none
  match line with
  | '#' :: '!' :: rest => inner? rest
  | '#' :: rest => inner? rest
  | _ => none

def isPrelude (line : Text) : Bool :=
  (attribute? line).isSome || line.startsWith "//".toList || line.startsWith "/*".toList ||
    line.startsWith ['*']

structure PreludeLine where
  offset : Nat
  text : Text

/-- The attribute and comment lines directly above a line start, in source order; `acc` holds those
already found. -/
def preludeAbove (source : Text) : Nat → Nat → List PreludeLine → List PreludeLine
  | 0, _, acc => acc
  | fuel + 1, lineStart, acc =>
    if lineStart = 0 then acc
    else
      let previous := source.lineStart (lineStart - 1)
      let line := Text.trim (source.slice previous (lineStart - 1))
      if isPrelude line then preludeAbove source fuel previous (⟨previous, line⟩ :: acc) else acc

def prelude (source : Text) (lineStart : Nat) : List PreludeLine :=
  preludeAbove source lineStart lineStart []

structure Extent where
  opening : Nat
  closing : Nat
  bodyStart : Nat
  bodyStop : Nat
  deriving DecidableEq, Repr

/-- A function needs its parameters before any brace, and a body before any semicolon. -/
def extent? (d : Document) (headerStop : Nat) : Option Extent := do
  let opening ← d.nextToken? headerStop "(\x7b;".toList
  if opening.char != '(' then none
  let closing ← d.partner? opening.offset
  let body ← d.nextToken? (closing + 1) "\x7b;".toList
  if body.char == ';' then none
  let bodyEnd ← d.partner? body.offset
  return ⟨opening.offset, closing, body.offset, bodyEnd + 1⟩

def fullLine (source : Text) (offset : Nat) : Text :=
  let rest := source.drop offset
  rest.takeWhile (· != '\n') ++ ['\n']

def build (d : Document) (keepDirectives : Bool) (start : Nat) (h : Header) (e : Extent) :
    Function × Commands :=
  let source := d.source
  let lineStart := source.lineStart start
  let lead := source.slice lineStart start
  let atLineStart := Text.isBlankText lead
  let indent := if atLineStart then lead else []
  let above := if atLineStart then prelude source lineStart else []
  let spanStart := match above with
    | first :: _ => first.offset
    | [] => if atLineStart then lineStart else start
  let comments := (above.filter fun l => (attribute? l.text).isNone).map (·.text)
  let directives := comments.filter isDirectiveComment
  let text :=
    if keepDirectives || directives.isEmpty then source.slice spanStart e.bodyStop
    else
      (above.filter fun l => !directives.contains l.text).flatMap
        (fun l => fullLine source l.offset) ++
        source.slice lineStart e.bodyStop
  let block := d.enclosing? start
  let parameters := source.slice (e.opening + 1) e.closing
  ({ name := h.name
     kind := "fn".toList
     visibility := h.visibility
     decorators := above.filterMap fun l => (attribute? l.text).map Text.trim
     parameters := (splitTopLevel parameters).map Text.trim
     parameterText := some (Indentation.dedentTail parameters indent)
     body := some (Indentation.dedentTail (source.slice e.bodyStart e.bodyStop) indent)
     text
     start := spanStart
     stop := e.bodyStop
     comments := comments.filter fun c => !directives.contains c
     details := {
       block
       target := block.bind fun b => d.impls.lookup b
       indent
       qualifiers := h.qualifiers
       abi := h.abi
       generics := source.slice (start + h.length) e.opening
       suffix := Indentation.dedentTail (source.slice (e.closing + 1) e.bodyStart) indent } },
   Commands.ofComments directives)

/-- A function stands at the start of a line, or right after a brace, a semicolon or an
attribute. -/
def canStart (source : Text) (start : Nat) : Bool :=
  Text.isBlankText (source.slice (source.lineStart start) start) ||
    match (Text.trimEnd (source.take start)).getLast? with
    | some c => c == '\x7b' || c == '\x7d' || c == ';' || c == ']'
    | none => true

def extractFrom (d : Document) (keepDirectives : Bool) :
    Nat → Nat → List Span → Extraction Details →
    Extraction Details
  | 0, _, _, found => found
  | fuel + 1, position, claimed, found =>
    match Header.find? d.source position with
    | none => found
    | some (start, h) =>
      match d.maskAt? start with
      | some mask => extractFrom d keepDirectives fuel mask.stop claimed found
      | none =>
        let next := start + h.length
        let skip :=
          claimed.any (fun s => s.start ≤ start && start < s.stop) || !canStart d.source start
        match if skip then none else extent? d next with
        | none => extractFrom d keepDirectives fuel next claimed found
        | some e =>
          let (f, c) := build d keepDirectives start h e
          extractFrom d keepDirectives fuel next (⟨start, e.bodyStop⟩ :: claimed)
            (found.add f c)

/-- Every function with a body that lies in no other; of several with one name the last counts. -/
def extract (d : Document) (keepDirectives : Bool) : Extraction Details :=
  extractFrom d keepDirectives (d.source.length + 1) 0 [] {}

end Function

end Graft.Item
