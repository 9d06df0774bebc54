import Graft.Options
import Graft.Piece

set_option autoImplicit false

/-!
Edits of a text. A merged table is planned as edits of the document it came from, and the edits are
applied in one pass from left to right, so that no offset points into text already changed.
-/

namespace Graft

/-- Replaces the characters from `start` to `stop`; without a text they are deleted, and where both
ends meet the text is inserted. -/
structure Edit where
  start : Int
  stop : Int
  text : Option Text
  deriving DecidableEq, Repr

namespace Edit

section

variable {δ : Type}

def incoming (merged : Pieces δ) : List (Piece δ) := merged.values.filter (·.origin = .snippet)

/-- The first piece of the snippet that stands for a host piece takes over its span. -/
def takeOver (found : List (Text × Piece δ)) (p : Piece δ) : List (Text × Piece δ) :=
  match p.replaces with
  | some name => if found.any (·.1 == name) then found else found ++ [(name, p)]
  | none => found

def takeovers (placement : Placement) (merged : Pieces δ) : List (Text × Piece δ) :=
  if placement = .inPlace then (incoming merged).foldl takeOver [] else []

/-- A span that is not yet taken is taken; a piece without one is to be inserted. -/
def book (placement : Placement) (s : List Text × List (Piece δ)) (p : Piece δ) :
    List Text × List (Piece δ) :=
  match p.replaces with
  | some name =>
    if placement = .inPlace && !s.1.contains name then (name :: s.1, s.2) else (s.1, s.2 ++ [p])
  | none => (s.1, s.2 ++ [p])

def appended (placement : Placement) (merged : Pieces δ) : List (Piece δ) :=
  ((incoming merged).foldl (book placement) ([], [])).2

/-- One edit for each host piece that is gone, then one for each piece to be inserted. -/
def plan (host merged : Pieces δ) (placement : Placement)
    (render : Piece δ → Option (Piece δ) → Text) (insertAt : Piece δ → Int) : List Edit :=
  let kept := (merged.values.filter (·.origin = .host)).map (·.name)
  let taken := takeovers placement merged
  let gone := host.values.filter fun p => !kept.contains p.name
  gone.map (fun p => ⟨p.start, p.stop, (taken.lookup p.name).map fun q => render q (some p)⟩) ++
    (appended placement merged).map fun p => ⟨insertAt p, insertAt p, some (render p none)⟩

end

structure Progress where
  out : Text := []
  cursor : Nat := 0
  deriving DecidableEq, Repr

def before (a b : Edit) : Bool := a.start < b.start || (a.start == b.start && a.stop ≤ b.stop)

def lineEnd? (t : Text) : Option Nat :=
  let pad := (t.takeWhile Text.isIndent).length
  match t.drop pad with
  | '\n' :: _ => some (pad + 1)
  | '\r' :: '\n' :: _ => some (pad + 2)
  | _ => none

def endsWithBlankLine (t : Text) : Bool :=
  t.isBlankText || (t.dropLastWhile Text.isIndent).endsWith ['\n', '\n']

/-- Takes the rest of the line along, and one of the blank lines that would meet. -/
def closeGap (source : Text) (p : Progress) : Progress :=
  match lineEnd? (source.drop p.cursor) with
  | none => p
  | some n =>
    let out := p.out.dropLastWhile Text.isIndent
    match lineEnd? (source.drop (p.cursor + n)) with
    | some m => if endsWithBlankLine out then ⟨out, p.cursor + n + m⟩ else ⟨out, p.cursor + n⟩
    | none => ⟨out, p.cursor + n⟩

def delete (source : Text) (p : Progress) : Progress :=
  let q := closeGap source p
  if Text.isBlankText (source.drop q.cursor) then ⟨q.out.trimEnd, source.length⟩ else q

/-- A blank line goes before, unless a block was just opened or nothing was written yet. -/
def insert (source text : Text) (p : Progress) : Progress :=
  let head := p.out.trimEnd
  let lead :=
    if head.isEmpty then []
    else head ++ (if head.getLast? == some '\x7b' then ['\n'] else ['\n', '\n'])
  let tail := match source.drop p.cursor with
    | [] => []
    | c :: _ => if c == '\n' then [] else ['\n']
  ⟨lead ++ text ++ tail, p.cursor⟩

def step (source : Text) (p : Progress) (e : Edit) : Progress :=
  let start := max e.start.toNat p.cursor
  let stop := max e.stop.toNat p.cursor
  let out := p.out ++ source.slice p.cursor start
  match e.text with
  | none => delete source ⟨out, stop⟩
  | some text => if e.start = e.stop then insert source text ⟨out, start⟩ else ⟨out ++ text, stop⟩

end Edit

open Edit in
/-- All edits at once. A final newline of the source is kept. -/
def applyEdits (source : Text) (edits : List Edit) : Text :=
  let p := (edits.mergeSort before).foldl (step source) {}
  let out := p.out ++ source.drop p.cursor
  if source.getLast? == some '\n' && out.getLast? != some '\n' then out ++ ['\n'] else out

end Graft
