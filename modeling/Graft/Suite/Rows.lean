import Graft.Text

set_option autoImplicit false

/-!
The rows of a Python source: which of them hold only a comment, and which start inside a string.
Rows are separated by line feeds alone. The reading needs no source that makes sense: what it cannot
place it passes over, and a row indented like no other before it ends the reading.
-/

namespace Graft.Suite

structure Rows where
  /-- Rows, counted from one, that hold only a comment. -/
  comments : List (Nat × Text) := []
  /-- The first and last row of each string that spans several. -/
  strings : List (Nat × Nat) := []
  misindented : Bool := false
  deriving Inhabited

namespace Rows

def append (a b : Rows) : Rows :=
  ⟨a.comments ++ b.comments, a.strings ++ b.strings, a.misindented || b.misindented⟩

instance : Append Rows := ⟨append⟩

def comment? (r : Rows) (row : Nat) : Option Text := r.comments.lookup row

def startsInString (r : Rows) (line : Nat) : Bool :=
  r.strings.any fun (a, b) => a ≤ line && line < b

inductive Tail where
  | closed (rest : Text)
  | continued
  | broken
  deriving Repr

def tail (quote : Char) : Text → Tail
  | [] => .broken
  | ['\\'] => .broken
  | '\\' :: '\n' :: _ => .continued
  | '\\' :: '\r' :: '\n' :: _ => .continued
  | '\\' :: _ :: cs => tail quote cs
  | c :: cs => if c == quote then .closed cs else tail quote cs

def tripleTail? (quote : Char) : Text → Option Text
  | [] => none
  | ['\\'] => none
  | '\\' :: c :: cs => if c == '\n' then none else tripleTail? quote cs
  | c :: cs =>
    if c == quote && cs.take 2 == [quote, quote] then some (cs.drop 2) else tripleTail? quote cs

structure Opened where
  quote : Char
  triple : Bool
  row : Nat

structure State where
  depth : Int := 0
  continued : Bool := false
  opened : Option Opened := none
  /-- Set by a string in single quotes that goes on; cleared when any string ends. -/
  needsBackslash : Bool := false
  /-- Columns of the open blocks, innermost first. -/
  indents : List Nat := [0]

def Opened.tail? (o : Opened) (line : Text) : Option Text :=
  if o.triple then tripleTail? o.quote line
  else match tail o.quote line with
    | .closed rest => some rest
    | _ => none

def endsRow (t : Text) : Bool := t.head? == some '\n' || t.take 2 == ['\r', '\n']

def isVisibleInComment (c : Char) : Bool := c != '\r' && c != '\n'

/-- The tokens of a row; `bare` is true while only blanks were seen in it. -/
def scan (row : Nat) : Nat → Bool → State → Text → State × Rows
  | 0, _, s, _ => (s, {})
  | _, _, s, [] => (s, {})
  | bound + 1, bare, s, c :: cs =>
    if c == '\\' then
      if endsRow cs then ({ s with continued := true }, {}) else scan row bound false s cs
    else if c == '#' then
      let (s, rest) := scan row bound false s (cs.dropWhile isVisibleInComment)
      (s, (if bare then { comments := [(row, c :: cs.takeWhile isVisibleInComment)] } else {}) ++
        rest)
    else if c == '\'' || c == '"' then
      if cs.take 2 == [c, c] then
        match tripleTail? c (cs.drop 2) with
        | some rest => scan row bound false s rest
        | none => ({ s with opened := some ⟨c, true, row⟩ }, {})
      else match tail c cs with
        | .closed rest => scan row bound false s rest
        | .continued => ({ s with opened := some ⟨c, false, row⟩, needsBackslash := true }, {})
        | .broken => scan row bound false s cs
    else if c == '(' || c == '[' || c == '\x7b' then
      scan row bound false { s with depth := s.depth + 1 } cs
    else if c == ')' || c == ']' || c == '\x7d' then
      scan row bound false { s with depth := s.depth - 1 } cs
    else scan row bound (bare && Text.isBlank c) s cs

def margin : Nat → Text → Nat × Text
  | n, ' ' :: cs => margin (n + 1) cs
  | n, '\t' :: cs => margin ((n / 8 + 1) * 8) cs
  | _, '\x0c' :: cs => margin 0 cs
  | n, cs => (n, cs)

/-- The blocks still open at a column, if it is that of one of them or opens a new one. -/
def reindent (column : Nat) (indents : List Nat) : Option (List Nat) :=
  if column > indents.headD 0 then some (column :: indents)
  else if indents.contains column then some (indents.dropWhile (column < ·)) else none

def newStatement (row : Nat) (s : State) (line : Text) : State × Rows :=
  let (column, rest) := margin 0 line
  match rest with
  | [] => (s, {})
  | c :: _ =>
    if c == '#' then (s, { comments := [(row, rest.dropLastWhile (!isVisibleInComment ·))] })
    else if c == '\r' || c == '\n' then (s, {})
    else match reindent column s.indents with
      | some indents => scan row rest.length true { s with indents } rest
      | none => (s, { misindented := true })

def endsInBackslash (line : Text) : Bool :=
  Text.endsWith line ['\\', '\n'] || Text.endsWith line ['\\', '\r', '\n']

def row (n : Nat) (s : State) (line : Text) : State × Rows :=
  match s.opened with
  | some o =>
    match o.tail? line with
    | some rest =>
      let (s, found) :=
        scan n line.length false { s with opened := none, needsBackslash := false } rest
      (s, { strings := [(o.row, n)] } ++ found)
    | none =>
      if s.needsBackslash && !endsInBackslash line then ({ s with opened := none }, {}) else (s, {})
  | none =>
    if s.depth == 0 && !s.continued then newStatement n s line
    else scan n line.length true { s with continued := false } line

def rows : Nat → State → List Text → Rows
  | _, _, [] => {}
  | n, s, line :: rest =>
    let (s, found) := row n s line
    if found.misindented then found else found ++ rows (n + 1) s rest

def withFeeds : List Text → List Text
  | [] => []
  | [t] => if t.isEmpty then [] else [t]
  | t :: ts => (t ++ ['\n']) :: withFeeds ts

def ofSource (source : Text) : Rows := rows 1 {} (withFeeds (source.splitOn '\n'))

end Rows

end Graft.Suite
