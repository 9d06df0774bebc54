import Graft.Extraction
import Graft.Indentation
import Graft.Rules
import Graft.Suite.Print
import Graft.Suite.Rows
import Graft.Suite.Statement
import Graft.Error

set_option autoImplicit false

/-!
The members of a Python class, as pieces: its methods, its fields, and its other statements, which
have no name of their own.
-/

namespace Graft.Suite

structure Details where
  /-- The lines of the member as they stand in the source. -/
  source : Text
  indent : Text
  /-- The lines, counted from zero, that start inside a string. -/
  verbatim : List Nat
  node : Stmt
  /-- True once a directive changed the tree, so that the source no longer says it. -/
  modified : Bool := false

instance : Inhabited Details := ⟨⟨[], [], [], default, false⟩⟩

abbrev Member := Piece Details

structure Source where
  text : Text
  lines : Array Text
  rows : Rows

def Source.ofText (text : Text) : Source := ⟨text, text.lines.toArray, Rows.ofSource text⟩

def Source.line (s : Source) (n : Nat) : Text := s.lines.getD (n - 1) []

def Source.between (s : Source) (first last : Nat) : List Text :=
  (List.range' first (last + 1 - first)).map s.line

def margin (line : Text) : Text := line.takeWhile Text.isBlank

structure ClassBody where
  place : Place
  name : Text
  body : Block

def ClassBody.of? (s : Placed Stmt) : Option ClassBody :=
  match s.node with
  | .classDef name _ _ _ body => some ⟨s.place, name, body⟩
  | _ => none

def classes (b : Block) : List ClassBody := b.filterMap ClassBody.of?

namespace Member

/-- The first of the rows with comments only that lie directly above `row` and below `limit`. -/
def commentStart (rows : Rows) (limit : Nat) : Nat → Nat
  | 0 => 0
  | row + 1 =>
    if limit < row && (rows.comment? row).isSome then commentStart rows limit row else row + 1

def dropBytes : Nat → Text → Text
  | 0, t => t
  | _, [] => []
  | n, c :: cs => dropBytes (n - c.utf8Size) cs

def require {α : Type} : Option α → Except Error α
  | some a => .ok a
  | none => .error .unprintable

def parameterTexts : Params → Option (List Text)
  | .mk positional plain _ keywordOnly _ =>
    (positional ++ plain ++ keywordOnly).mapM fun p => match p with
      | .mk n hint _ => do return n ++ (← Print.plainMaybe ": ".toList hint)

def fieldName? : Stmt → Option Text
  | .annotate (.name n) .. => some n
  | .assign [.name n] _ => some n
  | _ => none

/-- The piece for the statement with that number; a statement that does nothing is none. -/
def ofStatement (index : Nat) (text : Text) (details : Details) : Except Error (Option Member) :=
  match details.node with
  | .pass => .ok none
  | .function _ n ps _ ds _ => do
    let decorators ← require (ds.mapM Expr.print?)
    let parameters ← require (parameterTexts ps)
    let parameterText ← require (Print.params false ps)
    return some { name := n, kind := "method".toList, decorators, parameters,
                  parameterText := some parameterText, text, details }
  | node =>
    match fieldName? node with
    | some n => .ok (some { name := n, kind := "field".toList, text, details })
    | none =>
      .ok (some { name := '<' :: (node.kind.toList ++ ':' :: (Nat.toDigits 10 index ++ ['>']))
                  kind := "statement".toList, text, details, anonymous := true })

/-- The lines of a statement and the rows they stand in. On the line of its class a statement starts
at its own column. -/
def sourceLines (s : Source) (c : ClassBody) (p : Place) (rows : List Nat) : List Text :=
  let ls := rows.map s.line
  if p.line == c.place.line then
    match ls with
    | [] => []
    | first :: rest => dropBytes p.column first :: rest
  else ls

/-- The member for a statement of a class, with its directives; `above` is the line where the
statement before it ended. -/
def ofPlaced (s : Source) (c : ClassBody) (keepDirectives : Bool) (index above : Nat)
    (st : Placed Stmt) :
    Except Error (Option (Member × Commands)) := do
  let p := st.place
  let start := commentStart s.rows above p.first
  let leading := (List.range' start (p.first - start)).filterMap s.rows.comment?
  let directives := leading.filter isDirectiveComment
  let isWanted (row : Nat) : Bool :=
    keepDirectives || p.first ≤ row || !(s.rows.comment? row).any isDirectiveComment
  let rows := (List.range' start (p.stop + 1 - start)).filter isWanted
  let source := Text.unlines (sourceLines s c p rows)
  let indent := if p.line == c.place.line then [] else margin (s.line p.first)
  let verbatim := (List.range rows.length).filter fun i =>
    s.rows.startsInString ((rows.getD i 0) - 1)
  let text := Indentation.dedent source indent.length verbatim
  let m ← ofStatement index text { source, indent, verbatim, node := st.node }
  return m.map fun m =>
    ({ m with
        comments := leading.filter fun l => !directives.contains l
        start := start
        stop := p.stop },
      if m.anonymous then {} else Commands.ofComments directives)

def extractFrom (s : Source) (c : ClassBody) (keepDirectives : Bool) :
    Nat → Nat → Block → Extraction Details → Except Error (Extraction Details)
  | _, _, [], found => .ok found
  | index, above, st :: rest, found => do
    match ← ofPlaced s c keepDirectives index above st with
    | none => extractFrom s c keepDirectives (index + 1) st.place.stop rest found
    | some (m, commands) =>
      extractFrom s c keepDirectives (index + 1) st.place.stop rest (found.add m commands)

/-- The members of a class. Directives are no code: they are left out of a member's lines unless
they are to be kept. -/
def extract (s : Source) (c : ClassBody) (keepDirectives : Bool) :
    Except Error (Extraction Details) :=
  if s.rows.misindented then .error .badIndentation
  else extractFrom s c keepDirectives 0 c.place.line c.body {}

def isKeyword (t : Text) : Bool := Parser.keywords.contains t

def vocabulary : Vocabulary where
  privateMarker := some ['_', '_']
  isName t := Text.isIdentifier t && !isKeyword t
  isParameter := Vocabulary.identifier.accepts

def isMethod (m : Member) : Bool := m.kind == "method".toList

def change (m : Member) (f : Stmt → Stmt) : Member :=
  { m with details := { m.details with node := f m.details.node, modified := true } }

def withName (n : Text) : Stmt → Stmt
  | .function a _ ps r ds b => .function a n ps r ds b
  | s => s

def withParams (ps : Params) : Stmt → Stmt
  | .function a n _ r ds b => .function a n ps r ds b
  | s => s

def withDecorators (ds : List Expr) : Stmt → Stmt
  | .function a n ps r _ b => .function a n ps r ds b
  | s => s

def asAsync : Stmt → Stmt
  | .function _ n ps r ds b => .function true n ps r ds b
  | s => s

def renamed (m : Member) (n : Text) : Member := change { m with name := n } (withName n)

def rename (m : Member) (n : Text) : Option Member :=
  if isMethod m && (vocabulary.rename m n).isSome then some (renamed m n) else none

def isSpecial (n : Text) : Bool := n.length > 4 && n.startsWith ['_', '_'] && n.endsWith ['_', '_']

/-- Two low lines in front make a name private; a special name stays as it is. -/
def makePrivate (m : Member) : Option Member :=
  if !isMethod m || isSpecial m.name || m.name.all (· == '_') then none
  else if m.name.startsWith ['_', '_'] then some m
  else some (renamed m ('_' :: '_' :: m.name.dropWhile (· == '_')))

/-- Only privacy can be written; other levels are recorded by `extend`. -/
def access (m : Member) (value : Text) : Option Member :=
  if Text.lower value.trim == "private".toList then makePrivate m else none

def decorate (m : Member) (ds : List Text) : Option Member := do
  if !isMethod m then none
  let es ← ds.mapM fun d => parseExpression? (Vocabulary.plainDecorator d)
  let shown := es.map fun e => (Expr.print? e).getD []
  return change { m with decorators := shown } (withDecorators es)

def parseParams? (ps : List Text) : Option Params := do
  let b ← parse? ("def _(".toList ++ Text.join ", ".toList ps ++ "): pass".toList)
  match b with
  | ⟨_, .function _ _ params _ _ _⟩ :: _ => some params
  | _ => none

def setParameters (m : Member) (ps : List Text) : Option Member := do
  if !isMethod m then none
  let params ← parseParams? ps
  return change { m with parameters := ps, parameterText := none } (withParams params)

def record (m : Member) (c : Commands) : Member :=
  let level := (c.access.map fun value => Text.lower value.trim).filter
    ["public".toList, "protected".toList].contains
  { m with visibility := level.or m.visibility }

def extend (m : Member) (c : Commands) : Member × List Field :=
  let m := record m c
  let left := [Field.isUnsafe, .returnType].filter c.seen.contains
  if !c.isAsync then (m, left)
  else if isMethod m then (change m asAsync, left)
  else (m, .isAsync :: left)

def rules : Rules Details := ⟨rename, access, decorate, setParameters, extend⟩

end Member

end Graft.Suite
