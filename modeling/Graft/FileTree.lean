import Graft.Error

set_option autoImplicit false

/-!
A tree of files and folders, and writing to it so that a file is either replaced as a whole or left
alone.
-/

namespace Graft

abbrev Path := List Text

namespace Path

def up : Text := ['.', '.']

def ofText (t : Text) : Path := (t.splitOn '/').filter fun c => !c.isEmpty && c != ['.']

def toText (p : Path) : Text := Text.join ['/'] p

/-- Where a component leads; a step up cancels the component before it. -/
def enter (p : Path) (c : Text) : Path := if c == up then p.dropLast else p ++ [c]

def normal (p : Path) : Path := p.foldl enter []

def movedTo (p folder : Path) : Path :=
  match p.getLast? with
  | some c => folder ++ [c]
  | none => []

end Path

structure FileTree where
  files : List (Path × Text) := []
  folders : List Path := []
  deriving Inhabited

namespace FileTree

def parents (p : Path) : List Path := (List.range p.length).map p.take

def ofFiles (files : List (Path × Text)) : FileTree where
  files
  folders := files.flatMap fun (p, _) => parents p

def get? (t : FileTree) (p : Path) : Option Text := t.files.lookup p

def isFolder (t : FileTree) (p : Path) : Bool := p.isEmpty || t.folders.contains p

def erase (t : FileTree) (p : Path) : FileTree :=
  { t with files := t.files.filter (·.1 != p) }

def put (t : FileTree) (p : Path) (content : Text) : FileTree :=
  { t with files := (t.erase p).files ++ [(p, content)] }

def addFolder (t : FileTree) (p : Path) : FileTree := { t with folders := t.folders ++ [p] }

def walk (t : FileTree) : Path → List Text → Except Error Path
  | p, [] => .ok p
  | p, c :: cs =>
    if !t.isFolder p then .error (if (t.get? p).isSome then .notDirectory else .fileNotFound)
    else if c.isEmpty || c == ['.'] then t.walk p cs
    else t.walk (Path.enter p c) cs

/-- What a name leads to; a stroke at its end asks for a folder. -/
def locate (t : FileTree) (name : Text) : Except Error Path :=
  match name with
  | [] | '/' :: _ => .error .fileNotFound
  | name => t.walk [] (name.splitOn '/')

def readAt (t : FileTree) (p : Path) : Except Error Text :=
  if t.isFolder p then .error .isDirectory
  else match t.get? p with
    | some content => .ok content
    | none => .error .fileNotFound

def read (t : FileTree) (name : Text) : Except Error Text := do t.readAt (← t.locate name)

def makeFolders (t : FileTree) : Path → List Text → FileTree × Except Error Path
  | p, [] => (t, .ok p)
  | p, c :: cs =>
    if c == Path.up then t.makeFolders p.dropLast cs
    else
      let q := p ++ [c]
      if (t.get? q).isSome then (t, .error (if cs.isEmpty then .fileExists else .notDirectory))
      else if t.isFolder q then t.makeFolders q cs
      else (t.addFolder q).makeFolders q cs

def longestName (t : FileTree) : Nat :=
  (t.files.map fun (p, _) => (p.map List.length).foldl max 0).foldl max 0

/-- A name for a temporary file beside `name`, longer than the name of any file. -/
def temporaryName (t : FileTree) (name : Text) : Text :=
  '.' :: name ++ '.' :: List.replicate (t.longestName + 1) '0' ++ ".tmp".toList

def move (t : FileTree) (source target : Path) : Except Error FileTree :=
  if target.isEmpty || target.getLast? == some Path.up then .error .busy
  else if t.isFolder target then .error .isDirectory
  else match t.get? source with
    | some content => .ok ((t.erase source).put target content)
    | none => .error .fileNotFound

def encode (content : List Nat) : Except Error Text :=
  content.mapM fun n => if n.isValidChar then .ok (Char.ofNat n) else .error .unencodable

/-- Fills the temporary file, checks what is in it, and moves it to its place. -/
def commit (t : FileTree) (check : Text → Except Error Unit) (temporary target : Path)
    (content : List Nat) :
    FileTree × Except Error Unit :=
  match encode content with
  | .error e => (t, .error e)
  | .ok text =>
    let t := t.put temporary text
    match check text with
    | .error e => (t, .error e)
    | .ok _ =>
      match t.move temporary target with
      | .error e => (t, .error e)
      | .ok t => (t, .ok ())

def replace (t : FileTree) (check : Text → Except Error Unit) (temporary target : Path)
    (content : List Nat) :
    FileTree × Except Error Unit :=
  match (t.put temporary []).commit check temporary target content with
  | (t, .ok _) => (t, .ok ())
  | (t, .error e) => (t.erase temporary, .error e)

def write (t : FileTree) (check : Text → Except Error Unit) (path : Path) (content : List Nat) :
    FileTree × Except Error Unit :=
  match t.makeFolders [] path.dropLast with
  | (t, .error e) => (t, .error e)
  | (t, .ok folder) =>
    t.replace check (folder ++ [t.temporaryName (path.getLast?.getD [])])
      (path.movedTo folder) content

end FileTree

end Graft
