import Graft.CommandLine

set_option autoImplicit false

/-!
The program: looks at the files that the arguments name, runs the command line on them, and carries
out what it says.
-/

namespace Graft.Program

/-- Every text that an argument could mean as a path. -/
def candidates (arg : Text) : List Text :=
  [arg, arg.drop 2, (arg.dropWhile (· != '=')).drop 1].filter (!·.isEmpty)

def diskName (home : String) : Path → String
  | ['/'] :: p => "/" ++ (Path.toText p).toString
  | p => home ++ "/" ++ (Path.toText p).toString

def look (home : String) (t : FileTree) (p : Path) : IO FileTree := do
  let place := (← IO.currentDir) / diskName home p
  if ← place.isDir then return t.addFolder p
  else if ← place.pathExists then return t.put p (← IO.FS.readFile place).toList
  else return t

def snapshot (s : CommandLine.Setting) (home : String) (args : List Text) : IO FileTree := do
  let paths := args.flatMap fun a => (candidates a).map (CommandLine.resolve s)
  let mut t : FileTree := {}
  for p in paths do
    for q in FileTree.parents p ++ [p] do t ← look home t q
  return t

def replaceFile (name content : String) : IO Unit := do
  let place := (← IO.currentDir) / name
  match place.parent with
  | some folder => IO.FS.createDirAll folder
  | none => pure ()
  IO.FS.writeFile (name ++ ".tmp") content
  IO.FS.rename (name ++ ".tmp") name

def run (args : List String) : IO UInt32 := do
  let home := toString (← IO.currentDir)
  let args := args.map String.toList
  let input ← if args.contains ['-'] then (← IO.getStdin).readToEnd else pure ""
  let empty : CommandLine.Setting := ⟨home.toList, {}, input.toList⟩
  let files ← snapshot empty home args
  let outcome := CommandLine.run { empty with files } args
  for (p, content) in outcome.files.files do
    if files.get? p != some content then replaceFile (diskName home p) content.toString
  (← IO.getStdout).putStr outcome.output.toString
  (← IO.getStderr).putStr outcome.messages.toString
  match outcome.exception with
  | some e => (← IO.getStderr).putStrLn e.message.toString
  | none => pure ()
  return outcome.exitCode.toUInt32

end Graft.Program

def main (args : List String) : IO UInt32 := Graft.Program.run args
