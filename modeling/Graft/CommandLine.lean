import Graft.Reply
import Graft.Text.Escape
import Graft.Usage
import Graft.Writer

set_option autoImplicit false

/-!
The command line, as a function of the files, the standard input and the arguments. Only a merge
that succeeds and was given an output changes a file.
-/

namespace Graft

namespace CommandLine

/-- What a run leaves behind. An error that is not meant for the user ends it with an exception. -/
structure Outcome where
  exitCode : Nat := 0
  output : Text := []
  messages : Text := []
  files : FileTree
  exception : Option Error := none

/-- Where a run takes place: the working directory as it is shown, and the files in it. -/
structure Setting where
  home : Text
  files : FileTree
  input : Text

def line (t : Text) : Text := t ++ ['\n']

def said (t : Text) : Text := (line t).withoutEscapes

def refuse (s : Setting) (m : Misuse) : Outcome :=
  { exitCode := 2, messages := said ("Error: ".toList ++ m.message), files := s.files }

def resolve (s : Setting) (name : Text) : Path :=
  match name with
  | '/' :: _ =>
    let p := Path.normal (Path.ofText name)
    let home := Path.ofText s.home
    if home.isPrefixOf p then p.drop home.length else ['/'] :: p
  | name => Path.normal (Path.ofText name)

def choices : List Text :=
  Notation.all.map Notation.tag ++
    (Notation.fileTypes.map (·.1)).mergeSort fun a b => a.toString ≤ b.toString

def hostName : Text := "ORIGINAL".toList

def snippetName : Text := "SNIPPET".toList

def optionName (o : Switch) : Text :=
  let quote (t : Text) : Text := '\'' :: t ++ ['\'']
  match o.short? with
  | some c => quote o.long ++ " / ".toList ++ quote ['-', c]
  | none => quote o.long

def checkOption (s : Setting) (a : Arguments) (o : Switch) : Except Misuse Unit :=
  match o, a.value? o with
  | .tag, some v =>
    if choices.contains v then .ok () else .error (.noChoice (optionName o) v choices)
  | .config, some v =>
    let p := resolve s v
    if s.files.isFolder p || (s.files.get? p).isSome then .ok ()
    else .error (.noPath (optionName o) "Path".toList v)
  | _, _ => .ok ()

def checkFile (s : Setting) (parameter name : Text) (target : Except Error Path) :
    Except Misuse Unit :=
  let missing := Misuse.noPath ('\'' :: parameter ++ ['\'']) "File".toList name
  match target with
  | .ok p =>
    if s.files.isFolder p then .error (.folder ('\'' :: parameter ++ ['\'']) name)
    else if (s.files.get? p).isSome then .ok ()
    else .error missing
  | .error _ => .error missing

def isStdin (name : Text) : Bool := name == ['-']

def snippetPath (s : Setting) (name : Text) : Except Error Path :=
  match name with
  | '/' :: _ => .ok (resolve s name)
  | name => s.files.locate name

structure Request where
  arguments : Arguments
  host : Text
  snippet : Text

def request (s : Setting) (args : List Text) : Except Misuse Request := do
  let a ← Arguments.read args
  if (a.value? .help).isSome then return ⟨a, [], []⟩
  for (o, _) in a.options do checkOption s a o
  match a.others with
  | [] => .error (.missing hostName)
  | host :: rest =>
    checkFile s hostName host (.ok (resolve s host))
    match rest with
    | [] => .error (.missing snippetName)
    | snippet :: extra =>
      if !isStdin snippet then checkFile s snippetName snippet (snippetPath s snippet)
      if !extra.isEmpty then .error (.extra extra)
      return ⟨a, host, snippet⟩

def optionsOf (t : Text) : Except Error Options :=
  match Json.parse? t with
  | some (.object members) =>
    match Options.ofMembers members with
    | .ok o => .ok o
    | .error v => .error (.noPlacement v)
  | some _ => .error .notAnObject
  | none => .error .badJson

def loadOptions (s : Setting) (a : Arguments) : Except Error Options :=
  match a.value? .config with
  | some name => do optionsOf (← s.files.readAt (resolve s name)).plainNewlines
  | none => .ok {}

def notationOf? (s : Setting) (r : Request) : Option Notation :=
  match r.arguments.value? .tag with
  | some tag => Notation.resolve? tag
  | none => Notation.ofPath? (resolve s r.host).toText

def snippetText (s : Setting) (r : Request) : Except Error Text :=
  if isStdin r.snippet then .ok s.input.plainNewlines
  else do return (← s.files.readAt (← snippetPath s r.snippet)).plainNewlines

def report (a : Arguments) (n : Notation) (o : Options) (host snippet : Text) : Traced Report := do
  let snippet ←
    if (a.value? .cleanResponse).isSome then Reply.clean snippet (a.value? .language)
    else pure snippet
  merge n o host snippet

/-- The events that are shown: none, the important ones, or all. -/
def logOf (a : Arguments) (events : List Event) : Text :=
  let verbosity := a.count .verbose
  let isShown (e : Event) : Bool := match e.level with
    | .info => verbosity ≥ 1
    | .debug => verbosity ≥ 2
  (events.filter isShown).flatMap fun e => line e.line

def isExplained : Error → Bool
  | .unreadable _ | .invalid .. | .rejected _ | .unsupported _ | .directive _ => true
  | _ => false

/-- An error as it is explained; a fault with a place says it first. -/
def explain (e : Error) : Text :=
  let place := match e with
    | .unreadable { place := some (row, column), .. } =>
      Json.digits row ++ ':' :: Json.digits column ++ ": ".toList
    | _ => []
  said ("Error: ".toList ++ place ++ e.message)

def failWith (s : Setting) (messages : Text) (e : Error) : Outcome :=
  if isExplained e then { exitCode := 1, messages := messages ++ explain e, files := s.files }
  else { exitCode := 1, messages, files := s.files, exception := some e }

/-- Prints a document, or writes it to the output, which cannot be the working directory. -/
def deliver (s : Setting) (a : Arguments) (o : Options) (messages : Text) (r : Report) : Outcome :=
  match a.value? .output with
  | none => { output := r.text.withoutEscapes, messages, files := s.files }
  | some name =>
    let path := resolve s name
    if path.isEmpty then failWith s messages .isDirectory
    else match ({} : Writer).write s.files
      ⟨path, r.text.map Char.toNat, r.notationUsed, o.validates⟩ with
    | (files, .error e) => { failWith s messages e with files }
    | (files, .ok _) =>
      let wrote := Event.wrote (s.home ++ '/' :: path.toText) r.text.length
      { messages := messages ++ logOf a [wrote], files }

def mergeWith (s : Setting) (r : Request) : Outcome :=
  let a := r.arguments
  match loadOptions s a with
  | .error e => failWith s [] e
  | .ok o =>
    match notationOf? s r with
    | none => refuse s (.noNotation (Notation.fileName (resolve s r.host).toText))
    | some n =>
      let texts : Except Error (Text × Text) := do
        return ((← s.files.readAt (resolve s r.host)).plainNewlines, ← snippetText s r)
      match texts with
      | .error e => failWith s [] e
      | .ok (host, snippet) =>
        let merged := report a n o host snippet
        let log := logOf a merged.events
        match merged.result with
        | .error e => failWith s log e
        | .ok r =>
          let warnings := r.warnings.flatMap fun w => said ("Warning: ".toList ++ w.message)
          deliver s a o (log ++ warnings) r

def helpText : Text :=
  "Usage: merge [OPTIONS] ORIGINAL SNIPPET\n       notations\n".toList

def listNotations : Text :=
  Notation.all.flatMap fun n =>
    let types := (Notation.fileTypes.filter (·.2 = n)).map (·.1)
    let sorted := types.mergeSort fun a b => a.toString ≤ b.toString
    line (n.tag ++ '\t' :: Text.join ", ".toList sorted)

def runMerge (s : Setting) (args : List Text) : Outcome :=
  match request s args with
  | .error m => refuse s m
  | .ok r =>
    if (r.arguments.value? .help).isSome then { output := helpText, files := s.files }
    else mergeWith s r

def runNotations (s : Setting) (args : List Text) : Outcome :=
  match args.find? Arguments.isOption with
  | some arg =>
    if arg == Switch.help.long then { output := helpText, files := s.files }
    else refuse s (.noOption arg)
  | none =>
    if args.isEmpty then { output := listNotations, files := s.files } else refuse s (.extra args)

def run (s : Setting) (args : List Text) : Outcome :=
  match args with
  | [] => { output := helpText, files := s.files }
  | name :: rest =>
    if name == Switch.help.long then { output := helpText, files := s.files }
    else if Arguments.isOption name then refuse s (.noOption name)
    else if name == "merge".toList then runMerge s rest
    else if name == "notations".toList then runNotations s rest
    else refuse s (.noCommand name)

end CommandLine

end Graft
