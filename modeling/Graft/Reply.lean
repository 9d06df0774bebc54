import Graft.Indentation
import Graft.Text.Pattern
import Graft.Trace

set_option autoImplicit false

/-!
Replies of a language model, freed of what is not code: fences, prose around the code, typographic
characters and common indentation.
-/

namespace Graft

namespace Reply

structure Block where
  tag : Text
  code : Text
  deriving DecidableEq, Repr

def fence : Text := "\x60\x60\x60".toList

def isTagChar (c : Char) : Bool := Text.isWord c || "+#.-".toList.contains c

/-- A fence, the rest of its line, and all up to the next fence; also what follows that. -/
def block? (t : Text) : Option (Block × Text) :=
  if !t.startsWith fence then none
  else
    let line := (t.drop 3).dropWhile Text.isIndent
    match line.dropWhile (· != '\n') with
    | [] => none
    | _ :: body => (Text.find? fence body).map fun n =>
      (⟨Text.lower (line.takeWhile isTagChar), body.take n⟩, body.drop (n + 3))

def blocksFrom : Nat → Text → List Block
  | 0, _ => []
  | fuel + 1, t =>
    match t with
    | [] => []
    | _ :: rest =>
      match block? t with
      | some (b, after) => b :: blocksFrom fuel after
      | none => blocksFrom fuel rest

def blocks (t : Text) : List Block := blocksFrom (t.length + 1) t

def tagsOf (language : Text) : List Text :=
  let known : List (String × List String) :=
    [("javascript", ["javascript", "js", "jsx", "mjs"]),
      ("typescript", ["typescript", "ts", "tsx"]), ("python", ["python", "py", "python3"]),
      ("rust", ["rust", "rs"]), ("css", ["css"]), ("html", ["html", "htm", "xml"])]
  let name := Text.lower language
  match known.find? fun (l, _) => l.toList == name with
  | some (_, tags) => tags.map String.toList
  | none => [name]

def longest : List Block → Option Block
  | [] => none
  | b :: bs =>
    match longest bs with
    | some c => if b.code.length < c.code.length then some c else some b
    | none => some b

/-- The longest block, among those of the language if there are any. -/
def extract? (t : Text) (language : Option Text) : Option Text :=
  let all := blocks t
  let tagged := match language with
    | some l => if l.isEmpty then [] else all.filter fun b => (tagsOf l).contains b.tag
    | none => []
  (longest (if tagged.isEmpty then all else tagged)).map (·.code)

open Text.Pattern in
def codeStarts : List Text.Pattern :=
  [ all [maybe (keyword "export"), maybe (keyword "async"), keyword "function", word],
    all [maybe (keyword "async"), maybe (char '#'), words, blanks, char '(', many (noneOf ")"),
      char ')', blanks, char '\x7b'],
    all [maybe (keyword "export"), maybe (keyword "abstract"), keyword "class", word],
    all [any [lit "const", lit "let", lit "var"], gap, words, blanks, char '='],
    all [maybe (keyword "async"), keyword "def", word],
    all [char '@', word],
    all [maybe (all [lit "pub", maybe (all [char '(', many (noneOf ")"), char ')']), gap]),
      many (any [keyword "async", keyword "unsafe", keyword "const"]), keyword "fn", word],
    all [any [lit "impl", lit "struct", lit "enum", lit "trait", lit "mod", lit "use"], edge],
    lit "#[",
    all [any [lit "import", lit "from"], gap, word],
    all [maybe (oneOf ".#"), repeated (one fun c => Text.isWord c || c == '-'),
      many (one fun c =>
        Text.isBlank c || Text.isWord c || ">+~.#:[]=\"'-".toList.contains c),
      blanks, char '\x7b'],
    all [char '<', one fun c => c == '!' || Text.isLetter c],
    all [any [lit "//", char '#', all [char '/', repeated (char '*')], lit "<!--"],
      blanks, char '@', word] ]

def isCodeLine (line : Text) : Bool := codeStarts.any (·.accepts line)

def explanations : List Text :=
  ["here is", "here's", "this is", "this code", "the following", "the updated", "the modified",
    "i've added", "i've updated", "i have", "sure", "certainly"].map String.toList

def isExplanation (line : Text) : Bool :=
  let l := Text.lower line.trim
  explanations.any (Text.startsWith l)

def cutTail : List Text → List Text
  | a :: b :: rest => if a.isBlankText && isExplanation b then [] else a :: cutTail (b :: rest)
  | ls => ls

def dropProse (t : Text) : Text :=
  match (t.splitOn '\n').dropWhile fun line => !isCodeLine line.trim with
  | [] => t
  | kept => Text.unlines (cutTail kept)

def plainChar : Char → Text
  | '“' | '”' => ['"']
  | '‘' | '’' => ['\'']
  | '…' => ['.', '.', '.']
  | '–' => ['-']
  | '—' => ['-', '-']
  | c => if c.toNat == 0xa0 then [' '] else [c]

def plainCharacters (t : Text) : Text := Text.expand plainChar t

def dropBlankEnds (t : Text) : Text :=
  Text.dropLastWhile (· == '\n') (t.dropWhile (· == '\n'))

def unindent (t : Text) : Text :=
  dropBlankEnds (Text.unlines (Indentation.flushLeft Text.isBlankText (t.splitOn '\n')))

/-- The code in a reply, with one newline at its end unless there is none. -/
def clean (t : Text) (language : Option Text) : Traced Text := do
  let code ← match extract? t language with
    | some code => pure code
    | none => do
      Traced.log .noFence
      pure (dropProse t)
  let code := unindent (plainCharacters code)
  return if code.isEmpty then [] else code ++ ['\n']

end Reply

end Graft
