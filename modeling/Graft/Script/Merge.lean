import Graft.ClassMerge
import Graft.Report
import Graft.Script.Member
import Graft.Script.Statement

set_option autoImplicit false

/-!
Merging TypeScript classes. The body of a class that the snippet touches is written anew, member by
member: those that nobody changed keep their text, the others are laid out from their parts.
-/

namespace Graft.Script

def read (source : Text) : Except Error (List ClassNode) :=
  match classes? source with
  | some cs => .ok cs
  | none => .error (.unreadable { cause := .script })

def className (source : Text) (c : ClassNode) : Text := Member.cut source c.name

open Text.Pattern in
def classPattern : Text.Pattern :=
  all [many (oneOf " \t"), maybe (seq (keyword "export") (maybe (keyword "default"))),
    maybe (keyword "abstract"), keyword "class",
    one fun c => Text.isLetter c || c == '_' || c == '$']

open Text.Pattern in
def memberPattern : Text.Pattern :=
  let modifier :=
    any (["public", "private", "protected", "static", "async", "get", "set", "readonly",
      "override"].map keyword)
  all [many modifier, maybe (all [lit "function", edge, blanks]), maybe (char '*'), blanks,
    maybe (char '#'), one fun c => Text.isLetter c || c == '_' || c == '$',
    many (one fun c => Text.isWord c || c == '$'), blanks,
    maybe (all [char '<', many (noneOf ">"), char '>']), blanks, char '(']

open Text.Pattern in
/-- The keyword of a function, with a word before and a star after it, which are kept. -/
def functionPattern : Text.Pattern :=
  all [maybe (slot 1 (keyword "async")), lit "function", edge, blanks,
    slot 2 (maybe (char '*')), blanks]

def firstCodeLine (code : Text) : Text :=
  let isCode (line : Text) : Bool :=
    !line.isEmpty && ["//", "/*", "*", "@"].all fun s => !line.startsWith s.toList
  (((code.splitOn '\n').map Text.trim).find? isCode).getD []

def dropFunction (line : Text) : Text :=
  if line.head?.any Text.isIndent then line
  else match functionPattern.match? line with
    | some s => (s.slot? 1).getD [] ++ (s.slot? 2).getD [] ++ s.rest
    | none => line

def wrap (o : Options) (code : Text) : Text :=
  if classPattern.startsLine code then code
  else if memberPattern.accepts (firstCodeLine code) && code.contains '\x7b' then
    let isFeed (c : Char) : Bool := c == '\n'
    let flush := Text.unlines (Indentation.flushLeft (·.all Text.isIndent) (code.splitOn '\n'))
    let ls := (Text.dropLastWhile isFeed (flush.dropWhile isFeed)).splitOn '\n'
    "class ".toList ++ o.container.display ++ " \x7b\n".toList ++
      Text.unlines (ls.map dropFunction) ++ "\n\x7d\n".toList
  else code

def indentUnit : Text := "    ".toList

def isSpaced (source : Text) : List Group → Bool
  | a :: b :: rest =>
    Text.Pattern.emptyLine.occursIn (source.slice a.stop b.start) || isSpaced source (b :: rest)
  | _ => false

def memberIndent (source : Text) (c : ClassNode) : Text :=
  let inner := Indentation.ofLine source c.span.start ++ indentUnit
  match (groups source c).head? with
  | some g =>
    let own := source.slice (source.lineStart g.start) g.start
    if own.all isPlainSpace then own else inner
  | none => inner

def renderBody (source : Text) (c : ClassNode) (table : Pieces (Option Details)) : Text :=
  let outer := Indentation.ofLine source c.span.start
  let separator := if isSpaced source (groups source c) then ['\n', '\n'] else ['\n']
  if table.isEmpty then "\x7b\x7d".toList
  else
    let members :=
      table.values.map fun m => Indentation.indent (Member.render m) (memberIndent source c) []
    "\x7b\n".toList ++ Text.join separator members ++ '\n' :: outer ++ ['\x7d']

def classText (source : Text) (c : ClassNode) : Text :=
  Indentation.dedentTail (Member.cut source c.outer) (Indentation.ofLine source c.outer.start)

def step (o : Options) (host snippet : Text) (hosts : List ClassNode)
    (p : ClassMerge (Option Details)) (c : ClassNode) : Traced (ClassMerge (Option Details)) := do
  let name := className snippet c
  match ClassMerge.hostIndex? o (hosts.map (className host)) name with
  | none =>
    if o.isContainer name then return p.warn [.noClass]
    else
      Traced.log (.classAdded .script name)
      return p.add (classText snippet c)
  | some i =>
    let old :=
      (p.tables.lookup i <|> hosts[i]?.map fun h => (Member.extract host h).table).getD .empty
    let new := Member.extract snippet c
    let r ← reconcile Member.rules (o.placement.getD .moveToEnd) o.isStrict old new.table
      new.commandsOf
    return (p.setTable i r.table).warn r.warnings

/-- Changed members go to the end of their class unless the options say otherwise. -/
def merge (o : Options) (host snippet : Text) : Traced Report := do
  let hosts ← Traced.ofExcept (read host)
  if snippet.isBlankText then return ⟨host, .script, []⟩
  let wrapped := wrap o snippet
  let new ← Traced.ofExcept (read wrapped)
  let start : ClassMerge (Option Details) := { warnings := if new.isEmpty then [.noMember] else [] }
  let p ← new.foldlM (step o host wrapped hosts) start
  if p.isIdle then return ⟨host, .script, p.warnings⟩
  let rs : List ClassMerge.Replacement := (List.range hosts.length).filterMap fun i => do
    let c ← hosts[i]?
    let t ← p.tables.lookup i
    return ⟨c.body.start, c.body.stop, renderBody host c t⟩
  let text := p.added.foldl (ClassMerge.addClass "\n\n".toList) (ClassMerge.replaceFrom host 0 rs)
  return ⟨text, .script, p.warnings⟩

end Graft.Script
