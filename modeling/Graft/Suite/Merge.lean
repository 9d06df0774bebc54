import Graft.ClassMerge
import Graft.Report
import Graft.Suite.Member

set_option autoImplicit false

/-!
Merging Python classes. The body of a class that the snippet touches is written anew, line by line:
members that nobody changed keep their lines, and members that a directive changed are printed.
-/

namespace Graft.Suite

def read (source : Text) : Except Error Block :=
  if source.contains (Char.ofNat 0) then .error .nullCharacter
  else match parse? source with
    | some b => .ok b
    | none => .error (.unreadable { cause := .suite })

open Text.Pattern in
def classPattern : Text.Pattern :=
  all [lit "class", gap, one fun c => Text.isLetter c || c == '_']

open Text.Pattern in
def functionPattern : Text.Pattern :=
  any [char '@', all [lit "def", blank], all [keyword "async", lit "def", blank]]

def isFeed (c : Char) : Bool := c == '\n'

def indentUnit : Text := "    ".toList

def wrap (o : Options) (code : Text) : Text :=
  if classPattern.startsLine code then code
  else
    let text := Text.dropLastWhile isFeed (code.dropWhile isFeed)
    let rows := Rows.ofSource text
    let ls := text.splitOn '\n'
    let verbatim := (List.range ls.length).filter rows.startsInString
    let margins := (List.range ls.length).filterMap fun i =>
      let l := ls.getD i []
      if verbatim.contains i || l.isBlankText then none else some (margin l).length
    let text := Indentation.dedent text (margins.min?.getD 0) verbatim
    let head := ((text.splitOn '\n').find? fun l => !l.isBlankText && l.head? != some '#').getD []
    if functionPattern.accepts head then
      "class ".toList ++ o.container.display ++ ":\n".toList ++
        Indentation.indent text indentUnit verbatim ++ ['\n']
    else code

/-- A member at an indentation. The inside of a string is never moved. -/
def memberText (indent : Text) (m : Member) : Except Error Text :=
  if m.origin = .snippet && m.details.modified then do
    let body ← Member.require m.details.node.print?
    let text := Text.unlines (m.comments ++ [body])
    let rows := Rows.ofSource text
    let verbatim := (List.range (text.splitOn '\n').length).filter rows.startsInString
    return Indentation.indent text indent verbatim
  else if m.details.indent == indent then .ok m.details.source
  else .ok (Indentation.indent m.text indent m.details.verbatim)

def isSpaced (s : Source) : Block → Bool
  | a :: b :: rest =>
    Text.Pattern.emptyLine.occursIn (Text.unlines (s.between a.place.stop b.place.first)) ||
      isSpaced s (b :: rest)
  | _ => false

def charsIn (bytes : Nat) (t : Text) : Nat := t.length - (Member.dropBytes bytes t).length

/-- Where the body of a class starts, what goes before its first member, and the indentation of its
members. A body on the line of its class is moved to a line of its own. -/
def opening (s : Source) (offsets : Array Nat) (c : ClassBody) : Nat × Text × Text :=
  let first := (c.body.head?.map (·.place)).getD c.place
  if first.line == c.place.line then
    let line := s.line first.line
    let before := line.take (charsIn first.column line)
    (offsets.getD (first.line - 1) 0 + (Text.trimEnd before).length, ['\n'],
      margin (s.line c.place.first) ++ indentUnit)
  else
    let row := Member.commentStart s.rows c.place.line first.first
    (offsets.getD (row - 1) 0, [], margin (s.line row))

def renderBody (s : Source) (offsets : Array Nat) (c : ClassBody) (table : Pieces Details) :
    Except Error ClassMerge.Replacement := do
  let (start, lead, indent) := opening s offsets c
  let stop := offsets.getD (c.place.stop - 1) 0 + (s.line c.place.stop).length
  let members ← table.values.mapM (memberText indent)
  let members := if members.isEmpty then [indent ++ "pass".toList] else members
  let separator := if isSpaced s c.body then ['\n', '\n'] else ['\n']
  return ⟨start, stop, lead ++ Text.join separator members⟩

def classText (s : Source) (c : ClassBody) : Text :=
  let ls := s.between c.place.first c.place.stop
  let verbatim :=
    (List.range ls.length).filter fun i => s.rows.startsInString (c.place.first + i - 1)
  Indentation.dedent (Text.unlines ls) c.place.column verbatim

def functionName? : Stmt → Option Text
  | .function _ n .. => some n
  | _ => none

def skippedFunction (n : Text) : Warning :=
  .other ("UnitNameUnresolvable: skipped module-level function '".toList ++ n ++ ['\''])

def membersOf (host : Source) (hosts : List ClassBody) (p : ClassMerge Details) (i : Nat) :
    Except Error (Pieces Details) :=
  match p.tables.lookup i with
  | some t => .ok t
  | none =>
    match hosts[i]? with
    | some h => (Member.extract host h true).map (·.table)
    | none => .ok .empty

def step (o : Options) (host snippet : Source) (hosts : List ClassBody)
    (p : ClassMerge Details) (st : Placed Stmt) : Traced (ClassMerge Details) := do
  match ClassBody.of? st with
  | none =>
    match functionName? st.node with
    | some n => return p.warn [skippedFunction n]
    | none => return p
  | some c =>
    match ClassMerge.hostIndex? o (hosts.map (·.name)) c.name with
    | none =>
      if o.isContainer c.name then return p.warn [.noClass]
      else
        Traced.log (.classAdded .suite c.name)
        return p.add (classText snippet c)
    | some i =>
      let old ← Traced.ofExcept (membersOf host hosts p i)
      let new ← Traced.ofExcept (Member.extract snippet c false)
      let r ← reconcile Member.rules (o.placement.getD .moveToEnd) o.isStrict old new.table
        new.commandsOf
      return (p.setTable i r.table).warn r.warnings

/-- Changed members go to the end of their class unless the options say otherwise. -/
def merge (o : Options) (host snippet : Text) : Traced Report := do
  let tree ← Traced.ofExcept (read host)
  if snippet.isBlankText then return ⟨host, .suite, []⟩
  let wrapped := wrap o snippet
  let new ← Traced.ofExcept (read wrapped)
  let script := Source.ofText host
  let hosts := classes tree
  let p ← new.foldlM (step o script (Source.ofText wrapped) hosts) {}
  if p.isIdle then return ⟨host, .suite, p.warnings⟩
  let offsets := (Text.lineOffsets Text.isBreak host).toArray
  let touched := (List.range hosts.length).filterMap fun i => do
    return (← hosts[i]?, ← p.tables.lookup i)
  let rs ← Traced.ofExcept (touched.mapM fun (c, t) => renderBody script offsets c t)
  let text := p.added.foldl (ClassMerge.addClass "\n\n\n".toList) (ClassMerge.replaceFrom host 0 rs)
  return ⟨text, .suite, p.warnings⟩

end Graft.Suite
