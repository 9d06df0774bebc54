import Graft.Edit
import Graft.Item.Function
import Graft.Layout
import Graft.Reconcile
import Graft.Report

set_option autoImplicit false

/-!
Merging Rust functions. They are merged as text: functions the snippet does not mention are never
written anew.
-/

namespace Graft.Item

open Text.Pattern

def namePattern : Text.Pattern :=
  all [one Header.isNameStart, many (one Header.isNameChar), finish]

def parameterPattern : Text.Pattern :=
  all [any [
    all [char '&', blanks, maybe (all [char '\'', words, gap]), maybe (keyword "mut"), lit "self"],
    all [maybe (keyword "mut"), lit "self", maybe (all [blanks, char ':', repeated dot])],
    all [maybe (keyword "mut"), one Header.isNameStart, many word, blanks, char ':', blanks,
      one (!Text.isBlank ·), many dot]], finish]

def visibilityPattern : Text.Pattern :=
  all [lit "pub", maybe (all [blanks, char '(', blanks,
    any [lit "crate", lit "self", lit "super",
      all [keyword "in", repeated (one fun c => Text.isWord c || c == ':')]],
    blanks, char ')']), finish]

def whereWord : Text.Pattern := all [edge, lit "where", edge]

/-- What stands between the parameters and the body: a return type, then a `where` clause, which
goes into slot 0. -/
def suffixPattern : Text.Pattern :=
  all [blanks,
    maybe (all [lit "->", blanks, few (all [absent whereWord, one fun _ => true])]),
    maybe (slot 0 (all [blanks, whereWord, few (one fun _ => true)])),
    blanks, finish]

def vocabulary : Vocabulary where
  isName := namePattern.accepts
  isParameter := parameterPattern.accepts
  isDecorator d := !d.isEmpty && !d.contains '\n'

def setVisibility (f : Function) (value : Text) : Option Function :=
  let word := value.squeeze
  if Text.lower word == "private".toList then some { f with visibility := none }
  else
    let word := if Text.lower word == "public".toList then "pub".toList else word
    if visibilityPattern.accepts word then some { f with visibility := some word } else none

/-- An attribute may be given with or without its brackets. -/
def plainAttribute (d : Text) : Text :=
  let d := Vocabulary.plainDecorator d
  ((Function.attribute? d).map Text.trim).getD d

def qualifierRank (q : Text) : Nat := (Header.qualifierWords.map String.toList).idxOf q

def sortQualifiers (qs : List Text) : List Text :=
  qs.mergeSort fun a b => qualifierRank a ≤ qualifierRank b

def addQualifier (wanted : Bool) (q : String) (qs : List Text) : List Text :=
  if wanted && !qs.contains q.toList then qs ++ [q.toList] else qs

def withReturnType (suffix type : Text) : Text :=
  let clause := ((suffixPattern.match? suffix).bind (·.slot? 0)).getD []
  " -> ".toList ++ type.trim ++ clause ++ [' ']

def extend (f : Function) (c : Commands) : Function × List Field :=
  let qs := addQualifier c.isUnsafe "unsafe" (addQualifier c.isAsync "async" f.details.qualifiers)
  let suffix := (c.returnType.map (withReturnType f.details.suffix)).getD f.details.suffix
  ({ f with details := { f.details with qualifiers := sortQualifiers qs, suffix } }, [])

def rules : Rules Details where
  rename := vocabulary.rename
  access := setVisibility
  decorate f ds := vocabulary.decorate f (ds.map plainAttribute)
  setParameters := vocabulary.setParameters
  extend := extend

def layout (f : Function) : Layout.Function where
  comments := f.comments
  attributes := f.decorators
  visibility := f.visibility.getD []
  qualifiers := f.details.qualifiers.flatMap (· ++ [' ']) ++ Layout.followedBySpace f.details.abi
  name := f.name
  generics := f.details.generics
  parameters := f.parameterText.getD (Text.join ", ".toList f.parameters)
  suffix := f.details.suffix
  body := f.body.getD []

def lastToEnd : List Function → Option Function
  | [] => none
  | f :: fs =>
    match lastToEnd fs with
    | some g => if f.stop < g.stop then some g else some f
    | none => some f

/-- Where a function goes that takes over no span, and how far it is indented: into the block with
the same target, after the last function there, else after the last function of all. -/
def insertionPoint (d : Document) (host : Pieces Details) (f : Function) : Int × Text :=
  let brace :=
    f.details.target.bind fun t => (d.impls.find? fun (_, target) => target == t).map (·.1)
  let members := match brace with
    | some b => host.values.filter (·.details.block == some b)
    | none => host.values
  match lastToEnd members, brace with
  | some g, _ => (g.stop, g.details.indent)
  | none, some b =>
    ((d.partner? b).getD d.source.length, Indentation.ofLine d.source b ++ "    ".toList)
  | none, none => (d.source.length, [])

def render (d : Document) (host : Pieces Details) (f : Function)
    (target : Option Function) : Text :=
  let indent := match target with
    | some g => g.details.indent
    | none => (insertionPoint d host f).2
  Indentation.indent (layout f).render indent []

def read (source : Text) : Except Error Document :=
  match Document.scan source with
  | .ok d => .ok d
  | .error f => .error (.unreadable f)

/-- Changed functions keep their place unless the options say otherwise. -/
def merge (o : Options) (host snippet : Text) : Traced Report := do
  let d ← Traced.ofExcept (read host)
  if snippet.isBlankText then return ⟨host, .item, []⟩
  let s ← Traced.ofExcept (read snippet)
  let pieces := (Function.extract d true).table
  let new := Function.extract s false
  if new.table.isEmpty then return ⟨host, .item, [.noFunction]⟩
  let placement := o.placement.getD .inPlace
  let merged ← reconcile rules placement o.isStrict pieces new.table new.commandsOf
  let edits := Edit.plan pieces merged.table placement (render d pieces) fun f =>
    (insertionPoint d pieces f).1
  return ⟨applyEdits host edits, .item, merged.warnings⟩

end Graft.Item
