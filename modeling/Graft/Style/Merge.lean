import Graft.Edit
import Graft.Extraction
import Graft.Reconcile
import Graft.Report
import Graft.Style.Sheet

set_option autoImplicit false

/-!
Merging CSS rules. A rule is known by its selector in canonical form; a rule of the snippet takes
the place of its namesake, and the rest of the sheet stays as it is.
-/

namespace Graft.Style

/-- What a rule with a block has beyond its name; other pieces have nothing. -/
structure Details where
  selector : Text
  block : Text
  deriving DecidableEq, Repr, Inhabited

abbrev Rule := Piece (Option Details)

def spaceCommas (t : Text) : Text :=
  match t.splitOn ',' with
  | [] => []
  | [only] => only
  | first :: rest =>
    let middle := rest.dropLast.map Text.trim
    let last := (rest.getLast?.map Text.trimStart).getD []
    Text.join ", ".toList (Text.trimEnd first :: (middle ++ [last]))

/-- The canonical form of a selector: single spaces, and one after each comma. -/
def canonical (vs : List Value) : Text := spaceCommas (Value.serialize vs).squeeze

def atName (keyword : Text) (prelude : List Value) : Text :=
  Text.trim ('@' :: (keyword.map Text.lowerAscii ++ ' ' :: canonical prelude))

def offsetOf (offsets : Array Nat) (p : Place) : Nat := offsets.getD (p.line - 1) 0 + p.column - 1

def build (name : Text) (isRule : Bool) (start : Nat) (text : Text) (above : List (Nat × Text)) :
    Rule × Commands :=
  let comments := above.map (·.2)
  let directives := comments.filter isDirectiveComment
  let details := match isRule, Text.find? ['\x7b'] text with
    | true, some brace => some ⟨Text.trim (text.take brace), text.drop brace⟩
    | _, _ => none
  ({ name
     kind := if isRule then "rule".toList else "at-rule".toList
     text
     start := ((above.head?.map (·.1)).getD start : Nat)
     stop := (start + text.length : Nat)
     comments := comments.filter fun c => !directives.contains c
     details }, Commands.ofComments directives)

def extractFrom (source : Text) (offsets : Array Nat) :
    List (Nat × Text) → List Node → Extraction (Option Details) → Extraction (Option Details)
  | _, [], found => found
  | above, n :: ns, found =>
    let start := offsetOf offsets n.place
    let stop := (ns.head?.map fun m => offsetOf offsets m.place).getD source.length
    let text := source.slice start stop
    match n with
    | .blank _ t =>
      let above := if Text.Pattern.emptyLine.occursIn t then [] else above
      extractFrom source offsets above ns found
    | .comment _ => extractFrom source offsets (above ++ [(start, text)]) ns found
    | .rule _ selector =>
      let (r, c) := build (canonical selector) true start text.trimEnd above
      extractFrom source offsets [] ns (found.add r c)
    | .atRule _ keyword prelude =>
      let (r, c) := build (atName keyword prelude) false start text.trimEnd above
      extractFrom source offsets [] ns (found.add r c)
    | .broken _ => extractFrom source offsets [] ns found

/-- One piece for each rule, with the comments directly above it. -/
def extract (source : Text) (ns : List Node) : Extraction (Option Details) :=
  let starts := Text.lineOffsets Text.isBreak source ++ [source.length]
  extractFrom source starts.toArray [] ns {}

def selector? (name : Text) : Option (List Value) :=
  match bareNodes (name ++ " \x7b\x7d".toList) with
  | [.rule _ selector] => some selector
  | _ => none

def vocabulary : Vocabulary where
  supported := [.rename, .delete]
  isName t := (selector? t).isSome
  isParameter := Vocabulary.identifier.accepts

def rename (r : Rule) (name : Text) : Option Rule :=
  if r.kind != "rule".toList then none
  else (selector? name).map fun vs =>
    { r with
      name := canonical vs
      details := r.details.map fun d => { d with selector := name.trim } }

def rules : Rules (Option Details) := { (vocabulary.rules : Rules (Option Details)) with rename }

def render (r : Rule) (_ : Option Rule) : Text :=
  let text := match r.details with
    | some d => d.selector ++ ' ' :: d.block
    | none => r.text
  Text.unlines (r.comments ++ [text])

/-- Changed rules keep their place unless the options say otherwise. -/
def merge (o : Options) (host snippet : Text) : Traced Report := do
  let ns ← Traced.ofExcept (read host)
  if snippet.isBlankText then return ⟨host, .style, []⟩
  let new ← Traced.ofExcept (read snippet)
  let pieces := (extract host ns).table
  let found := extract snippet new
  if found.table.isEmpty then return ⟨host, .style, [.noRule]⟩
  let placement := o.placement.getD .inPlace
  let merged ← reconcile rules placement o.isStrict pieces found.table found.commandsOf
  let edits := Edit.plan pieces merged.table placement render fun _ => host.length
  return ⟨applyEdits host edits, .style, merged.warnings⟩

end Graft.Style
