import Graft.Extraction
import Graft.Indentation
import Graft.Layout
import Graft.Rules
import Graft.Script.Node

set_option autoImplicit false

/-!
The members of a TypeScript class, as pieces. Methods are known by their parts; fields by their
text; everything else in a class body has no name of its own.
-/

namespace Graft.Script

inductive Above where
  | comment (s : Span)
  | decorator (s : Span)
  deriving DecidableEq, Repr

def Above.span : Above → Span
  | comment s | decorator s => s

/-- A member with what stands above it; no member for the comments at the end of a body. `stop` is
behind what trails the member on its last line. -/
structure Group where
  leading : List Above
  member : Option MemberNode
  stop : Nat

def Group.start (g : Group) : Nat :=
  match g.leading with
  | a :: _ => a.span.start
  | [] => (g.member.map (·.span.start)).getD 0

/-- Groups the children of a body; `last` is the group read last, `pending` waits for its member. -/
def groupsFrom (source : Text) : Option Group → List Above → List Child → List Group
  | last, [], [] => last.toList
  | last, pending@(p :: ps), [] =>
    last.toList ++ [⟨pending, none, ((p :: ps).getLast?.map (·.span.stop)).getD 0⟩]
  | last, pending, .separator s :: cs =>
    match pending, last with
    | [], some g => groupsFrom source (some { g with stop := s.stop }) [] cs
    | _, _ => groupsFrom source last pending cs
  | last, pending, .comment s :: cs =>
    match pending, last with
    | [], some g =>
      if (source.slice g.stop s.start).contains '\n' then groupsFrom source last [.comment s] cs
      else groupsFrom source (some { g with stop := s.stop }) [] cs
    | _, _ => groupsFrom source last (pending ++ [.comment s]) cs
  | last, pending, .decorator s :: cs => groupsFrom source last (pending ++ [.decorator s]) cs
  | last, pending, .member m :: cs =>
    last.toList ++ groupsFrom source (some ⟨pending, some m, m.span.stop⟩) [] cs

def groups (source : Text) (c : ClassNode) : List Group := groupsFrom source none [] c.children

inductive Form where
  | declaration (text : Text)
  | method (modifiers afterName suffix : Text)
  deriving DecidableEq, Repr

structure Details where
  nameText : Text
  form : Form
  deriving DecidableEq, Repr

abbrev Member := Piece (Option Details)

namespace Member

def cut (source : Text) (s : Span) : Text := source.slice s.start s.stop

def name? (source : Text) : Option (NameKind × Span) → Option Text
  | some (.computed, _) | none => none
  | some (.string, s) => some ((cut source s).drop 1).dropLast
  | some (_, s) => some (cut source s)

def standIn (kind : Text) (index : Nat) : Text :=
  '<' :: (kind ++ ':' :: (Nat.toDigits 10 index ++ ['>']))

def commentTexts (source indent : Text) (g : Group) : List Text :=
  let above := g.leading.filterMap fun
    | .comment s => some s
    | .decorator _ => none
  let inner := match g.member with
    | some m =>
      if m.kind = .method then (m.parts.filter (·.kind = .comment)).map (·.span) else []
    | none => []
  (above ++ inner).map fun s => Indentation.dedentTail (cut source s) indent

def decoratorTexts (source : Text) (g : Group) : List Text :=
  g.leading.filterMap fun
    | .decorator s => some ((cut source s).dropPrefix ['@']).trim
    | .comment _ => none

def method (source indent : Text) (m : MemberNode) (nameSpan : Span) (ps : Span × List Span)
    (body : Span) (p : Member) : Member :=
  let cutAt (k : PartKind) : List Text :=
    (m.parts.filter (·.kind = k)).map fun a => cut source a.span
  let tail (start stop : Nat) : Text := Indentation.dedentTail (source.slice start stop) indent
  { p with
    kind := "method".toList
    visibility := (cutAt .accessibility).getLast?
    parameters := ps.2.map (cut source)
    parameterText := some (tail (ps.1.start + 1) (ps.1.stop - 1))
    body := some (tail body.start body.stop)
    details := some {
      nameText := cut source nameSpan
      form := .method ((cutAt .modifier).flatMap (· ++ [' ']))
        (source.slice nameSpan.stop ps.1.start) (tail ps.1.stop body.start) } }

def ofGroup (source : Text) (index : Nat) (g : Group) : Member × Commands :=
  let indent := Indentation.ofLine source g.start
  let text := Indentation.dedentTail (source.slice g.start g.stop) indent
  match g.member with
  | none =>
    let kind := "comment".toList
    ({ name := standIn kind index, kind, text, details := none, anonymous := true }, {})
  | some m =>
    let above := commentTexts source indent g
    let commands := Commands.ofComments (above.filter isDirectiveComment)
    match name? source m.name, m.name with
    | some name, some (_, nameSpan) =>
      let declaration := Indentation.dedentTail (source.slice m.span.start g.stop) indent
      let p : Member := {
        name
        kind := "field".toList
        text
        comments := above.filter (!isDirectiveComment ·)
        decorators := decoratorTexts source g
        details := some ⟨cut source nameSpan, .declaration declaration⟩ }
      match m.parameters, m.body with
      | some ps, some body => (method source indent m nameSpan ps body p, commands)
      | _, _ => (p, commands)
    | _, _ =>
      let kind := m.kind.word
      ({ name := standIn kind index, kind, text, details := none, anonymous := true }, commands)

def extract (source : Text) (c : ClassNode) : Extraction (Option Details) :=
  (groups source c).zipIdx.foldl
    (fun e (g, index) => let (p, commands) := ofGroup source index g; e.add p commands) {}

open Text.Pattern in
def namePattern : Text.Pattern := seq (maybe (char '#')) Vocabulary.identifier

open Text.Pattern in
def parameterPattern : Text.Pattern :=
  let first := one fun c => Text.isLetter c || c == '_' || c == '$'
  let next := one fun c => Text.isWord c || c == '$'
  let typed := all [blanks, char ':', blanks, noneOf "=", few (noneOf "=")]
  let preset := all [blanks, char '=', blanks, repeated dot]
  all [maybe (lit "..."), first, many next, maybe (char '?'), maybe typed, maybe preset, finish]

def vocabulary : Vocabulary where
  visibilities := ["public".toList, "protected".toList]
  privateMarker := some ['#']
  isName := namePattern.accepts
  isParameter := parameterPattern.accepts
  isDecorator d := !d.isEmpty && !d.contains '\n'

def isMethod (m : Member) : Bool := m.kind == "method".toList

def withNameText (m : Member) : Member :=
  { m with details := m.details.map fun d => { d with nameText := m.name } }

def rename (m : Member) (name : Text) : Option Member :=
  if isMethod m then (vocabulary.rename m name).map withNameText else none

/-- A private name takes no visibility besides. -/
def makePrivate (m : Member) : Option Member :=
  if isMethod m && Vocabulary.identifier.accepts (m.name.dropPrefix ['#']) then
    (vocabulary.makePrivate m).map fun m => { withNameText m with visibility := none }
  else none

def access (m : Member) (value : Text) : Option Member :=
  if !isMethod m then none
  else if Text.lower value.trim == "private".toList then makePrivate m
  else vocabulary.access m value

def decorate (m : Member) (ds : List Text) : Option Member :=
  if isMethod m then vocabulary.decorate m ds else none

def setParameters (m : Member) (ps : List Text) : Option Member :=
  if isMethod m then vocabulary.setParameters m ps else none

def rules : Rules (Option Details) := ⟨rename, access, decorate, setParameters, Vocabulary.extend⟩

/-- A member of the document as it is, a member of the snippet from its parts. -/
def render (m : Member) : Text :=
  match m.origin, m.anonymous, m.details with
  | .snippet, false, some d =>
    let (declaration, modifiers, afterName, suffix) := match d.form with
      | .declaration t => (t, [], [], [' '])
      | .method modifiers afterName suffix => ([], modifiers, afterName, suffix)
    Layout.Member.render {
      comments := m.comments
      decorators := m.decorators
      declaration
      accessibility := m.visibility.getD []
      modifiers
      name := d.nameText
      afterName
      parameters := m.parameterText.getD (Text.join ", ".toList m.parameters)
      suffix
      body := match m.body with
        | some (c :: cs) => c :: cs
        | _ => "\x7b\x7d".toList }
  | _, _, _ => m.text

end Member

end Graft.Script
