import Graft.Markup.Tree

set_option autoImplicit false

/-!
A tree under construction: its nodes, the elements that are open, innermost first, and the
formatting elements that are taken up again where the source cut them off.
-/

namespace Graft.Markup

inductive Mode where
  | initial
  | beforeHtml
  | beforeHead
  | inHead
  | inHeadNoscript
  | afterHead
  | inBody
  | inText
  | inTable
  | inTableText
  | inCaption
  | inColumnGroup
  | inTableBody
  | inRow
  | inCell
  | inSelect
  | inSelectInTable
  | inFrameset
  | afterBody
  | afterFrameset
  | afterAfterBody
  | afterAfterFrameset
  deriving DecidableEq, Repr, Inhabited

/-- A place among the children of a node. A child that was put in front of another one is not
carried along when the children move. -/
structure Link where
  node : Nat
  wasAppended : Bool := true
  deriving DecidableEq, Repr

inductive Kind where
  | document
  | element (e : Element)
  | comment (t : Text)
  deriving Repr

structure Node where
  kind : Kind
  parent : Option Nat := none
  /-- The text before the first child. -/
  text : Text := []
  children : List Link := []
  /-- The text behind the node; it goes where the node goes. -/
  tail : Text := []

instance : Inhabited Node := ⟨⟨.document, none, [], [], []⟩⟩

structure Builder where
  /-- The first one is the document. -/
  nodes : Array Node := #[⟨.document, none, [], [], []⟩]
  stack : List Nat := []
  /-- The formatting elements, latest first, with marks between them. -/
  formatting : List (Option Nat) := []
  head : Option Nat := none
  form : Option Nat := none
  /-- True while what does not belong into a table is put in front of it. -/
  fosters : Bool := false
  mode : Mode := .initial
  textReturn : Mode := .initial
  tableReturn : Mode := .initial
  /-- Text in a table that was not placed yet. -/
  pending : Text := []
  framesetOk : Bool := true
  /-- True of documents of the old kinds, in which a table can stand in a paragraph. -/
  isOld : Bool := false
  dropsNewline : Bool := false
  content : Content := .data
  isFragment : Bool := false

abbrev Build := StateM Builder

namespace Build

def node (n : Nat) : Build Node := return (← get).nodes.getD n default

def modifyNode (n : Nat) (f : Node → Node) : Build PUnit :=
  modify fun b => { b with nodes := b.nodes.modify n f }

def newNode (kind : Kind) : Build Nat := do
  let n := (← get).nodes.size
  modify fun b => { b with nodes := b.nodes.push { kind } }
  return n

def element (n : Nat) : Build Element := do
  match (← node n).kind with
  | .element e => return e
  | _ => return { name := "" }

def nameOf (n : Nat) : Build String := return (← element n).name

def newElement (t : Tag) : Build Nat :=
  newNode (.element { name := t.name, space := t.space, attributes := t.attributes })

def copy (n : Nat) : Build Nat := do newNode (.element (← element n))

def addAttributes (n : Nat) (new : Attributes) : Build PUnit :=
  modifyNode n fun x => match x.kind with
    | .element e =>
      let attributes := new.foldl (fun old (k, v) => addAttribute old k v) e.attributes
      { x with kind := .element { e with attributes } }
    | _ => x

def append (parent child : Nat) : Build PUnit := do
  modifyNode parent fun x => { x with children := x.children ++ [⟨child, true⟩] }
  modifyNode child fun x => { x with parent := some parent }

def insertLink (child before : Nat) : List Link → List Link
  | [] => [⟨child, false⟩]
  | l :: ls =>
    if l.node == before then ⟨child, false⟩ :: l :: ls else l :: insertLink child before ls

def insertBefore (parent child before : Nat) : Build PUnit := do
  modifyNode parent fun x => { x with children := insertLink child before x.children }
  modifyNode child fun x => { x with parent := some parent }

def detach (n : Nat) : Build PUnit := do
  match (← node n).parent with
  | some p =>
    modifyNode p fun x => { x with children := x.children.filter (·.node != n) }
    modifyNode n fun x => { x with parent := none }
  | none => return ⟨⟩

def moveChildren (source target : Nat) : Build PUnit := do
  let old ← node source
  modifyNode target fun x => { x with text := x.text ++ old.text }
  modifyNode source fun x => { x with text := [], children := [] }
  for l in old.children do
    if l.wasAppended then append target l.node

def appendText (parent : Nat) (t : Text) : Build PUnit := do
  match (← node parent).children.getLast? with
  | some l => modifyNode l.node fun x => { x with tail := x.tail ++ t }
  | none => modifyNode parent fun x => { x with text := x.text ++ t }

def textBefore (parent before : Nat) (t : Text) : Build PUnit := do
  match ((← node parent).children.takeWhile (·.node != before)).getLast? with
  | some l => modifyNode l.node fun x => { x with tail := x.tail ++ t }
  | none => modifyNode parent fun x => { x with text := x.text ++ t }

def current : Build Nat := return ((← get).stack.head?).getD 0

def currentName : Build String := do nameOf (← current)

def root : Build Nat := return ((← get).stack.getLast?).getD 0

def push (n : Nat) : Build PUnit := modify fun b => { b with stack := n :: b.stack }

def pop : Build PUnit := modify fun b => { b with stack := b.stack.drop 1 }

def removeOpen (n : Nat) : Build PUnit := modify fun b => { b with stack := b.stack.erase n }

def dropUntil (p : String → Bool) : List Nat → Build (List Nat)
  | [] => return []
  | n :: ns => do if p (← nameOf n) then return n :: ns else dropUntil p ns

def popTo (p : String → Bool) : Build PUnit := do
  let stack ← dropUntil p (← get).stack
  modify fun b => { b with stack }

def popThrough (p : String → Bool) : Build PUnit := do
  popTo p
  pop

def popNode (n : Nat) : Build PUnit :=
  modify fun b => { b with stack := (b.stack.dropWhile (· != n)).drop 1 }

inductive Scope where
  | plain
  | button
  | list
  | table
  | select
  deriving DecidableEq, Repr

def scopeWords : List String :=
  ["applet", "caption", "html", "marquee", "object", "table", "td", "th"]

/-- True of the elements that close off their content. -/
def isBoundary (e : Element) : Bool :=
  match e.space with
  | .html => scopeWords.contains e.name
  | .math => ["mi", "mo", "mn", "ms", "mtext", "annotation-xml"].contains e.name
  | .svg => ["foreignObject", "desc", "title"].contains e.name

def Scope.stops (s : Scope) (e : Element) : Bool :=
  let isHtml (names : List String) : Bool := e.space = .html && names.contains e.name
  match s with
  | .plain => isBoundary e
  | .button => isBoundary e || isHtml ["button"]
  | .list => isBoundary e || isHtml ["ol", "ul"]
  | .table => isHtml ["html", "table"]
  | .select => !isHtml ["optgroup", "option"]

def inScopeFrom (s : Scope) (p : Nat → Element → Bool) : List Nat → Build Bool
  | [] => return false
  | n :: ns => do
    let e ← element n
    if p n e then return true
    else if s.stops e then return false
    else inScopeFrom s p ns

def inScope (name : String) (s : Scope) : Build Bool := do
  inScopeFrom s (fun _ e => e.space = .html && e.name == name) (← get).stack

def nodeInScope (n : Nat) : Build Bool := do
  inScopeFrom .plain (fun m _ => m == n) (← get).stack

/-- True of the elements that misnested end tags do not reach through. -/
def isSpecial (e : Element) : Bool :=
  match e.space with
  | .html =>
    ["address", "applet", "area", "article", "aside", "base", "basefont", "bgsound",
      "blockquote", "body", "br", "button", "caption", "center", "col", "colgroup", "command", "dd",
      "details", "dir", "div", "dl", "dt", "embed", "fieldset", "figure", "footer", "form", "frame",
      "frameset", "h1", "h2", "h3", "h4", "h5", "h6", "head", "header", "hr", "html", "iframe",
      "image", "img", "input", "isindex", "li", "link", "listing", "marquee", "menu", "meta", "nav",
      "noembed", "noframes", "noscript", "object", "ol", "p", "param", "plaintext", "pre", "script",
      "section", "select", "style", "table", "tbody", "td", "textarea", "tfoot", "th", "thead",
      "title", "tr", "ul", "wbr", "xmp"].contains e.name
  | .svg => e.name == "foreignObject"
  | .math => false

def impliedEnds : List String := ["dd", "dt", "li", "option", "optgroup", "p", "rp", "rt"]

/-- Closes the elements whose end tags may be left out, but not one with the given name. -/
def closeImplied (except : String) : Build PUnit :=
  popTo fun name => !impliedEnds.contains name || name == except

def tableParts : List String := ["table", "tbody", "tfoot", "thead", "tr"]

def lastTable : List Nat → Build (Option (Nat × Option Nat))
  | [] => return none
  | n :: ns => do
    if (← nameOf n) == "table" then return some (n, ns.head?) else lastTable ns

/-- Where goes what does not belong into a table: a parent, and the child to put it in front of. -/
def fosterPlace : Build (Nat × Option Nat) := do
  match ← lastTable (← get).stack with
  | some (table, around) =>
    match (← node table).parent with
    | some p => return (p, some table)
    | none => return (around.getD 0, none)
  | none => return (← root, none)

def isFostering : Build Bool := do
  return (← get).fosters && tableParts.contains (← currentName)

def place (n : Nat) : Build PUnit := do
  if ← isFostering then
    match ← fosterPlace with
    | (p, some before) => insertBefore p n before
    | (p, none) => append p n
  else append (← current) n

def insertElement (t : Tag) : Build PUnit := do
  let n ← newElement t
  place n
  push n

def insertClosed (t : Tag) : Build PUnit := do
  insertElement t
  pop

def insertText (t : Text) : Build PUnit := do
  if ← isFostering then
    match ← fosterPlace with
    | (p, some before) => textBefore p before t
    | (p, none) => appendText p t
  else appendText (← current) t

def insertComment (parent : Nat) (t : Text) : Build PUnit := do
  append parent (← newNode (.comment t))

def setMode (mode : Mode) : Build PUnit := modify fun b => { b with mode }

def insertRaw (t : Tag) (content : Content) : Build PUnit := do
  insertElement t
  modify fun b => { b with content, textReturn := b.mode, mode := .inText }

/-- Attributes count as a set. -/
def sameAttributes (as bs : Attributes) : Bool :=
  as.length == bs.length && as.all fun (k, v) => bs.lookup k == some v

def looksLike (m n : Nat) : Build Bool := do
  let a ← element m
  let b ← element n
  return a.name == b.name && a.space = b.space && sameAttributes a.attributes b.attributes

def recentFormatting : Build (List Nat) :=
  return ((← get).formatting.takeWhile Option.isSome).filterMap id

def eraseFormatting (n : Nat) : Build PUnit :=
  modify fun b => { b with formatting := b.formatting.erase (some n) }

def mark : Build PUnit := modify fun b => { b with formatting := none :: b.formatting }

def clearToMark : Build PUnit :=
  modify fun b => { b with formatting := (b.formatting.dropWhile Option.isSome).drop 1 }

/-- At most three formatting elements since the last mark look alike: a fourth displaces the
first. -/
def addFormatting (t : Tag) : Build PUnit := do
  insertElement t
  let n ← current
  let alike ← (← recentFormatting).filterM (looksLike n)
  match alike with
  | _ :: _ :: oldest :: _ => eraseFormatting oldest
  | _ => pure ⟨⟩
  modify fun b => { b with formatting := some n :: b.formatting }

def findFormatting (name : String) : Build (Option Nat) := do
  (← recentFormatting).findM? fun n => return (← nameOf n) == name

def reconstruct : Build PUnit := do
  let b ← get
  let cut := b.formatting.takeWhile fun
    | some n => !b.stack.contains n
    | none => false
  for entry in cut.reverse do
    match entry with
    | some n =>
      let e ← element n
      insertElement { name := e.name, space := e.space, attributes := e.attributes }
      let m ← current
      modify fun b =>
        { b with formatting := b.formatting.map fun x => if x == some n then some m else x }
    | none => pure ⟨⟩

end Build

mutual

/-- The trees of the nodes in a list, each with the text behind it; nothing lies deeper than
`depth`. -/
def treesOf (b : Builder) : Nat → List Nat → List Tree
  | 0, _ => []
  | _, [] => []
  | depth + 1, n :: ns =>
    let x := b.nodes.getD n default
    let own := match x.kind with
      | .element e => [Tree.element e (contentsOf b depth x)]
      | .comment t => [Tree.comment t]
      | .document => []
    own ++ (if x.tail.isEmpty then [] else [.text x.tail]) ++ treesOf b (depth + 1) ns
termination_by depth ns => (depth, 1, ns.length)

def contentsOf (b : Builder) (depth : Nat) (x : Node) : List Tree :=
  (if x.text.isEmpty then [] else [.text x.text]) ++ treesOf b depth (x.children.map (·.node))
termination_by (depth, 2, 0)

end

end Graft.Markup
