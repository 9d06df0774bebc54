import Graft.Markup.Mode

set_option autoImplicit false

/-!
Whole documents and fragments: the rules for text, comments and the end of the source, and the loop
that reads one token after the other. Every text is a document; nothing is ever refused.
-/

namespace Graft.Markup

open Build

def oldPublicIds : List String :=
  ["+//silmaril//dtd html pro v0r11 19970101//",
    "-//advasoft ltd//dtd html 3.0 aswedit + extensions//",
    "-//as//dtd html 3.0 aswedit + extensions//", "-//ietf//dtd html 2.0 level 1//",
    "-//ietf//dtd html 2.0 level 2//", "-//ietf//dtd html 2.0 strict level 1//",
    "-//ietf//dtd html 2.0 strict level 2//", "-//ietf//dtd html 2.0 strict//",
    "-//ietf//dtd html 2.0//", "-//ietf//dtd html 2.1e//", "-//ietf//dtd html 3.0//",
    "-//ietf//dtd html 3.2 final//", "-//ietf//dtd html 3.2//", "-//ietf//dtd html 3//",
    "-//ietf//dtd html level 0//", "-//ietf//dtd html level 1//", "-//ietf//dtd html level 2//",
    "-//ietf//dtd html level 3//", "-//ietf//dtd html strict level 0//",
    "-//ietf//dtd html strict level 1//", "-//ietf//dtd html strict level 2//",
    "-//ietf//dtd html strict level 3//", "-//ietf//dtd html strict//", "-//ietf//dtd html//",
    "-//metrius//dtd metrius presentational//",
    "-//microsoft//dtd internet explorer 2.0 html strict//",
    "-//microsoft//dtd internet explorer 2.0 html//",
    "-//microsoft//dtd internet explorer 2.0 tables//",
    "-//microsoft//dtd internet explorer 3.0 html strict//",
    "-//microsoft//dtd internet explorer 3.0 html//",
    "-//microsoft//dtd internet explorer 3.0 tables//", "-//netscape comm. corp.//dtd html//",
    "-//netscape comm. corp.//dtd strict html//", "-//o'reilly and associates//dtd html 2.0//",
    "-//o'reilly and associates//dtd html extended 1.0//",
    "-//o'reilly and associates//dtd html extended relaxed 1.0//",
    "-//softquad software//dtd hotmetal pro 6.0::19990601::extensions to html 4.0//",
    "-//softquad//dtd hotmetal pro 4.0::19971010::extensions to html 4.0//",
    "-//spyglass//dtd html 2.0 extended//", "-//sq//dtd html 2.0 hotmetal + extensions//",
    "-//sun microsystems corp.//dtd hotjava html//",
    "-//sun microsystems corp.//dtd hotjava strict html//", "-//w3c//dtd html 3 1995-03-24//",
    "-//w3c//dtd html 3.2 draft//", "-//w3c//dtd html 3.2 final//", "-//w3c//dtd html 3.2//",
    "-//w3c//dtd html 3.2s draft//", "-//w3c//dtd html 4.0 frameset//",
    "-//w3c//dtd html 4.0 transitional//", "-//w3c//dtd html experimental 19960712//",
    "-//w3c//dtd html experimental 970421//", "-//w3c//dtd w3 html//", "-//w3o//dtd w3 html 3.0//",
    "-//webtechs//dtd mozilla html 2.0//", "-//webtechs//dtd mozilla html//"]

def Doctype.isOld (d : Doctype) : Bool :=
  let publicId := lowerName (d.publicId.getD [])
  let starts (ids : List String) : Bool := ids.any fun s => publicId.startsWith s.toList
  let exact :=
    ["-//w3o//dtd w3 html strict 3.0//en//", "-/w3c/dtd html 4.0 transitional/en", "html"]
  let loose := ["-//w3c//dtd html 4.01 frameset//", "-//w3c//dtd html 4.01 transitional//"]
  !d.isCorrect || d.name != "html".toList || starts oldPublicIds ||
    exact.any (·.toList == publicId) || (starts loose && d.systemId.isNone) ||
    d.systemId.any fun s => Text.endsWith (lowerName s) "/dtd/v11/ibmxhtml1-transitional.dtd".toList

def addPending (t : Text) : Build PUnit := modify fun b => { b with pending := b.pending ++ t }

def enterTableText : Build PUnit :=
  modify fun b => { b with tableReturn := b.mode, mode := .inTableText }

/-- Leaves the parts of a document that hold no text; false where text can stand or is dropped. -/
def leaveHeadParts : Mode → Build Bool
  | .initial => do
    modify fun b => { b with isOld := true, mode := .beforeHtml }
    return true
  | .beforeHtml => do
    openHtml
    return true
  | .beforeHead => do
    openHead { name := "head" }
    return true
  | .inHead => do
    closeHead
    return true
  | .inHeadNoscript => do
    closeNoscript
    return true
  | .afterHead => do
    openBody
    return true
  | _ => return false

def textIn (m : Mode) (t : Text) : Build Bool := do
  match m with
  | .inBody | .inCaption | .inCell => bodyText t
  | .inText => insertText t
  | .inTable | .inTableBody | .inRow =>
    enterTableText
    if !isNull t then addPending t
  | .inTableText => if !isNull t then addPending t
  | .inColumnGroup => return ← closeColumns
  | .inSelect | .inSelectInTable => if !isNull t then insertText t
  | .afterBody | .afterAfterBody =>
    setMode .inBody
    return true
  | .inFrameset | .afterFrameset | .afterAfterFrameset => pure ⟨⟩
  | m => return ← leaveHeadParts m
  return false

def blanksIn (m : Mode) (t : Text) : Build PUnit := do
  match m with
  | .initial | .beforeHtml | .beforeHead => return ⟨⟩
  | .inBody | .afterAfterBody | .afterAfterFrameset => bodyBlanks t
  | .inTable | .inTableBody | .inRow =>
    enterTableText
    addPending t
  | .inTableText => addPending t
  | _ => insertText t

def commentIn (m : Mode) (t : Text) : Build Bool := do
  match m with
  | .initial | .beforeHtml | .afterAfterBody | .afterAfterFrameset => insertComment 0 t
  | .afterBody => insertComment (← root) t
  | .inTableText =>
    leaveTableText
    return true
  | _ => insertComment (← current) t
  return false

def holdsHtml (e : Element) : Bool :=
  match e.space with
  | .math =>
    e.name == "annotation-xml" && (e.attributes.lookup "encoding".toList).any fun v =>
      ["text/html", "application/xhtml+xml"].any (·.toList == lowerName v)
  | .svg => ["foreignObject", "desc", "title"].contains e.name
  | .html => false

def holdsMathText (e : Element) : Bool :=
  e.space = .math && ["mi", "mo", "mn", "ms", "mtext"].contains e.name

/-- Whether a token inside an element is read by the rules for other vocabularies. -/
def isForeignIn (e : Element) (t : Token) : Bool :=
  if e.space = .html then false
  else match t with
    | .start tag =>
      !(holdsHtml e || (holdsMathText e && tag.name != "mglyph" && tag.name != "malignmark") ||
        (e.space = .math && e.name == "annotation-xml" && tag.name == "svg"))
    | .text _ | .blanks _ => !(holdsHtml e || holdsMathText e)
    | _ => true

def breakoutWords : List String :=
  ["b", "big", "blockquote", "body", "br", "center", "code", "dd", "div", "dl", "dt", "em",
    "embed", "h1", "h2", "h3", "h4", "h5", "h6", "head", "hr", "i", "img", "li", "listing", "menu",
    "meta", "nobr", "ol", "p", "pre", "ruby", "s", "small", "span", "strong", "strike", "sub",
    "sup", "table", "tt", "u", "ul", "var"]

def breaksOut (t : Tag) : Bool :=
  breakoutWords.contains t.name ||
    (t.name == "font" && ["color", "face", "size"].any fun k => (attribute? t k).isSome)

def dropForeign : List Nat → Build (List Nat)
  | [] => return []
  | n :: ns => do
    let e ← element n
    if e.space = .html || holdsHtml e || holdsMathText e then return n :: ns else dropForeign ns

def foreignStart (t : Tag) : Build (Option Tag) := do
  if breaksOut t then
    let stack ← dropForeign (← get).stack
    modify fun b => { b with stack }
    return some t
  else
    let space := (← element (← current)).space
    let name := match space with
      | .svg => (spelling svgElements t.name.toList).toString
      | _ => t.name
    insertForeign space { t with name }
    return none

/-- Ends the innermost element of another vocabulary with that name; an element of HTML on the way
is left to the rules of the mode. -/
def foreignStop (name : String) : List Nat → Build (Option String)
  | [] => return none
  | n :: ns => do
    if lowerName (← nameOf n).toList == name.toList then
      if (← get).mode = .inTableText then leaveTableText
      popNode n
      return none
    match ns with
    | m :: _ =>
      if (← element m).space = .html then rules.stop (← get).mode name else foreignStop name ns
    | [] => return none

def foreignText (t : Text) : Build PUnit := do
  if isNull t then insertText ['�']
  else
    noteText t
    insertText t

/-- One token, which may be read several times under changing rules. -/
def step : Nat → Token → Build PUnit
  | 0, _ => return ⟨⟩
  | bound + 1, token => do
    let mode := (← get).mode
    let isForeign := isForeignIn (← element (← current)) token
    match token with
    | .doctype d =>
      if mode = .initial then modify fun b => { b with isOld := d.isOld, mode := .beforeHtml }
    | .start t =>
      match ← if isForeign then foreignStart t else rules.start mode t with
      | some t => step bound (.start t)
      | none => return ⟨⟩
    | .stop name =>
      match ← if isForeign then foreignStop name (← get).stack else rules.stop mode name with
      | some name => step bound (.stop name)
      | none => return ⟨⟩
    | .comment t =>
      if isForeign then insertComment (← current) t
      else if ← commentIn mode t then step bound token
    | .text t =>
      if isForeign then foreignText t
      else if ← textIn mode t then step bound token
    | .blanks t => if isForeign then insertText t else blanksIn mode t

def finish : Nat → Build PUnit
  | 0 => return ⟨⟩
  | bound + 1 => do
    let goesOn ← match (← get).mode with
      | .inText => do
        pop
        setMode (← get).textReturn
        pure true
      | .inTableText => do
        leaveTableText
        pure true
      | .inColumnGroup => closeColumns
      | m => leaveHeadParts m
    if goesOn then finish bound

def maxSteps : Build Nat := return 4 * (← get).stack.length + 64

def stepAll : List Token → Build PUnit
  | [] => return ⟨⟩
  | t :: ts => do
    step (← maxSteps) t
    stepAll ts

def endsContent : List Token → Bool
  | .start _ :: _ | .stop _ :: _ => true
  | _ => false

def lastName (name : String) : List Token → String
  | .start t :: _ => t.name
  | _ => name

def readAll : Nat → String → Text → Build PUnit
  | 0, _, _ => return ⟨⟩
  | _, _, [] => do finish (← maxSteps)
  | bound + 1, name, c :: cs => do
    let isForeign := (← element (← current)).space != .html
    let (tokens, rest) := readTokens (← get).content name isForeign (c :: cs)
    if endsContent tokens then modify fun b => { b with content := .data }
    stepAll tokens
    readAll bound (lastName name tokens) rest

def build (b : Builder) (source : Text) : Builder :=
  ((readAll (source.length + 1) "" source).run b).2

def document (source : Text) : List Tree :=
  let b := build {} source
  match (b.nodes.getD 0 default).children.find? fun l =>
    match (b.nodes.getD l.node default).kind with
      | .element e => e.name == "html"
      | _ => false with
  | some l =>
    let x := b.nodes.getD l.node default
    match x.kind with
    | .element e => [.element e (contentsOf b b.nodes.size x)]
    | _ => []
  | none => []

def fragment (source : Text) : List Tree :=
  let start : Builder := ((do openHtml; setMode .inBody : Build PUnit).run { isFragment := true }).2
  let b := build start source
  let root := (b.stack.getLast?).getD 1
  let x := b.nodes.getD root default
  contentsOf b b.nodes.size { x with children := x.children.filter (·.wasAppended) }

end Graft.Markup
