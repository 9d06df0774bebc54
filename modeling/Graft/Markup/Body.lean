import Graft.Markup.Builder

set_option autoImplicit false

/-!
The rules for the body of a document, which most others fall back on, and those for elements of SVG
and MathML.
-/

namespace Graft.Markup

open Build

/-- The rules of all modes for start and end tags, one level down. A tag that is given back is to be
read once more. -/
structure Inner where
  start : Mode → Tag → Build (Option Tag)
  stop : Mode → String → Build (Option String)

variable (i : Inner)

def stopNow (name : String) : Build PUnit := do
  let _ ← i.stop (← get).mode name

def headings : List String := ["h1", "h2", "h3", "h4", "h5", "h6"]

def isNull (t : Text) : Bool := t == [Char.ofNat 0]

def noteText (t : Text) : Build PUnit :=
  if t.all isMarkupSpace then return ⟨⟩ else modify fun b => { b with framesetOk := false }

def bodyText (t : Text) : Build PUnit := do
  if !isNull t then
    reconstruct
    insertText t
    noteText t

/-- A newline at the very start of preformatted text is dropped. -/
def bodyBlanks (t : Text) : Build PUnit := do
  let t ← if (← get).dropsNewline then firstBlanks t else pure t
  if !t.isEmpty then
    reconstruct
    insertText t
where
  firstBlanks (t : Text) : Build Text := do
    modify fun b => { b with dropsNewline := false }
    let x ← node (← current)
    let isFirst :=
      ["pre", "listing", "textarea"].contains (← currentName) && x.text.isEmpty &&
        x.children.isEmpty
    return if isFirst && t.head? == some '\n' then t.drop 1 else t

def endParagraph : Build PUnit := do
  if !(← inScope "p" .button) then insertElement { name := "p" }
  closeImplied "p"
  popThrough (· == "p")

def endOpenParagraph : Build PUnit := do
  if ← inScope "p" .button then endParagraph

/-- Ends the innermost element with a name, unless a special one lies between. -/
def endOtherFrom (name : String) : List Nat → Build PUnit
  | [] => return ⟨⟩
  | n :: ns => do
    let e ← element n
    if e.name == name then
      closeImplied name
      popNode n
    else if !isSpecial e then endOtherFrom name ns

def endOther (name : String) : Build PUnit := do endOtherFrom name (← get).stack

def endInScope (name : String) (s : Scope) (except : String) : Build PUnit := do
  if ← inScope name s then
    closeImplied except
    popThrough (· == name)

/-- How far the elements between a formatting element and a block were taken apart. -/
structure Adoption where
  last : Nat
  /-- Where the formatting element goes, counted from the first. -/
  bookmark : Nat
  index : Nat

/-- Copies the formatting elements around `last`, from the inside out, at most so many. -/
def adoptBetween (formatter block : Nat) : Nat → Adoption → Build Adoption
  | 0, a => return a
  | rounds + 1, a => do
    let b ← get
    let index := a.index - 1
    let n := b.stack.reverse.getD index 0
    if !b.formatting.contains (some n) then
      removeOpen n
      adoptBetween formatter block rounds { a with index }
    else if n == formatter then return a
    else
      let bookmark :=
        if a.last == block then b.formatting.reverse.idxOf (some n) + 1 else a.bookmark
      let m ← copy n
      modify fun b => { b with
        formatting := b.formatting.map fun x => if x == some n then some m else x
        stack := b.stack.map fun x => if x == n then m else x }
      detach a.last
      append m a.last
      adoptBetween formatter block rounds ⟨m, bookmark, index⟩

/-- Moves a block out of a formatting element that ends inside it, and formats its content anew. -/
def adoptBlock (formatter block : Nat) : Build PUnit := do
  let b ← get
  let outer := ((b.stack.dropWhile (· != formatter)).drop 1).headD 0
  let start : Adoption :=
    ⟨block, b.formatting.reverse.idxOf (some formatter), b.stack.reverse.idxOf block⟩
  let a ← adoptBetween formatter block 3 start
  detach a.last
  if tableParts.contains (← nameOf outer) then
    match ← fosterPlace with
    | (p, some before) => insertBefore p a.last before
    | (p, none) => append p a.last
  else append outer a.last
  let m ← copy formatter
  moveChildren block m
  append block m
  modify fun b =>
    let rest := (b.formatting.erase (some formatter)).reverse
    let stack := b.stack.erase formatter
    { b with
      formatting := (rest.take a.bookmark ++ some m :: rest.drop a.bookmark).reverse
      stack := stack.takeWhile (· != block) ++ m :: stack.dropWhile (· != block) }

/-- Ends a formatting element, which may reach into blocks that stay open. -/
def endFormatting (name : String) : Nat → Build PUnit
  | 0 => return ⟨⟩
  | rounds + 1 => do
    match ← findFormatting name with
    | none => endOther name
    | some f =>
      let stack := (← get).stack
      if !stack.contains f then eraseFormatting f
      else if !(← inScope name .plain) then endOther name
      else
        let blocks ← (stack.takeWhile (· != f)).filterM fun n => return isSpecial (← element n)
        match blocks.getLast? with
        | none =>
          popNode f
          eraseFormatting f
        | some block =>
          adoptBlock f block
          endFormatting name rounds

def maxAdoptions : Nat := 8

def svgAttributes : List String :=
  ["attributeName", "attributeType", "baseFrequency", "baseProfile", "calcMode", "clipPathUnits",
    "contentScriptType", "contentStyleType", "diffuseConstant", "edgeMode",
    "externalResourcesRequired", "filterRes", "filterUnits", "glyphRef", "gradientTransform",
    "gradientUnits", "kernelMatrix", "kernelUnitLength", "keyPoints", "keySplines", "keyTimes",
    "lengthAdjust", "limitingConeAngle", "markerHeight", "markerUnits", "markerWidth",
    "maskContentUnits", "maskUnits", "numOctaves", "pathLength", "patternContentUnits",
    "patternTransform", "patternUnits", "pointsAtX", "pointsAtY", "pointsAtZ", "preserveAlpha",
    "preserveAspectRatio", "primitiveUnits", "refX", "refY", "repeatCount", "repeatDur",
    "requiredExtensions", "requiredFeatures", "specularConstant", "specularExponent",
    "spreadMethod", "startOffset", "stdDeviation", "stitchTiles", "surfaceScale", "systemLanguage",
    "tableValues", "targetX", "targetY", "textLength", "viewBox", "viewTarget", "xChannelSelector",
    "yChannelSelector", "zoomAndPan"]

def svgElements : List String :=
  ["altGlyph", "altGlyphDef", "altGlyphItem", "animateColor", "animateMotion", "animateTransform",
    "clipPath", "feBlend", "feColorMatrix", "feComponentTransfer", "feComposite",
    "feConvolveMatrix", "feDiffuseLighting", "feDisplacementMap", "feDistantLight", "feFlood",
    "feFuncA", "feFuncB", "feFuncG", "feFuncR", "feGaussianBlur", "feImage", "feMerge",
    "feMergeNode", "feMorphology", "feOffset", "fePointLight", "feSpecularLighting", "feSpotLight",
    "feTile", "feTurbulence", "foreignObject", "glyphRef", "linearGradient",
    "radialGradient", "textPath"]

def borrowedAttributes : List (String × String) :=
  [("xlink:actuate", "\x7bxlink\x7dactuate"), ("xlink:arcrole", "\x7bxlink\x7darcrole"),
    ("xlink:href", "\x7bxlink\x7dhref"), ("xlink:role", "\x7bxlink\x7drole"),
    ("xlink:show", "\x7bxlink\x7dshow"), ("xlink:title", "\x7bxlink\x7dtitle"),
    ("xlink:type", "\x7bxlink\x7dtype"), ("xml:base", "\x7bxml\x7dbase"),
    ("xml:lang", "\x7bxml\x7dlang"), ("xml:space", "\x7bxml\x7dspace"),
    ("xmlns", "\x7bxmlns\x7dxmlns"), ("xmlns:xlink", "\x7bxmlns\x7dxlink")]

def spelling (names : List String) (name : Text) : Text :=
  ((names.map String.toList).find? fun n => lowerName n == name).getD name

def foreignTag (space : Space) (t : Tag) : Tag :=
  let rename (name : Text) : Text :=
    let name := match space with
      | .svg => spelling svgAttributes name
      | .math => spelling ["definitionURL"] name
      | .html => name
    match borrowedAttributes.find? fun (k, _) => k.toList == name with
    | some (_, v) => v.toList
    | none => name
  { t with space, attributes := t.attributes.map fun (k, v) => (rename k, v) }

def insertForeign (space : Space) (t : Tag) : Build PUnit := do
  insertElement (foreignTag space t)
  if t.selfClosing then pop

def attribute? (t : Tag) (name : String) : Option Text := t.attributes.lookup name.toList

def isHidden (t : Tag) : Bool := (attribute? t "type").any fun v => lowerName v == "hidden".toList

def ruleOutFrames : Build PUnit := modify fun b => { b with framesetOk := false }

def endItemFrom (names : List String) : List Nat → Build PUnit
  | [] => return ⟨⟩
  | n :: ns => do
    let e ← element n
    if names.contains e.name then stopNow i e.name
    else if !isSpecial e || ["address", "div", "p"].contains e.name then endItemFrom names ns

def startItem (t : Tag) : Build PUnit := do
  ruleOutFrames
  endItemFrom i (if t.name == "li" then ["li"] else ["dt", "dd"]) (← get).stack
  if ← inScope "p" .button then stopNow i "p"
  insertElement t

def startLink (t : Tag) : Build PUnit := do
  match ← findFormatting "a" with
  | some n =>
    endFormatting "a" maxAdoptions
    removeOpen n
    eraseFormatting n
  | none => pure ⟨⟩
  reconstruct
  addFormatting t

def startSelect (t : Tag) : Build PUnit := do
  reconstruct
  insertElement t
  ruleOutFrames
  let tableModes : List Mode :=
    [.inTable, .inCaption, .inColumnGroup, .inTableBody, .inRow, .inCell]
  let isInTable := tableModes.contains (← get).mode
  setMode (if isInTable then .inSelectInTable else .inSelect)

def startInput (t : Tag) : Build PUnit := do
  reconstruct
  insertClosed t
  if !isHidden t then ruleOutFrames

def startSearch (t : Tag) : Build PUnit := do
  if (← get).form.isNone then
    let go (t : Tag) : Build PUnit := do
      let _ ← i.start .inBody t
    let action := t.attributes.filter fun (k, _) => k == "action".toList
    let others := t.attributes.filter fun (k, _) => k != "action".toList && k != "prompt".toList
    let name := "isindex".toList
    let named := others.map fun (k, v) => if k == "name".toList then (k, name) else (k, v)
    go { name := "form", attributes := action }
    go { name := "hr" }
    go { name := "label" }
    let question := "This is a searchable index. Enter search keywords: ".toList
    bodyText ((attribute? t "prompt").getD question)
    go { name := "input", attributes := addAttribute named "name".toList name }
    let _ ← i.stop .inBody "label"
    go { name := "hr" }
    let _ ← i.stop .inBody "form"

def openBody? : Build (Option Nat) := do
  match (← get).stack.reverse with
  | _ :: n :: _ => if (← nameOf n) == "body" then return some n else return none
  | _ => return none

def startFrameset (t : Tag) : Build PUnit := do
  match ← openBody? with
  | some body =>
    if (← get).framesetOk then
      detach body
      popTo (· == "html")
      insertElement t
      setMode .inFrameset
  | none => return ⟨⟩

def paragraphEnders : List String :=
  ["address", "article", "aside", "blockquote", "center", "details", "dialog", "dir", "div",
    "dl", "fieldset", "figcaption", "figure", "footer", "header", "hgroup", "main", "menu", "nav",
    "ol", "p", "section", "summary", "ul"]

def headWords : List String :=
  ["base", "basefont", "bgsound", "command", "link", "meta", "script", "style", "title"]

def formattingWords : List String :=
  ["b", "big", "code", "em", "font", "i", "s", "small", "strike", "strong", "tt", "u"]

def misplacedWords : List String :=
  ["caption", "col", "colgroup", "frame", "head", "tbody", "td", "tfoot", "th", "thead", "tr"]

def startHtml (t : Tag) : Build PUnit := do addAttributes (← root) t.attributes

def startOther (t : Tag) : Build PUnit := do
  reconstruct
  insertElement t

def bodyStart (t : Tag) : Build PUnit := do
  if headWords.contains t.name then
    let _ ← i.start .inHead t
  else if paragraphEnders.contains t.name then
    endOpenParagraph
    insertElement t
  else if headings.contains t.name then
    endOpenParagraph
    if headings.contains (← currentName) then pop
    insertElement t
  else if formattingWords.contains t.name then
    reconstruct
    addFormatting t
  else if misplacedWords.contains t.name then return ⟨⟩
  else match t.name with
    | "html" => startHtml t
    | "body" =>
      match ← openBody? with
      | some body =>
        ruleOutFrames
        addAttributes body t.attributes
      | none => return ⟨⟩
    | "frameset" => startFrameset t
    | "pre" | "listing" =>
      endOpenParagraph
      insertElement t
      modify fun b => { b with framesetOk := false, dropsNewline := true }
    | "form" =>
      if (← get).form.isNone then
        endOpenParagraph
        insertElement t
        let n ← current
        modify fun b => { b with form := some n }
    | "li" | "dd" | "dt" => startItem i t
    | "plaintext" =>
      endOpenParagraph
      insertElement t
      modify fun b => { b with content := .plain }
    | "a" => startLink t
    | "nobr" =>
      reconstruct
      if ← inScope "nobr" .plain then
        endFormatting "nobr" maxAdoptions
        reconstruct
      addFormatting t
    | "applet" | "marquee" | "object" =>
      reconstruct
      insertElement t
      mark
      ruleOutFrames
    | "xmp" =>
      endOpenParagraph
      reconstruct
      ruleOutFrames
      insertRaw t .raw
    | "table" =>
      if !(← get).isOld then endOpenParagraph
      insertElement t
      ruleOutFrames
      setMode .inTable
    | "area" | "br" | "embed" | "img" | "keygen" | "wbr" =>
      reconstruct
      insertClosed t
      ruleOutFrames
    | "param" | "source" | "track" => insertClosed t
    | "input" => startInput t
    | "hr" =>
      endOpenParagraph
      insertClosed t
      ruleOutFrames
    | "image" =>
      reconstruct
      insertClosed { t with name := "img" }
      ruleOutFrames
    | "isindex" => startSearch i t
    | "textarea" =>
      insertElement t
      modify fun b => { b with content := .escapable, dropsNewline := true, framesetOk := false }
    | "iframe" =>
      ruleOutFrames
      insertRaw t .raw
    | "noembed" | "noframes" => insertRaw t .raw
    | "select" => startSelect t
    | "rp" | "rt" =>
      if ← inScope "ruby" .plain then closeImplied ""
      insertElement t
    | "option" | "optgroup" =>
      if (← currentName) == "option" then stopNow i "option"
      startOther t
    | "math" =>
      reconstruct
      insertForeign .math t
    | "svg" =>
      reconstruct
      insertForeign .svg t
    | _ => startOther t

def startInBody (t : Tag) : Build (Option Tag) := do
  if t.name == "button" then
    if ← inScope "button" .plain then
      endInScope "button" .plain ""
      return some t
    reconstruct
    insertElement t
    ruleOutFrames
    return none
  else
    bodyStart i t
    return none

def blockEnds : List String :=
  ["address", "article", "aside", "blockquote", "button", "center", "details", "dialog", "dir",
    "div", "dl", "fieldset", "figcaption", "figure", "footer", "header", "hgroup", "listing",
    "main", "menu", "nav", "ol", "pre", "section", "summary", "ul"]

def endForm : Build PUnit := do
  let form := (← get).form
  modify fun b => { b with form := none }
  match form with
  | some n =>
    if ← nodeInScope n then
      closeImplied ""
      removeOpen n
  | none => return ⟨⟩

def endHeading : Build PUnit := do
  if ← headings.anyM fun h => inScope h .plain then
    closeImplied ""
    popThrough headings.contains

def endBody : Build PUnit := do
  if ← inScope "body" .plain then setMode .afterBody

def stopInBody (name : String) : Build (Option String) := do
  if name == "html" then
    if ← inScope "body" .plain then
      endBody
      return some name
    return none
  if blockEnds.contains name then
    if name == "pre" then modify fun b => { b with dropsNewline := false }
    endInScope name .plain ""
  else if headings.contains name then endHeading
  else if formattingWords.contains name || name == "a" || name == "nobr" then
    endFormatting name maxAdoptions
  else match name with
    | "body" => endBody
    | "form" => endForm
    | "p" => endParagraph
    | "li" => endInScope name .list name
    | "dd" | "dt" => endInScope name .plain name
    | "applet" | "marquee" | "object" =>
      if ← inScope name .plain then
        closeImplied ""
        popThrough (· == name)
        clearToMark
    | "br" =>
      reconstruct
      insertClosed { name := "br" }
    | _ => endOther name
  return none

end Graft.Markup
