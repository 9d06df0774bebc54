import Graft.Markup.Body

set_option autoImplicit false

/-!
The rules of every mode: which elements a tag may open and close there, and which tags are implied.
-/

namespace Graft.Markup

open Build

variable (i : Inner)

def modeOf : String → Option Mode
  | "select" => some .inSelect
  | "td" | "th" => some .inCell
  | "tr" => some .inRow
  | "tbody" | "thead" | "tfoot" => some .inTableBody
  | "caption" => some .inCaption
  | "colgroup" => some .inColumnGroup
  | "table" => some .inTable
  | "head" | "body" => some .inBody
  | "frameset" => some .inFrameset
  | "html" => some .beforeHead
  | _ => none

def modeFrom : List Nat → Build Mode
  | [] => return .inBody
  | [_] => return .inBody
  | n :: ns => do
    let e ← element n
    match e.space, modeOf e.name with
    | .html, some m => return m
    | _, _ => modeFrom ns

def resetMode : Build PUnit := do setMode (← modeFrom (← get).stack)

def openHtml : Build PUnit := do
  let n ← newElement { name := "html" }
  append 0 n
  push n
  setMode .beforeHead

def openHead (t : Tag) : Build PUnit := do
  insertElement t
  let n ← current
  modify fun b => { b with head := some n, mode := .inHead }

def closeHead : Build PUnit := do
  pop
  setMode .afterHead

def closeNoscript : Build PUnit := do
  pop
  setMode .inHead

def openBody : Build PUnit := do
  insertElement { name := "body" }
  modify fun b => { b with mode := .inBody, framesetOk := true }

/-- Applies the rules for the body, with new content put in front of the table. -/
def fostering (action : Build PUnit) : Build PUnit := do
  modify fun b => { b with fosters := true }
  action
  modify fun b => { b with fosters := false }

/-- Places the text read in a table: blanks stay, anything else goes in front of it. -/
def flushPending : Build PUnit := do
  let t := (← get).pending
  if !t.all isMarkupSpace then fostering (bodyText t)
  else if !t.isEmpty then insertText t
  modify fun b => { b with pending := [] }

def leaveTableText : Build PUnit := do
  flushPending
  setMode (← get).tableReturn

def openRowGroup (t : Tag) : Build PUnit := do
  popTo fun name => name == "table" || name == "html"
  insertElement t
  setMode .inTableBody

def openColumns (t : Tag) : Build PUnit := do
  popTo fun name => name == "table" || name == "html"
  insertElement t
  setMode .inColumnGroup

def rowGroups : List String := ["tbody", "tfoot", "thead"]

def clearToRowGroup : Build PUnit := popTo fun name => rowGroups.contains name || name == "html"

def openRow (t : Tag) : Build PUnit := do
  clearToRowGroup
  insertElement t
  setMode .inRow

def closeRowGroup : Build Bool := do
  if ← rowGroups.anyM fun g => inScope g .table then
    clearToRowGroup
    pop
    setMode .inTable
    return true
  else return false

def closeRow : Build Bool := do
  if ← inScope "tr" .table then
    popTo fun name => name == "tr" || name == "html"
    pop
    setMode .inTableBody
    return true
  else return false

def closeCellNamed (name : String) : Build PUnit := do
  if ← inScope name .table then
    closeImplied name
    popThrough (· == name)
    clearToMark
    setMode .inRow

def closeCell : Build PUnit := do
  if ← inScope "td" .table then closeCellNamed "td"
  else if ← inScope "th" .table then closeCellNamed "th"

def closeCaption : Build Bool := do
  if ← inScope "caption" .table then
    closeImplied ""
    popThrough (· == "caption")
    clearToMark
    setMode .inTable
    return true
  else return false

def closeColumns : Build Bool := do
  if (← currentName) == "html" then return false
  else
    pop
    setMode .inTable
    return true

def closeTable : Build PUnit := do
  if ← inScope "table" .table then
    popThrough (· == "table")
    resetMode

def closeSelect : Build PUnit := do
  if ← inScope "select" .select then
    popThrough (· == "select")
    resetMode

def again {α : Type} (b : Bool) (a : α) : Option α := if b then some a else none

def tableWords : List String :=
  ["caption", "col", "colgroup", "tbody", "td", "tfoot", "th", "thead", "tr"]

def done (action : Build PUnit) : Build (Option Tag) := do
  action
  return none

def startInHead (t : Tag) : Build (Option Tag) := do
  match t.name with
  | "html" => i.start .inBody t
  | "title" => done (insertRaw t .escapable)
  | "noframes" | "style" => done (insertRaw t .raw)
  | "noscript" => done do
    insertElement t
    setMode .inHeadNoscript
  | "script" => done (insertRaw t .script)
  | "base" | "basefont" | "bgsound" | "command" | "link" | "meta" => done (insertClosed t)
  | "head" => return none
  | _ =>
    closeHead
    return some t

def startInHeadNoscript (t : Tag) : Build (Option Tag) := do
  match t.name with
  | "html" => i.start .inBody t
  | "basefont" | "bgsound" | "link" | "meta" | "noframes" | "style" => i.start .inHead t
  | "head" | "noscript" => return none
  | _ =>
    closeNoscript
    return some t

/-- What belongs into the head still goes there. -/
def startFromHead (t : Tag) : Build PUnit := do
  match (← get).head with
  | some n =>
    push n
    let _ ← i.start .inHead t
    removeOpen n
  | none => return ⟨⟩

def startAfterHead (t : Tag) : Build (Option Tag) := do
  match t.name with
  | "html" => i.start .inBody t
  | "body" => done do
    insertElement t
    modify fun b => { b with framesetOk := false, mode := .inBody }
  | "frameset" => done do
    insertElement t
    setMode .inFrameset
  | "base" | "basefont" | "bgsound" | "link" | "meta" | "noframes" | "script" | "style" | "title" =>
    done (startFromHead i t)
  | "head" => return none
  | _ =>
    openBody
    return some t

def startFostered (t : Tag) : Build PUnit := fostering do
  let _ ← i.start .inBody t

def startInTable (t : Tag) : Build (Option Tag) := do
  match t.name with
  | "html" => done (startHtml t)
  | "caption" => done do
    popTo fun name => name == "table" || name == "html"
    mark
    insertElement t
    setMode .inCaption
  | "colgroup" => done (openColumns t)
  | "col" =>
    openColumns { name := "colgroup" }
    return some t
  | "tbody" | "tfoot" | "thead" => done (openRowGroup t)
  | "td" | "th" | "tr" =>
    openRowGroup { name := "tbody" }
    return some t
  | "table" =>
    stopNow i "table"
    return again (!(← get).isFragment) t
  | "style" | "script" => i.start .inHead t
  | "input" => done do if isHidden t then insertClosed t else startFostered i t
  | "form" => done do
    if (← get).form.isNone then
      insertElement t
      let n ← current
      modify fun b => { b with form := some n }
      pop
  | _ => done (startFostered i t)

def startInCaption (t : Tag) : Build (Option Tag) := do
  if t.name == "html" then done (startHtml t)
  else if tableWords.contains t.name then return again (← closeCaption) t
  else i.start .inBody t

def startInColumnGroup (t : Tag) : Build (Option Tag) := do
  match t.name with
  | "html" => done (startHtml t)
  | "col" => done (insertClosed t)
  | _ => return again (← closeColumns) t

def startInTableBody (t : Tag) : Build (Option Tag) := do
  match t.name with
  | "html" => done (startHtml t)
  | "tr" => done (openRow t)
  | "td" | "th" =>
    openRow { name := "tr" }
    return some t
  | "caption" | "col" | "colgroup" | "tbody" | "tfoot" | "thead" => return again (← closeRowGroup) t
  | _ => i.start .inTable t

def startInRow (t : Tag) : Build (Option Tag) := do
  match t.name with
  | "html" => done (startHtml t)
  | "td" | "th" => done do
    popTo fun name => name == "tr" || name == "html"
    insertElement t
    setMode .inCell
    mark
  | "caption" | "col" | "colgroup" | "tbody" | "tfoot" | "thead" | "tr" =>
    return again (← closeRow) t
  | _ => i.start .inTable t

def startInCell (t : Tag) : Build (Option Tag) := do
  if t.name == "html" then done (startHtml t)
  else if tableWords.contains t.name then
    let isOpen := (← inScope "td" .table) || (← inScope "th" .table)
    if isOpen then closeCell
    return again isOpen t
  else i.start .inBody t

def startInSelect (t : Tag) : Build (Option Tag) := do
  match t.name with
  | "html" => done (startHtml t)
  | "option" => done do
    if (← currentName) == "option" then pop
    insertElement t
  | "optgroup" => done do
    if (← currentName) == "option" then pop
    if (← currentName) == "optgroup" then pop
    insertElement t
  | "select" => done closeSelect
  | "input" | "keygen" | "textarea" =>
    let isOpen ← inScope "select" .select
    closeSelect
    return again isOpen t
  | "script" => i.start .inHead t
  | _ => return none

def selectEnders : List String := ["caption", "table", "tbody", "tfoot", "thead", "tr", "td", "th"]

def startInSelectInTable (t : Tag) : Build (Option Tag) := do
  if selectEnders.contains t.name then
    closeSelect
    return some t
  else i.start .inSelect t

def startInFrameset (t : Tag) : Build (Option Tag) := do
  match t.name with
  | "html" => done (startHtml t)
  | "frameset" => done (insertElement t)
  | "frame" => done (insertClosed t)
  | "noframes" => i.start .inBody t
  | _ => return none

def startIn (m : Mode) (t : Tag) : Build (Option Tag) := do
  match m with
  | .initial =>
    modify fun b => { b with isOld := true, mode := .beforeHtml }
    return some t
  | .beforeHtml =>
    openHtml
    return some t
  | .beforeHead =>
    match t.name with
    | "html" => i.start .inBody t
    | "head" => done (openHead t)
    | _ =>
      openHead { name := "head" }
      return some t
  | .inHead => startInHead i t
  | .inHeadNoscript => startInHeadNoscript i t
  | .afterHead => startAfterHead i t
  | .inBody => startInBody i t
  | .inText => return none
  | .inTable => startInTable i t
  | .inTableText =>
    leaveTableText
    return some t
  | .inCaption => startInCaption i t
  | .inColumnGroup => startInColumnGroup t
  | .inTableBody => startInTableBody i t
  | .inRow => startInRow i t
  | .inCell => startInCell i t
  | .inSelect => startInSelect i t
  | .inSelectInTable => startInSelectInTable i t
  | .inFrameset => startInFrameset i t
  | .afterFrameset =>
    match t.name with
    | "html" => done (startHtml t)
    | "noframes" => i.start .inHead t
    | _ => return none
  | .afterAfterFrameset =>
    match t.name with
    | "html" => i.start .inBody t
    | "noframes" => i.start .inHead t
    | _ => return none
  | .afterBody | .afterAfterBody =>
    if t.name == "html" then i.start .inBody t
    else
      setMode .inBody
      return some t

def ignoredEnds (others : List String) (name : String) : Bool :=
  (["body", "caption", "col", "colgroup", "html"] ++ others).contains name

def stopInTable (name : String) : Build (Option String) := do
  if name == "table" then
    if ← inScope "table" .table then
      closeImplied ""
      closeTable
  else if !ignoredEnds ["tbody", "td", "tfoot", "th", "thead", "tr"] name then
    fostering do
      let _ ← i.stop .inBody name
  return none

def stopInCaption (name : String) : Build (Option String) := do
  match name with
  | "caption" =>
    let _ ← closeCaption
    return none
  | "table" => return again (← closeCaption) name
  | "body" | "col" | "colgroup" | "html" | "tbody" | "td" | "tfoot" | "th" | "thead" | "tr" =>
    return none
  | _ => i.stop .inBody name

def stopInTableBody (name : String) : Build (Option String) := do
  if rowGroups.contains name then
    if ← inScope name .table then
      clearToRowGroup
      pop
      setMode .inTable
    return none
  else if name == "table" then return again (← closeRowGroup) name
  else if ignoredEnds ["td", "th", "tr"] name then return none
  else i.stop .inTable name

def stopInRow (name : String) : Build (Option String) := do
  if name == "tr" then
    let _ ← closeRow
    return none
  else if name == "table" then return again (← closeRow) name
  else if rowGroups.contains name then
    if ← inScope name .table then
      let _ ← closeRow
      return some name
    return none
  else if ignoredEnds ["td", "th"] name then return none
  else i.stop .inTable name

def stopInCell (name : String) : Build (Option String) := do
  match name with
  | "td" | "th" =>
    closeCellNamed name
    return none
  | "body" | "caption" | "col" | "colgroup" | "html" => return none
  | "table" | "tbody" | "tfoot" | "thead" | "tr" =>
    let isOpen ← inScope name .table
    if isOpen then closeCell
    return again isOpen name
  | _ => i.stop .inBody name

def stopInSelect (name : String) : Build (Option String) := do
  match name with
  | "option" => if (← currentName) == "option" then pop
  | "optgroup" =>
    let outer ← nameOf (((← get).stack.drop 1).headD 0)
    if (← currentName) == "option" && outer == "optgroup" then pop
    if (← currentName) == "optgroup" then pop
  | "select" => closeSelect
  | _ => pure ⟨⟩
  return none

def stopInFrameset (name : String) : Build (Option String) := do
  if name == "frameset" then
    if (← currentName) != "html" then pop
    if !(← get).isFragment && (← currentName) != "frameset" then setMode .afterFrameset
  return none

def impliesBody (name : String) : Bool := ["body", "html", "br"].contains name

def stopIn (m : Mode) (name : String) : Build (Option String) := do
  match m with
  | .initial =>
    modify fun b => { b with isOld := true, mode := .beforeHtml }
    return some name
  | .beforeHtml =>
    if name == "head" || impliesBody name then
      openHtml
      return some name
    return none
  | .beforeHead =>
    if name == "head" || impliesBody name then
      openHead { name := "head" }
      return some name
    return none
  | .inHead =>
    if name == "head" || impliesBody name then closeHead
    return again (impliesBody name) name
  | .inHeadNoscript =>
    if name == "noscript" || name == "br" then closeNoscript
    return again (name == "br") name
  | .afterHead =>
    if impliesBody name then openBody
    return again (impliesBody name) name
  | .inBody => stopInBody name
  | .inText =>
    pop
    setMode (← get).textReturn
    return none
  | .inTable => stopInTable i name
  | .inTableText =>
    leaveTableText
    return some name
  | .inCaption => stopInCaption i name
  | .inColumnGroup =>
    match name with
    | "colgroup" =>
      let _ ← closeColumns
      return none
    | "col" => return none
    | _ => return again (← closeColumns) name
  | .inTableBody => stopInTableBody i name
  | .inRow => stopInRow i name
  | .inCell => stopInCell i name
  | .inSelect => stopInSelect name
  | .inSelectInTable =>
    if selectEnders.contains name then
      let isOpen ← inScope name .table
      if isOpen then closeSelect
      return again isOpen name
    else stopInSelect name
  | .inFrameset => stopInFrameset name
  | .afterBody =>
    if name == "html" then
      if !(← get).isFragment then setMode .afterAfterBody
      return none
    setMode .inBody
    return some name
  | .afterFrameset =>
    if name == "html" then setMode .afterAfterFrameset
    return none
  | .afterAfterBody =>
    setMode .inBody
    return some name
  | .afterAfterFrameset => return none

/-- The rules, with each falling back on others at most so often. -/
def inner : Nat → Inner
  | 0 => ⟨fun _ _ => return none, fun _ _ => return none⟩
  | depth + 1 => ⟨startIn (inner depth), stopIn (inner depth)⟩

def rules : Inner := inner 16

end Graft.Markup
