import Graft.Markup.Token

set_option autoImplicit false

/-!
Trees of elements, comments and text, and how they are written: attributes always in quotes, no
optional tag left out, and nothing escaped in scripts and the like.
-/

namespace Graft.Markup

structure Element where
  name : String
  space : Space := .html
  attributes : Attributes := []
  deriving DecidableEq, Repr, Inhabited

inductive Tree where
  | text (t : Text)
  | comment (t : Text)
  | element (e : Element) (children : List Tree)
  deriving Repr

def emptyElements : List String :=
  ["base", "command", "event-source", "link", "meta", "hr", "br", "img", "embed", "param",
    "area", "col", "input", "source", "track"]

def rawElements : List String :=
  ["style", "script", "xmp", "iframe", "noembed", "noframes", "noscript"]

/-- Attributes that are written without a value, by the element that has them. -/
def flagAttributes : String → List String
  | "style" => ["scoped"]
  | "img" => ["ismap"]
  | "audio" | "video" => ["autoplay", "controls"]
  | "script" => ["defer", "async"]
  | "details" => ["open"]
  | "datagrid" => ["multiple", "disabled"]
  | "command" => ["hidden", "disabled", "checked", "default"]
  | "hr" => ["noshade"]
  | "menu" => ["autosubmit"]
  | "fieldset" | "optgroup" | "output" => ["disabled", "readonly"]
  | "option" => ["disabled", "readonly", "selected"]
  | "button" => ["disabled", "autofocus"]
  | "input" => ["disabled", "readonly", "required", "autofocus", "checked", "ismap"]
  | "select" => ["disabled", "readonly", "autofocus", "multiple"]
  | "iframe" => ["seamless"]
  | _ => []

def isFlag (element : String) (name : Text) : Bool :=
  (["irrelevant", "itemscope"] ++ flagAttributes element).any (·.toList == name)

def escapeText : Text → Text := Text.expand fun
  | '&' => "&amp;".toList
  | '<' => "&lt;".toList
  | '>' => "&gt;".toList
  | c => [c]

def localName (name : Text) : Text :=
  match name with
  | '\x7b' :: cs =>
    match cs.dropWhile (· != '\x7d') with
    | _ :: rest => rest
    | [] => name
  | _ => name

def quoteValue (value : Text) : Text :=
  let single := value.contains '"' && !value.contains '\''
  let quote := if single then '\'' else '"'
  let body := Text.expand (fun
    | '&' => "&amp;".toList
    | '"' => if single then ['"'] else "&quot;".toList
    | c => [c]) value
  quote :: body ++ [quote]

def writeAttribute (element : String) (a : Text × Text) : Text :=
  let name := localName a.1
  ' ' :: name ++ if isFlag element name then [] else '=' :: quoteValue a.2

def writeStart (e : Element) : Text :=
  '<' :: e.name.toList ++ e.attributes.flatMap (writeAttribute e.name) ++ ['>']

def writeEnd (e : Element) : Text := '<' :: '/' :: e.name.toList ++ ['>']

def isEmptyElement (e : Element) : Bool := e.space = .html && emptyElements.contains e.name

def isRawElement (e : Element) : Bool := rawElements.contains e.name

mutual

/-- The text of a tree, and whether what follows stands as it is: so it does from the start of a raw
element to the next end of one. -/
def Tree.write (raw : Bool) : Tree → Text × Bool
  | .text t => (if raw then t else escapeText t, raw)
  | .comment t => ("<!--".toList ++ t ++ "-->".toList, raw)
  | .element e children =>
    let raw := raw || isRawElement e
    if isEmptyElement e then (writeStart e, raw)
    else
      let (body, raw) := Tree.writeAll raw children
      (writeStart e ++ body ++ writeEnd e, raw && !isRawElement e)

def Tree.writeAll (raw : Bool) : List Tree → Text × Bool
  | [] => ([], raw)
  | t :: ts =>
    let (first, raw) := Tree.write raw t
    let (rest, raw) := Tree.writeAll raw ts
    (first ++ rest, raw)

end

end Graft.Markup
