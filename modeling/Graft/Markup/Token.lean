import Graft.Markup.Reference

set_option autoImplicit false

/-!
Reading HTML token by token. What counts as markup depends on the element that is open: in a script
or a style sheet only its own end tag does.
-/

namespace Graft.Markup

inductive Space where
  | html
  | svg
  | math
  deriving DecidableEq, Repr, Inhabited

abbrev Attributes := List (Text × Text)

structure Tag where
  name : String
  attributes : Attributes := []
  selfClosing : Bool := false
  space : Space := .html
  deriving DecidableEq, Repr, Inhabited

structure Doctype where
  name : Text := []
  publicId : Option Text := none
  systemId : Option Text := none
  isCorrect : Bool := true
  deriving DecidableEq, Repr

inductive Token where
  | doctype (d : Doctype)
  | start (t : Tag)
  | stop (name : String)
  | comment (t : Text)
  /-- Text that does not start with a blank, where that matters. -/
  | text (t : Text)
  | blanks (t : Text)
  deriving DecidableEq, Repr

inductive Content where
  | data
  /-- Text with references. -/
  | escapable
  /-- Text without references. -/
  | raw
  | script
  /-- Text up to the end of the source. -/
  | plain
  deriving DecidableEq, Repr, Inhabited

def shown (c : Char) : Char := if c.toNat == 0 then '�' else c

def lowerName (t : Text) : Text := t.map Text.lowerAscii

/-- The value of an attribute up to a character with `isEnd`, which is kept; nothing if the source
ends first. -/
def valueFrom (quote : Char) (isEnd : Char → Bool) : Nat → Text → Option (Text × Text)
  | 0, _ => none
  | _, [] => none
  | bound + 1, c :: cs =>
    if isEnd c then some ([], c :: cs)
    else if c == '&' then
      let (value, rest) := reference (some quote) cs
      (valueFrom quote isEnd bound rest).map fun (v, rest') => (value ++ v, rest')
    else (valueFrom quote isEnd bound cs).map fun (v, rest) => (shown c :: v, rest)

def attributeValue (t : Text) : Option (Text × Text) :=
  match t.dropWhile isMarkupSpace with
  | [] => none
  | '"' :: cs => (valueFrom '"' (· == '"') (cs.length + 1) cs).map fun (v, rest) => (v, rest.drop 1)
  | '\'' :: cs => (valueFrom '\'' (· == '\'') (cs.length + 1) cs).map fun (v, rest) =>
    (v, rest.drop 1)
  | cs => valueFrom '>' (fun c => isMarkupSpace c || c == '>') (cs.length + 1) cs

def endsAttributeName (c : Char) : Bool := isMarkupSpace c || c == '=' || c == '>' || c == '/'

def addAttribute (as : Attributes) (name value : Text) : Attributes :=
  if (as.lookup name).isSome then as else as ++ [(name, value)]

/-- The attributes up to the end of a tag, whether the tag closes itself, and what follows it. -/
def attributesFrom : Nat → Attributes → Text → Option (Attributes × Bool × Text)
  | 0, _, _ => none
  | bound + 1, as, t =>
    match t.dropWhile isMarkupSpace with
    | [] => none
    | '>' :: rest => some (as, false, rest)
    | '/' :: '>' :: rest => some (as, true, rest)
    | '/' :: rest => attributesFrom bound as rest
    | c :: cs =>
      let name := lowerName (shown c :: (cs.takeWhile (!endsAttributeName ·)).map shown)
      let rest := cs.dropWhile (!endsAttributeName ·)
      match rest.dropWhile isMarkupSpace with
      | '=' :: ds =>
        match attributeValue ds with
        | some (value, rest) => attributesFrom bound (addAttribute as name value) rest
        | none => none
      | rest => attributesFrom bound (addAttribute as name []) rest

def tagFrom (t : Text) : Option (Tag × Text) :=
  let isEnd (c : Char) : Bool := isMarkupSpace c || c == '>' || c == '/'
  let name := lowerName ((t.takeWhile (!isEnd ·)).map shown)
  let rest := t.dropWhile (!isEnd ·)
  (attributesFrom (rest.length + 1) [] rest).map fun (attributes, selfClosing, rest) =>
    ({ name := name.toString, attributes, selfClosing }, rest)

def startsEndTag (name : String) (t : Text) : Bool :=
  match t with
  | '<' :: '/' :: cs =>
    lowerName (cs.take name.length) == name.toList &&
      (cs.drop name.length).head?.any fun c => isMarkupSpace c || c == '/' || c == '>'
  | _ => false

inductive CommentState where
  | start
  | startDash
  | body
  | endDash
  | finish
  | finishBang

def commentFrom : CommentState → Text → Text × Text
  | _, [] => ([], [])
  | state, c :: cs =>
    let add (pre : String) (next : CommentState) : Text × Text :=
      let (body, rest) := commentFrom next cs
      (pre.toList ++ shown c :: body, rest)
    let isNull := c.toNat == 0
    match state with
    | .start =>
      if c == '-' then commentFrom .startDash cs
      else if c == '>' then ([], cs)
      else add "" (if isNull then .start else .body)
    | .startDash =>
      if c == '-' then commentFrom .finish cs
      else if c == '>' then ([], cs)
      else add "-" (if isNull then .startDash else .body)
    | .body => if c == '-' then commentFrom .endDash cs else add "" .body
    | .endDash => if c == '-' then commentFrom .finish cs else add "-" .body
    | .finish =>
      if c == '>' then ([], cs)
      else if c == '!' then commentFrom .finishBang cs
      else if c == '-' then add "" .finish
      else add "--" .body
    | .finishBang =>
      if c == '>' then ([], cs)
      else if c == '-' then
        let (body, rest) := commentFrom .endDash cs
        ("--!".toList ++ body, rest)
      else add "--!" .body

def bogusComment (t : Text) : Token × Text :=
  (.comment ((t.takeWhile (· != '>')).map shown), (t.dropWhile (· != '>')).drop 1)

def identifierFrom (quote : Char) (t : Text) : Text × Option Text :=
  let value := (t.takeWhile fun c => c != quote && c != '>').map shown
  match t.dropWhile fun c => c != quote && c != '>' with
  | c :: rest => (value, if c == quote then some rest else none)
  | [] => (value, none)

def afterClosing (t : Text) : Text := (t.dropWhile (· != '>')).drop 1

def systemFrom (d : Doctype) (required : Bool) (t : Text) : Doctype :=
  match t.dropWhile isMarkupSpace with
  | [] => { d with isCorrect := false }
  | '>' :: _ => { d with isCorrect := d.isCorrect && !required }
  | c :: cs =>
    if c == '"' || c == '\'' then
      let (value, rest) := identifierFrom c cs
      let isCorrect := match rest with
        | some rest => !(rest.dropWhile isMarkupSpace).isEmpty
        | none => false
      { d with systemId := some value, isCorrect }
    else { d with isCorrect := false }

def publicFrom (d : Doctype) (t : Text) : Doctype :=
  match t.dropWhile isMarkupSpace with
  | c :: cs =>
    if c == '"' || c == '\'' then
      let (value, rest) := identifierFrom c cs
      let d := { d with publicId := some value }
      match rest with
      | some rest => systemFrom d false rest
      | none => { d with isCorrect := false }
    else { d with isCorrect := false }
  | [] => { d with isCorrect := false }

def doctypeOf (t : Text) : Doctype :=
  match t.dropWhile isMarkupSpace with
  | [] => { isCorrect := false }
  | '>' :: _ => { isCorrect := false }
  | cs =>
    let isEnd (c : Char) : Bool := isMarkupSpace c || c == '>'
    let name := lowerName ((cs.takeWhile (!isEnd ·)).map shown)
    match (cs.dropWhile (!isEnd ·)).dropWhile isMarkupSpace with
    | [] => { name, isCorrect := false }
    | '>' :: _ => { name }
    | rest =>
      let keyword := lowerName (rest.take 6)
      if keyword == "public".toList then publicFrom { name } (rest.drop 6)
      else if keyword == "system".toList then systemFrom { name } true (rest.drop 6)
      else { name, isCorrect := false }

def sectionFrom : Text → Text × Text
  | [] => ([], [])
  | ']' :: ']' :: '>' :: cs => ([], cs)
  | c :: cs =>
    let (body, rest) := sectionFrom cs
    (shown c :: body, rest)

def declaration (isForeign : Bool) (t : Text) : List Token × Text :=
  if t.startsWith ['-', '-'] then
    let (body, rest) := commentFrom .start (t.drop 2)
    ([.comment body], rest)
  else if lowerName (t.take 7) == "doctype".toList then
    ([.doctype (doctypeOf (t.drop 7))], afterClosing (t.drop 7))
  else if isForeign && t.startsWith "[CDATA[".toList then
    let (body, rest) := sectionFrom (t.drop 7)
    (if body.isEmpty then [] else [.text body], rest)
  else
    let (token, rest) := bogusComment t
    ([token], rest)

/-- How a script stands to the comments and scripts written inside it; the number counts the dashes
just read, up to two. -/
inductive ScriptState where
  | outside
  | inComment (dashes : Nat)
  | inScript (dashes : Nat)

def isScriptWord (t : Text) : Bool :=
  lowerName (t.take 6) == "script".toList &&
    (t.drop 6).head?.any fun c => isMarkupSpace c || c == '/' || c == '>'

def scriptFrom : Nat → ScriptState → Text → Text × Text
  | 0, _, t => ([], t)
  | _, _, [] => ([], [])
  | bound + 1, state, c :: cs =>
    let pass (n : Nat) (next : ScriptState) : Text × Text :=
      let (body, rest) := scriptFrom bound next ((c :: cs).drop n)
      (((c :: cs).take n).map shown ++ body, rest)
    match state with
    | .outside =>
      if startsEndTag "script" (c :: cs) then ([], c :: cs)
      else if Text.startsWith (c :: cs) "<!--".toList then pass 4 (.inComment 2)
      else pass 1 .outside
    | .inComment n =>
      if startsEndTag "script" (c :: cs) then ([], c :: cs)
      else if c == '<' && isScriptWord cs then pass 8 (.inScript 0)
      else if c == '-' then pass 1 (.inComment (min 2 (n + 1)))
      else if c == '>' && n == 2 then pass 1 .outside
      else pass 1 (.inComment 0)
    | .inScript n =>
      if c == '<' && cs.head? == some '/' && isScriptWord (cs.drop 1) then pass 9 (.inComment 0)
      else if c == '-' then pass 1 (.inScript (min 2 (n + 1)))
      else if c == '>' && n == 2 then pass 1 .outside
      else pass 1 (.inScript 0)

def ofReference (value : Text) : Token :=
  match value with
  | [c] => if isMarkupSpace c then .blanks value else .text value
  | _ => .text value

/-- A tag that the source cuts off is dropped. -/
def endTag (t : Text) : List Token × Text :=
  match tagFrom t with
  | some (tag, rest) => ([.stop tag.name], rest)
  | none => ([], [])

def endTagOpen (t : Text) : List Token × Text :=
  match t with
  | [] => ([.text ['<', '/']], [])
  | '>' :: rest => ([], rest)
  | c :: _ =>
    if Text.isLetter c then endTag t
    else
      let (token, rest) := bogusComment t
      ([token], rest)

def tagOpen (isForeign : Bool) (t : Text) : List Token × Text :=
  match t with
  | '!' :: cs => declaration isForeign cs
  | '/' :: cs => endTagOpen cs
  | '>' :: cs => ([.text ['<', '>']], cs)
  | '?' :: _ =>
    let (token, rest) := bogusComment t
    ([token], rest)
  | c :: _ =>
    if Text.isLetter c then
      match tagFrom t with
      | some (tag, rest) => ([.start tag], rest)
      | none => ([], [])
    else ([.text ['<']], t)
  | [] => ([.text ['<']], [])

/-- Text up to a character with `isEnd`; blanks in front are a token of their own. -/
def textToken (isEnd : Char → Bool) (c : Char) (cs : Text) : List Token × Text :=
  if isMarkupSpace c then ([.blanks (c :: cs.takeWhile isMarkupSpace)], cs.dropWhile isMarkupSpace)
  else ([.text (c :: cs.takeWhile (!isEnd ·))], cs.dropWhile (!isEnd ·))

def rawFrom (name : String) : Text → Text × Text
  | [] => ([], [])
  | c :: cs =>
    if startsEndTag name (c :: cs) then ([], c :: cs)
    else
      let (body, rest) := rawFrom name cs
      (shown c :: body, rest)

def closing (name : String) (split : Text → Text × Text) (t : Text) : List Token × Text :=
  if startsEndTag name t then endTag (t.drop 2)
  else
    let (body, rest) := split t
    ([.text body], rest)

/-- The next tokens of a source that is not at its end, and what follows them. `name` is the element
whose end tag counts. -/
def readTokens (content : Content) (name : String) (isForeign : Bool) (t : Text) :
    List Token × Text :=
  match content, t with
  | _, [] => ([], [])
  | .data, c :: cs =>
    if c == '&' then
      let (value, rest) := reference none cs
      ([ofReference value], rest)
    else if c == '<' then tagOpen isForeign cs
    else if c.toNat == 0 then ([.text [c]], cs)
    else textToken (fun c => c == '&' || c == '<' || c.toNat == 0) c cs
  | .escapable, c :: cs =>
    if startsEndTag name (c :: cs) then endTag (cs.drop 1)
    else if c == '&' then
      let (value, rest) := reference none cs
      ([ofReference value], rest)
    else if c == '<' || c.toNat == 0 then ([.text [shown c]], cs)
    else textToken (fun c => c == '&' || c == '<' || c.toNat == 0) c cs
  | .raw, t => closing name (rawFrom name) t
  | .script, t => closing name (scriptFrom (t.length + 1) .outside) t
  | .plain, t => ([.text (t.map shown)], [])

end Graft.Markup
