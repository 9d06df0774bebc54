import Graft.Indentation
import Graft.Text.Pattern

set_option autoImplicit false

/-!
The headers of Rust items: what stands before the name of a function, what an `impl` block is for,
and how a parameter list falls into parameters.
-/

namespace Graft.Item

structure Header where
  visibility : Option Text
  qualifiers : List Text
  abi : Text
  name : Text
  length : Nat
  deriving DecidableEq, Repr

namespace Header

def gap? (t : Text) : Option Text :=
  match t with
  | c :: rest => if Text.isBlank c then some (rest.dropWhile Text.isBlank) else none
  | [] => none

def word? (w : String) (t : Text) : Option Text :=
  if t.startsWith w.toList then some (t.drop w.length) else none

def scope? (t : Text) : Option Text :=
  match t.trimStart with
  | '(' :: rest =>
    match rest.dropWhile fun c => c != '(' && c != ')' with
    | ')' :: after => some after
    | _ => none
  | _ => none

def visibility? (t : Text) : Option Text := do
  let rest ← word? "pub" t
  gap? ((scope? rest).getD rest)

def qualifierWords : List String := ["default", "const", "async", "unsafe"]

def qualifier? (t : Text) : Option Text :=
  qualifierWords.findSome? fun w => (word? w t).bind gap?

def afterQualifiers : Nat → Text → Text
  | 0, t => t
  | fuel + 1, t =>
    match qualifier? t with
    | some rest => afterQualifiers fuel rest
    | none => t

def abiName? (t : Text) : Option Text :=
  match gap? t with
  | some ('"' :: rest) =>
    match rest.dropWhile (· != '"') with
    | _ :: after => some after
    | [] => none
  | _ => none

def abi? (t : Text) : Option Text := do
  let rest ← word? "extern" t
  gap? ((abiName? rest).getD rest)

def isNameStart (c : Char) : Bool := Text.isLetter c || c == '_'

def isNameChar (c : Char) : Bool := Text.isLetter c || Text.isDigit c || c == '_'

def read? (t : Text) : Option Header := do
  let afterVisibility := (visibility? t).getD t
  let afterQualifiers := afterQualifiers afterVisibility.length afterVisibility
  let afterAbi := (abi? afterQualifiers).getD afterQualifiers
  let named ← (word? "fn" afterAbi).bind gap?
  let c ← named.head?
  if isNameStart c then
    let name := named.takeWhile isNameChar
    let seen (before after : Text) : Text := before.take (before.length - after.length)
    let visibility := seen t afterVisibility
    return {
      visibility := if visibility.isEmpty then none else some (Text.squeeze visibility)
      qualifiers := Text.words (seen afterVisibility afterQualifiers)
      abi := Text.squeeze (seen afterQualifiers afterAbi)
      name
      length := t.length - named.length + name.length }
  else none

def canFollow (prev : Option Char) : Bool :=
  !(prev.map fun c => Text.isWord c || c == ':').getD false

def findFrom? : Option Char → Nat → Text → Option (Nat × Header)
  | _, _, [] => none
  | prev, n, c :: cs =>
    match if canFollow prev then read? (c :: cs) else none with
    | some h => some (n, h)
    | none => findFrom? (some c) (n + 1) cs

def find? (source : Text) (position : Nat) : Option (Nat × Header) :=
  let prev := if position = 0 then none else source[position - 1]?
  findFrom? prev position (source.drop position)

end Header

/-- The offsets of a keyword where it is a word of its own and no part of a path. -/
def keywordsFrom (word : Text) : Option Char → Nat → Text → List Nat
  | _, _, [] => []
  | prev, n, c :: cs =>
    let rest := keywordsFrom word (some c) (n + 1) cs
    if Header.canFollow prev && word.isPrefixOf (c :: cs) &&
        !(((c :: cs).drop word.length).head?.map Text.isWord).getD false
    then n :: rest else rest

def keywords (word : String) (t : Text) : List Nat := keywordsFrom word.toList none 0 t

/-- A scan for commas outside brackets: finished parts, latest first, and the characters since. -/
structure Splitting where
  parts : List Text := []
  depth : Int := 0
  current : Text := []

/-- The angle of an arrow closes nothing. -/
def Splitting.depthAfter (s : Splitting) (c : Char) : Int :=
  if c == '<' || c == '(' || c == '[' || c == '\x7b' then s.depth + 1
  else if c == ')' || c == ']' || c == '\x7d' || (c == '>' && s.current.head? != some '-') then
    s.depth - 1
  else s.depth

def Splitting.step (s : Splitting) (c : Char) : Splitting :=
  let depth := s.depthAfter c
  if c == ',' && depth == 0 then ⟨s.current.reverse :: s.parts, depth, []⟩
  else { s with depth, current := c :: s.current }

/-- Cuts at the commas outside brackets; a blank last part is dropped. -/
def splitTopLevel (t : Text) : List Text :=
  let s := t.foldl Splitting.step {}
  let last := s.current.reverse
  if Text.isBlankText last then s.parts.reverse else (last :: s.parts).reverse

def afterGenerics : Int → Char → Text → Option Text
  | _, _, [] => none
  | depth, prev, c :: cs =>
    if c == '<' then afterGenerics (depth + 1) c cs
    else if c == '>' && prev != '-' then
      if depth == 1 then some cs else afterGenerics (depth - 1) c cs
    else afterGenerics depth c cs

def beforeWhere (prev : Option Char) : Text → Text
  | [] => []
  | c :: cs =>
    let whole := "where".toList.isPrefixOf (c :: cs) && !(prev.map Text.isWord).getD false &&
      !(((c :: cs).drop 5).head?.map Text.isWord).getD false
    if whole then [] else c :: beforeWhere (some c) cs

/-- What an `impl` block is for, such as `Display for Point`, given what follows the keyword. -/
def implTarget? (header : Text) : Option Text :=
  let t := header.trim
  let t := match t with
    | '<' :: cs => (afterGenerics 1 '<' cs).getD t
    | _ => t
  let target := Text.squeeze (beforeWhere none t)
  if target.isEmpty then none else some target

end Graft.Item
