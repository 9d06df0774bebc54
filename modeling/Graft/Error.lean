import Graft.Directive
import Graft.Json
import Graft.Notation

set_option autoImplicit false

/-!
What can go wrong and what is worth a word: warnings, faults in a document, and the errors that stop
a merge. The wording of each stands in one place.
-/

namespace Graft

inductive Shown where
  | text (t : Text)
  | flag (b : Bool)
  | nothing
  deriving DecidableEq, Repr

def Shown.quoted : Shown → Text
  | text t => t.quoted
  | flag b => Json.quoted (.bool b)
  | nothing => Json.quoted .null

inductive Warning where
  | ignored (directive : Text) (value : Shown) (kind name : Text)
  | nameless (kind : Text)
  | noFunction
  | noRule
  /-- A snippet without a class. -/
  | noMember
  /-- A document without a class for the members of the snippet. -/
  | noClass
  | other (message : Text)
  deriving DecidableEq, Repr

namespace Warning

def message : Warning → Text
  | ignored directive value kind name =>
    "DirectiveIgnored: @".toList ++ directive ++ ' ' :: value.quoted ++ " on ".toList ++ kind ++
      " '".toList ++ name ++ ['\'']
  | nameless kind =>
    "UnitNameUnresolvable: skipped snippet ".toList ++ kind ++ " without a name".toList
  | noFunction => "UnitNameUnresolvable: the snippet contains no fn item".toList
  | noRule => "UnitNameUnresolvable: the snippet contains no rule".toList
  | noMember => "UnitNameUnresolvable: the snippet contains no class member to merge".toList
  | noClass =>
    "UnitNameUnresolvable: the original has no class to merge the snippet members into".toList
  | other m => m

end Warning

inductive Cause where
  | openComment
  | openRawString
  | openString
  | unbalanced (bracket : Char)
  | unclosed (bracket : Char)
  | style (reason : Text)
  | script
  | suite
  deriving DecidableEq, Repr

def Cause.message : Cause → Text
  | openComment => "Unterminated block comment".toList
  | openRawString => "Unterminated raw string literal".toList
  | openString => "Unterminated string literal".toList
  | unbalanced c => "Unbalanced '".toList ++ [c, '\'']
  | unclosed c => "Unclosed '".toList ++ [c, '\'']
  | style reason => "Failed to parse CSS: ".toList ++ reason
  | script => "Failed to parse TypeScript code".toList
  | suite => "Failed to parse Python code".toList

/-- A fault, where it stands (line and column from one) and the rest of that line. -/
structure Fault where
  cause : Cause
  place : Option (Nat × Nat) := none
  near : Text := []
  deriving DecidableEq, Repr

def Fault.message (f : Fault) : Text :=
  let location := match f.place with
    | some (line, column) =>
      " at line ".toList ++ Json.digits line ++ ", column ".toList ++ Json.digits column
    | none => []
  let excerpt := if f.near.isEmpty then [] else ": near '".toList ++ f.near.take 50 ++ ['\'']
  f.cause.message ++ location ++ excerpt

inductive Error where
  | unreadable (f : Fault)
  | invalid (n : Notation) (f : Fault)
  | rejected (reason : Text)
  | unsupported (tag : Text)
  | directive (w : Warning)
  | noPlacement (value : Json)
  | nullCharacter
  /-- A row of a Python source that is indented like none before it. -/
  | badIndentation
  | unprintable
  | badJson
  | notAnObject
  | fileNotFound
  | fileExists
  | isDirectory
  | notDirectory
  | busy
  /-- A surrogate in a text that is to be written. -/
  | unencodable

namespace Error

def message : Error → Text
  | unreadable f => f.message
  | invalid n f => "Merged ".toList ++ n.tag ++ " document is not valid: ".toList ++ f.message
  | rejected reason => reason
  | unsupported tag =>
    "Unsupported notation: ".toList ++ tag.quoted ++ " (supported: ".toList ++
      Text.join ", ".toList (Notation.all.map Notation.tag) ++ [')']
  | directive w => w.message
  | noPlacement v => v.quoted ++ " is not a valid Placement".toList
  | nullCharacter => "source code string cannot contain null bytes".toList
  | badIndentation => "unindent does not match any outer indentation level".toList
  | unprintable => "unable to avoid a backslash in a formatted text".toList
  | badJson => "not a JSON text".toList
  | notAnObject => "the settings are no object".toList
  | fileNotFound => "no such file or directory".toList
  | fileExists => "file exists".toList
  | isDirectory => "is a directory".toList
  | notDirectory => "not a directory".toList
  | busy => "device or resource busy".toList
  | unencodable => "surrogates not allowed".toList

end Error

end Graft
