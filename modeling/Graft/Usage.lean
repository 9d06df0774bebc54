import Graft.FileTree

set_option autoImplicit false

/-!
The arguments of the command line: what options there are, how they are read, and what is wrong with
those that cannot be understood.
-/

namespace Graft

inductive Switch where
  | tag
  | config
  | output
  | cleanResponse
  | language
  | verbose
  | help
  deriving DecidableEq, Repr

namespace Switch

def all : List Switch := [tag, config, output, cleanResponse, language, verbose, help]

def long : Switch → Text
  | tag => "--notation".toList
  | config => "--config".toList
  | output => "--output".toList
  | cleanResponse => "--clean-response".toList
  | language => "--language".toList
  | verbose => "--verbose".toList
  | help => "--help".toList

def short? : Switch → Option Char
  | tag => some 'n'
  | config => some 'c'
  | output => some 'o'
  | language => some 'l'
  | verbose => some 'v'
  | cleanResponse | help => none

def takesValue : Switch → Bool
  | tag | config | output | language => true
  | cleanResponse | verbose | help => false

end Switch

inductive Misuse where
  | noCommand (name : Text)
  | noOption (name : Text)
  | needsValue (name : Text)
  | takesNoValue (name : Text)
  | missing (argument : Text)
  | extra (arguments : List Text)
  | noPath (parameter kind name : Text)
  | folder (parameter name : Text)
  | noChoice (parameter value : Text) (choices : List Text)
  | noNotation (file : Text)
  deriving DecidableEq, Repr

namespace Misuse

def invalid (parameter : Text) : Text := "Invalid value for ".toList ++ parameter ++ ": ".toList

def message : Misuse → Text
  | noCommand name => "No such command ".toList ++ name.quoted ++ ['.']
  | noOption name => "No such option: ".toList ++ name
  | needsValue name => "Option ".toList ++ name.quoted ++ " requires an argument.".toList
  | takesNoValue name => "Option ".toList ++ name.quoted ++ " does not take a value.".toList
  | missing argument => "Missing argument '".toList ++ argument ++ "'.".toList
  | extra arguments =>
    "Got unexpected extra argument".toList ++ (if arguments.length > 1 then ['s'] else []) ++
      " (".toList ++ Text.join [' '] arguments ++ [')']
  | noPath parameter kind name =>
    invalid parameter ++ kind ++ ' ' :: name.quoted ++ " does not exist.".toList
  | folder parameter name =>
    invalid parameter ++ "File ".toList ++ name.quoted ++ " is a directory.".toList
  | noChoice parameter value choices =>
    invalid parameter ++ value.quoted ++ " is not one of ".toList ++
      Text.join ", ".toList (choices.map Text.quoted) ++ ['.']
  | noNotation file =>
    "Cannot infer a notation from '".toList ++ file ++ "', use --notation".toList

end Misuse

structure Arguments where
  options : List (Switch × Text) := []
  others : List Text := []

namespace Arguments

def isOption (arg : Text) : Bool := arg.startsWith ['-'] && arg.length > 1

def take (s : Switch) (name : Text) (attached : Option Text) (rest : List Text) :
    Except Misuse ((Switch × Text) × List Text) :=
  if s.takesValue then
    match attached, rest with
    | some v, rest => .ok ((s, v), rest)
    | none, v :: rest => .ok ((s, v), rest)
    | none, [] => .error (.needsValue name)
  else .ok ((s, []), rest)

/-- The letters of a short argument, each an option; one with a value takes the rest. -/
def takeLetters : Text → List Text → Except Misuse (List (Switch × Text) × List Text)
  | [], rest => .ok ([], rest)
  | c :: cs, rest =>
    match Switch.all.find? fun s => s.short? == some c with
    | none => .error (.noOption ['-', c])
    | some s =>
      if s.takesValue then do
        let (o, rest) ← take s ['-', c] (if cs.isEmpty then none else some cs) rest
        return ([o], rest)
      else do
        let (os, rest) ← takeLetters cs rest
        return ((s, []) :: os, rest)

def takeOption (arg : Text) (rest : List Text) : Except Misuse (List (Switch × Text) × List Text) :=
  let name := arg.takeWhile (· != '=')
  let attached := if arg.contains '=' then some (arg.drop (name.length + 1)) else none
  match Switch.all.find? fun s => s.long == name with
  | some s =>
    if attached.isSome && !s.takesValue then .error (.takesNoValue name)
    else do
      let (o, rest) ← take s name attached rest
      return ([o], rest)
  | none =>
    if arg.startsWith ['-', '-'] then .error (.noOption name) else takeLetters (arg.drop 1) rest

/-- Sorts the arguments into options and others; two dashes end the options. -/
def readFrom : Nat → List Text → Except Misuse Arguments
  | 0, _ => .ok {}
  | _, [] => .ok {}
  | bound + 1, arg :: rest =>
    if arg == ['-', '-'] then .ok { others := rest }
    else if isOption arg then do
      let (os, rest) ← takeOption arg rest
      let a ← readFrom bound rest
      return { a with options := os ++ a.options }
    else do
      let a ← readFrom bound rest
      return { a with others := arg :: a.others }

def read (args : List Text) : Except Misuse Arguments := readFrom (args.length + 1) args

def value? (a : Arguments) (s : Switch) : Option Text :=
  ((a.options.filter (·.1 = s)).getLast?).map (·.2)

def count (a : Arguments) (s : Switch) : Nat := (a.options.filter (·.1 = s)).length

end Arguments

end Graft
