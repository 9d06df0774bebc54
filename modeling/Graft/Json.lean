import Graft.Double
import Graft.Text.Quoted

set_option autoImplicit false

/-!
Values of the JSON data format, a reader and two printers: `render` writes JSON, `display` the form
that messages show.
-/

namespace Graft

inductive Json where
  | null
  | bool (b : Bool)
  | int (n : Int)
  | real (negative : Bool) (magnitude : Double)
  | nan
  | text (t : Text)
  | array (items : List Json)
  | object (members : List (Text × Json))
  deriving Inhabited

namespace Json

def get? (key : String) : Json → Option Json
  | object members => members.lookup key.toList
  | _ => none

/-- Empty, zero and absent values count as no. -/
def truthy : Json → Bool
  | null => false
  | bool b => b
  | int n => n != 0
  | real _ (.finite m _) => m != 0
  | real _ .infinite => true
  | nan => true
  | text t => !t.isEmpty
  | array items => !items.isEmpty
  | object members => !members.isEmpty

def digits (n : Nat) : Text := Nat.toDigits 10 n

def showInt (n : Int) : Text := if n < 0 then '-' :: digits n.natAbs else digits n.natAbs

def showReal (negative : Bool) (d : Double) : Text :=
  (if negative then ['-'] else []) ++ d.render "inf".toList

mutual

/-- A value as messages show it: texts quoted, `None`, `True` and `False` spelled out. -/
def quoted : Json → Text
  | null => "None".toList
  | bool true => "True".toList
  | bool false => "False".toList
  | int n => showInt n
  | real negative d => showReal negative d
  | nan => "nan".toList
  | text t => t.quoted
  | array items => '[' :: quotedItems items ++ [']']
  | object members => '\x7b' :: quotedMembers members ++ ['\x7d']

def quotedItems : List Json → Text
  | [] => []
  | [v] => quoted v
  | v :: vs => quoted v ++ ", ".toList ++ quotedItems vs

def quotedMembers : List (Text × Json) → Text
  | [] => []
  | [(k, v)] => k.quoted ++ ": ".toList ++ quoted v
  | (k, v) :: ms => k.quoted ++ ": ".toList ++ quoted v ++ ", ".toList ++ quotedMembers ms

end

/-- Like `quoted`, but a text stands for itself. -/
def display : Json → Text
  | text t => t
  | v => quoted v

def escape (c : Char) : Text :=
  if c == '"' || c == '\\' then ['\\', c]
  else if c.toNat < 32 then '\\' :: 'u' :: Text.hex 4 c.toNat
  else [c]

def renderText (t : Text) : Text := '"' :: (Text.expand escape t ++ ['"'])

mutual

def render : Json → Text
  | null => "null".toList
  | bool true => "true".toList
  | bool false => "false".toList
  | int n => showInt n
  | real negative d => (if negative then ['-'] else []) ++ d.render "Infinity".toList
  | nan => "NaN".toList
  | text t => renderText t
  | array items => '[' :: renderItems items ++ [']']
  | object members => '\x7b' :: renderMembers members ++ ['\x7d']

def renderItems : List Json → Text
  | [] => []
  | [v] => render v
  | v :: vs => render v ++ ',' :: renderItems vs

def renderMembers : List (Text × Json) → Text
  | [] => []
  | [(k, v)] => renderText k ++ ':' :: render v
  | (k, v) :: ms => renderText k ++ ':' :: (render v ++ ',' :: renderMembers ms)

end

def isSpace (c : Char) : Bool := c == ' ' || c == '\n' || c == '\t' || c == '\r'

def skip (t : Text) : Text := t.dropWhile isSpace

def hexValue (t : Text) : Option Nat :=
  t.foldl (fun n c => n.bind fun n => (Text.digitValue? c).map (16 * n + ·)) (some 0)

def readCode (t : Text) : Option (Nat × Text) :=
  if t.length < 4 then none else (hexValue (t.take 4)).map (·, t.drop 4)

def readEscapedCode (t : Text) : Option (Char × Text) := do
  let (n, rest) ← readCode t
  if 0xd800 ≤ n && n < 0xdc00 then
    match rest with
    | '\\' :: 'u' :: low =>
      match readCode low with
      | some (m, rest') =>
        if 0xdc00 ≤ m && m < 0xe000 then
          some (Char.ofNat (0x10000 + (n - 0xd800) * 1024 + (m - 0xdc00)), rest')
        else some (Char.ofNat 0xfffd, rest)
      | none => none
    | _ => some (Char.ofNat 0xfffd, rest)
  else if 0xdc00 ≤ n && n < 0xe000 then some (Char.ofNat 0xfffd, rest)
  else some (Char.ofNat n, rest)

def plainEscape? : Char → Option Char
  | '"' => some '"'
  | '\\' => some '\\'
  | '/' => some '/'
  | 'b' => some '\x08'
  | 'f' => some '\x0c'
  | 'n' => some '\n'
  | 'r' => some '\r'
  | 't' => some '\t'
  | _ => none

def readText : Nat → Text → Text → Option (Text × Text)
  | 0, _, _ => none
  | fuel + 1, acc, t =>
    match t with
    | [] => none
    | '"' :: rest => some (acc.reverse, rest)
    | '\\' :: 'u' :: rest => do
      let (c, rest) ← readEscapedCode rest
      readText fuel (c :: acc) rest
    | '\\' :: c :: rest => do
      let c ← plainEscape? c
      readText fuel (c :: acc) rest
    | c :: rest => if c.toNat < 32 || c == '\\' then none else readText fuel (c :: acc) rest

def natOf (t : Text) : Nat := t.foldl (fun n c => 10 * n + (c.toNat - 48)) 0

def readExponent : Text → Option (Int × Text)
  | c :: rest =>
    if c == 'e' || c == 'E' then
      let (negative, rest) := match rest with
        | '-' :: r => (true, r)
        | '+' :: r => (false, r)
        | r => (false, r)
      let ds := rest.takeWhile Text.isDigit
      if ds.isEmpty then none
      else some (if negative then -(natOf ds : Int) else natOf ds, rest.dropWhile Text.isDigit)
    else none
  | [] => none

def readFraction : Text → Option (Text × Text)
  | '.' :: rest =>
    let ds := rest.takeWhile Text.isDigit
    if ds.isEmpty then none else some (ds, rest.dropWhile Text.isDigit)
  | _ => none

def readNumber (negative : Bool) (t : Text) : Option (Json × Text) :=
  let whole := t.takeWhile Text.isDigit
  let (whole, rest) := match whole with
    | '0' :: _ => (['0'], t.drop 1)
    | _ => (whole, t.drop whole.length)
  if whole.isEmpty then none
  else
    let (fraction, rest) := (readFraction rest).getD ([], rest)
    match readExponent rest with
    | some (e, rest) =>
      some (real negative (.ofDecimal (natOf (whole ++ fraction)) (e - fraction.length)), rest)
    | none =>
      if fraction.isEmpty then
        some (int (if negative then -(natOf whole : Int) else natOf whole), rest)
      else
        some (real negative (.ofDecimal (natOf (whole ++ fraction)) (-(fraction.length : Int))),
          rest)

def readWord? (t : Text) : Option (Json × Text) :=
  [("null", null), ("true", bool true), ("false", bool false), ("NaN", nan),
    ("Infinity", real false .infinite), ("-Infinity", real true .infinite)].findSome? fun (w, v) =>
      if t.startsWith w.toList then some (v, t.drop w.length) else none

def put (members : List (Text × Json)) (key : Text) (v : Json) : List (Text × Json) :=
  if members.any (·.1 == key) then members.map fun (k, old) => (k, if k == key then v else old)
  else members ++ [(key, v)]

mutual

def readValue : Nat → Text → Option (Json × Text)
  | 0, _ => none
  | fuel + 1, t =>
    match t with
    | '"' :: rest => (readText (rest.length + 1) [] rest).map fun (s, r) => (text s, r)
    | '[' :: rest =>
      match skip rest with
      | ']' :: rest => some (array [], rest)
      | rest => readItems fuel [] rest
    | '\x7b' :: rest =>
      match skip rest with
      | '\x7d' :: rest => some (object [], rest)
      | rest => readMembers fuel [] rest
    | _ =>
      readWord? t <|> match t with
        | '-' :: rest => readNumber true rest
        | _ => readNumber false t

def readItems : Nat → List Json → Text → Option (Json × Text)
  | 0, _, _ => none
  | fuel + 1, acc, t => do
    let (v, rest) ← readValue fuel t
    match skip rest with
    | ',' :: rest => readItems fuel (v :: acc) (skip rest)
    | ']' :: rest => some (array (v :: acc).reverse, rest)
    | _ => none

def readMembers : Nat → List (Text × Json) → Text → Option (Json × Text)
  | 0, _, _ => none
  | fuel + 1, acc, t =>
    match t with
    | '"' :: rest => do
      let (key, rest) ← readText (rest.length + 1) [] rest
      match skip rest with
      | ':' :: rest =>
        let (v, rest) ← readValue fuel (skip rest)
        match skip rest with
        | ',' :: rest => readMembers fuel (put acc key v) (skip rest)
        | '\x7d' :: rest => some (object (put acc key v), rest)
        | _ => none
      | _ => none
    | _ => none

end

def parse? (t : Text) : Option Json :=
  match readValue (2 * t.length + 2) (skip t) with
  | some (v, rest) => if (skip rest).isEmpty then some v else none
  | none => none

end Json

end Graft
