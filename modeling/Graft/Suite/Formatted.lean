import Graft.Suite.Literal

set_option autoImplicit false

/-!
Texts with values put in: literal parts, and in braces an expression with its conversion and its
format, which may itself hold values.
-/

namespace Graft.Suite

namespace Formatted

inductive Part where
  | text (points : List Nat)
  | value (e : Expr)

def closes (opening c : Char) : Bool :=
  (opening == '(' && c == ')') || (opening == '[' && c == ']') || (opening == '\x7b' && c == '\x7d')

/-- The source of an expression up to the sign that ends it, and the rest from that sign on. Strings
inside are skipped, brackets have to match, and neither backslashes nor comments may occur. -/
def expressionText? : Option (Char × Bool) → List Char → Text → Option (Text × Text)
  | _, _, [] => none
  | some (q, true), stack, a :: b :: c :: rest =>
    if a == '\\' then none
    else if a == q && b == q && c == q then
      (expressionText? none stack rest).map fun (t, r) => (a :: b :: c :: t, r)
    else (expressionText? (some (q, true)) stack (b :: c :: rest)).map fun (t, r) => (a :: t, r)
  | some (q, long), stack, c :: rest =>
    if c == '\\' then none
    else
      let inside := if c == q && !long then none else some (q, long)
      (expressionText? inside stack rest).map fun (t, r) => (c :: t, r)
  | none, stack, '\'' :: '\'' :: '\'' :: rest =>
    (expressionText? (some ('\'', true)) stack rest).map fun (t, r) => ("'''".toList ++ t, r)
  | none, stack, '"' :: '"' :: '"' :: rest =>
    (expressionText? (some ('"', true)) stack rest).map fun (t, r) => ("\"\"\"".toList ++ t, r)
  | none, stack, c :: rest =>
    let take (quote : Option (Char × Bool)) (stack : List Char) : Option (Text × Text) :=
      (expressionText? quote stack rest).map fun (t, r) => (c :: t, r)
    if c == '\\' || c == '#' then none
    else if c == '\'' || c == '"' then take (some (c, false)) stack
    else if c == '(' || c == '[' || c == '\x7b' then take none (c :: stack)
    else match stack with
      | [] =>
        if c == '!' || c == ':' || c == '\x7d' || c == '=' || c == '<' || c == '>' then
          match rest with
          | '=' :: more =>
            if c == ':' || c == '\x7d' then some ([], c :: rest)
            else (expressionText? none [] more).map fun (t, r) => (c :: '=' :: t, r)
          | _ => if c == '<' || c == '>' then take none [] else some ([], c :: rest)
        else if c == ']' || c == ')' then none
        else take none []
      | opening :: outer =>
        if c == ')' || c == ']' || c == '\x7d' then
          if closes opening c then take none outer else none
        else take none stack

/-- A literal part as written, whether it ended at a doubled brace, and the rest. Braces are doubled
outside formats only. -/
def literal? (top raw : Bool) : Nat → Text → Text → Option (Text × Bool × Text)
  | 0, _, _ => none
  | _, acc, [] => some (acc.reverse, false, [])
  | fuel + 1, acc, c :: rest =>
    let brace (c : Char) (rest acc : Text) : Option (Text × Bool × Text) :=
      if top && rest.head? == some c then some ((c :: acc).reverse, true, rest.drop 1)
      else if top && c == '\x7d' then none
      else some (acc.reverse, false, c :: rest)
    if c == '\\' && !raw then
      match rest with
      | 'N' :: '\x7b' :: more =>
        let name := more.takeWhile (· != '\x7d')
        literal? top raw fuel ('\x7d' :: name.reverse ++ "\x7bN\\".toList ++ acc)
          (more.drop (name.length + 1))
      | d :: more =>
        if d == '\x7b' || d == '\x7d' then brace d more ('\\' :: acc)
        else literal? top raw fuel (d :: '\\' :: acc) more
      | [] => some (('\\' :: acc).reverse, false, [])
    else if c == '\x7b' || c == '\x7d' then brace c rest acc
    else literal? top raw fuel (c :: acc) rest

def merge : List Part → List Expr
  | [] => []
  | .value e :: rest => e :: merge rest
  | .text ps :: rest =>
    match merge rest with
    | .constant (.text qs m) :: es => .constant (.text (ps ++ qs) m) :: es
    | es => if ps.isEmpty then es else .constant (.text ps false) :: es

def isSpace (c : Char) : Bool := c == ' ' || (9 ≤ c.toNat && c.toNat ≤ 13)

def label (source rest : Text) : Text × Text :=
  match rest with
  | '=' :: more =>
    let pad := more.takeWhile isSpace
    (source ++ '=' :: pad, more.drop pad.length)
  | _ => ([], rest)

def conversion? (rest : Text) : Option (Option Char × Text) :=
  match rest with
  | '!' :: c :: more => if c == 's' || c == 'r' || c == 'a' then some (some c, more) else none
  | '!' :: [] => none
  | _ => some (none, rest)

/-- The parts of a text, at a nesting of formats of at most two, up to its end or to a closing
brace. `compile` reads an expression, `decode` a literal. -/
def parts? (compile : Text → Option Expr) (decode : Text → Option (List Nat)) (raw : Bool) :
    Nat → Nat → Text → Option (List Part × Text)
  | 0, _, _ => none
  | fuel + 1, depth, t => do
    let (written, again, rest) ← literal? (depth == 0) raw (t.length + 1) [] t
    let first := Part.text (← decode written)
    if again then
      let (more, rest) ← parts? compile decode raw fuel depth rest
      return (first :: more, rest)
    match rest with
    | '\x7b' :: inner =>
      if 2 ≤ depth then none
      let (source, rest) ← expressionText? none [] inner
      if source.all fun c => c == ' ' || c == '\t' || c == '\n' || c == '\x0c' then none
      let e ← compile source
      let (shown, rest) := label source rest
      let (conversion, rest) ← conversion? rest
      let (spec, rest) ← match rest with
        | ':' :: inner => do
          let (ps, rest) ← parts? compile decode raw fuel (depth + 1) inner
          pure (some (Expr.joined (merge ps)), rest)
        | _ => pure (none, rest)
      match rest with
      | '\x7d' :: after =>
        let conversion :=
          if !shown.isEmpty && spec.isNone && conversion.isNone then some 'r' else conversion
        let (more, rest) ← parts? compile decode raw fuel depth after
        return (first :: .text (Literal.points shown) ::
          .value (.formatted e conversion spec) :: more, rest)
      | _ => none
    | _ => return ([first], rest)

def ofTokens? (compile : Text → Option Expr) (tokens : List Text) : Option Expr := do
  let bodies := tokens.map Literal.bodyOf
  if bodies.any (·.isBytes) then
    if bodies.all (·.isBytes) then
      return .constant (.bytes (← bodies.mapM fun b => Literal.value? b b.text).flatten)
    else none
  else
    let parts ← bodies.mapM fun b =>
      if b.isFormat then
        (parts? compile (Literal.value? b) b.isRaw (b.text.length + 2) 0 b.text).map (·.1)
      else (Literal.value? b b.text).map fun ps => [Part.text ps]
    let merged := merge parts.flatten
    if bodies.any (·.isFormat) then return .joined merged
    else match merged with
      | [.constant (.text ps _)] =>
        return .constant (.text ps ((bodies.head?.map (·.marked)).getD false))
      | _ => return .constant (.text [] ((bodies.head?.map (·.marked)).getD false))

end Formatted

end Graft.Suite
