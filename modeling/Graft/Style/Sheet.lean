import Graft.Error
import Graft.Style.Value

set_option autoImplicit false

/-!
Stylesheets: rules, at-rules, and the comments and blanks between them.
-/

namespace Graft.Style

inductive Node where
  | blank (p : Place) (t : Text)
  | comment (p : Place)
  | rule (p : Place) (selector : List Value)
  | atRule (p : Place) (keyword : Text) (prelude : List Value)
  /-- A rule whose block is missing; the place is that of the last value read. -/
  | broken (p : Place)

instance : Inhabited Node := ⟨.broken {}⟩

def Node.place : Node → Place
  | blank p _ | comment p | rule p _ | atRule p _ _ | broken p => p

def before (isEnd : Value → Bool) (vs : List Value) : List Value := vs.takeWhile (!isEnd ·)

def fromEnd (isEnd : Value → Bool) (vs : List Value) : List Value := vs.dropWhile (!isEnd ·)

theorem length_tail_fromEnd_le (isEnd : Value → Bool) (vs : List Value) :
    (fromEnd isEnd vs).tail.length ≤ vs.length := by
  have := List.IsSuffix.length_le (List.dropWhile_suffix (!isEnd ·) (l := vs))
  simp only [fromEnd, List.length_tail]
  omega

def endsAtRule (v : Value) : Bool := v.isBraces || v.isLiteral ";"

def ruleNode (first : Value) (rest : List Value) : Node :=
  let prelude := first :: before Value.isBraces rest
  if (fromEnd Value.isBraces rest).isEmpty then .broken ((prelude.getLast?.getD first).place)
  else .rule first.place prelude

/-- The nodes of a sheet. The marks that hide a sheet from old readers are passed over. -/
def nodes (vs : List Value) : List Node :=
  match vs with
  | [] => []
  | .token p (.blank t) :: vs => .blank p t :: nodes vs
  | .token p (.comment _) :: vs => .comment p :: nodes vs
  | .token p (.atKeyword n) :: vs =>
    have := length_tail_fromEnd_le endsAtRule vs
    .atRule p n (before endsAtRule vs) :: nodes (fromEnd endsAtRule vs).tail
  | v :: vs =>
    if v.isLiteral "<!--" || v.isLiteral "-->" then nodes vs
    else if v.isBraces then .rule v.place [] :: nodes vs
    else
      have := length_tail_fromEnd_le Value.isBraces vs
      ruleNode v vs :: nodes (fromEnd Value.isBraces vs).tail
termination_by vs.length
decreasing_by all_goals simp only [List.length_cons]; omega

def isBlankNode : Node → Bool
  | .blank .. => true
  | _ => false

def broken? (ns : List Node) : Option Place :=
  ns.findSome? fun
    | .broken p => some p
    | _ => none

def read (source : Text) : Except Error (List Node) :=
  let ns := nodes (Value.ofText source true)
  match broken? ns with
  | none => .ok ns
  | some p =>
    let line := ((source.splitOn '\n')[p.line - 1]?).getD []
    .error (.unreadable {
      cause := .style "EOF reached before \x7b\x7d block for a qualified rule.".toList
      place := some (p.line, p.column)
      near := line.trim })

def bareNodes (source : Text) : List Node :=
  (nodes (Value.ofText source false)).filter (!isBlankNode ·)

end Graft.Style
