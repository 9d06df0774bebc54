import Graft.Error

set_option autoImplicit false

/-!
Events on the way to a result. A traced computation has a result, which may be an error, and the
events up to there; what it computes never depends on its events.
-/

namespace Graft

inductive Event where
  | merging (length : Nat) (n : Notation)
  | noFence
  | missing (name : Text)
  | renameSkipped (name : Text)
  | placed (replaced : Bool) (old new : Text)
  | noted (w : Warning)
  | classAdded (n : Notation) (name : Text)
  | reported (n : Notation) (w : Warning)
  | wrote (path : Text) (length : Nat)
  deriving DecidableEq, Repr

namespace Event

inductive Level where
  | info
  | debug
  deriving DecidableEq, Repr

def level : Event → Level
  | merging .. => .info
  | _ => .debug

def speaker : Event → Text
  | merging .. => "code_bridge.bridge".toList
  | noFence => "code_bridge.response_cleaner".toList
  | missing _ | renameSkipped _ | placed .. | noted _ => "code_bridge.merger.reconciler".toList
  | classAdded .script _ => "code_bridge.merger.typescript_merger".toList
  | classAdded _ _ => "code_bridge.merger.python_merger".toList
  | reported .. => "code_bridge.merger.base".toList
  | wrote .. => "code_bridge.merger.atomic_writer".toList

def message : Event → Text
  | merging k n =>
    "Merging ".toList ++ Json.digits k ++ "-character snippet as ".toList ++ n.tag
  | noFence => "No fenced code block found, stripping explanations".toList
  | missing name => "Delete of '".toList ++ name ++ "' is a no-op: no such unit".toList
  | renameSkipped name => "Rename of '".toList ++ name ++ "' skipped: the unit is deleted".toList
  | placed replaced old new =>
    (if replaced then "Replaced" else "Added").toList ++ " unit '".toList ++ old ++
      "' as '".toList ++
      new ++ ['\'']
  | noted w => w.message
  | classAdded _ name => "Added class '".toList ++ name ++ ['\'']
  | reported n w => n.tag ++ " merge: ".toList ++ w.message
  | wrote path n =>
    "Wrote ".toList ++ path ++ " (".toList ++ Json.digits n ++ " characters)".toList

def line (e : Event) : Text :=
  (match e.level with
    | .info => "INFO ".toList
    | .debug => "DEBUG ".toList) ++ e.speaker ++ ": ".toList ++ e.message

end Event

structure Traced (α : Type) where
  result : Except Error α
  events : List Event := []

namespace Traced

variable {α β : Type}

def log (e : Event) : Traced PUnit := ⟨.ok ⟨⟩, [e]⟩

def ofExcept (r : Except Error α) : Traced α := ⟨r, []⟩

def fail (e : Error) : Traced α := ⟨.error e, []⟩

def bind (x : Traced α) (f : α → Traced β) : Traced β :=
  match x.result with
  | .ok a => let y := f a; ⟨y.result, x.events ++ y.events⟩
  | .error e => ⟨.error e, x.events⟩

instance : Monad Traced where
  pure a := ⟨.ok a, []⟩
  bind := bind

end Traced

end Graft
