import Graft.Item.Merge
import Graft.Markup.Merge
import Graft.Script.Merge
import Graft.Style.Merge
import Graft.Suite.Merge

set_option autoImplicit false

/-!
Merging a snippet into a document, whatever the notation of the two.
-/

namespace Graft

def check (n : Notation) (code : Text) : Except Error Unit :=
  match n with
  | .script => (Script.read code).map fun _ => ()
  | .item => (Item.read code).map fun _ => ()
  | .suite => (Suite.read code).map fun _ => ()
  | .style => (Style.read code).map fun _ => ()
  | .markup => .ok ()

def validate (n : Notation) (code : Text) : Except Error Unit :=
  match check n code with
  | .error (.unreadable f) => .error (.invalid n f)
  | r => r

/-- A snippet made a document of its own: bare members are put into the container class. -/
def normalize (n : Notation) (o : Options) (code : Text) : Text :=
  match n with
  | .script => Script.wrap o code
  | .suite => Suite.wrap o code
  | _ => code

def vocabulary : Notation → Vocabulary
  | .script => Script.Member.vocabulary
  | .item => Item.vocabulary
  | .suite => Suite.Member.vocabulary
  | .style => Style.vocabulary
  | _ => { isName := Vocabulary.identifier.accepts, isParameter := Vocabulary.identifier.accepts }

def mergeBy (n : Notation) (o : Options) (host snippet : Text) : Traced Report :=
  match n with
  | .script => Script.merge o host snippet
  | .item => Item.merge o host snippet
  | .suite => Suite.merge o host snippet
  | .style => Style.merge o host snippet
  | .markup => return Markup.merge host snippet

def merge (n : Notation) (o : Options) (host snippet : Text) : Traced Report := do
  Traced.log (.merging snippet.length n)
  let r ← mergeBy n o host snippet
  if o.validates then Traced.ofExcept (validate n r.text)
  for w in r.warnings do Traced.log (.reported n w)
  return r

def mergeTagged (tag : Text) (o : Options) (host snippet : Text) : Traced Report :=
  match Notation.resolve? tag with
  | some n => merge n o host snippet
  | none => Traced.fail (.unsupported tag)

/-- Merges snippets one after the other; one that fails leaves the document as it was. -/
def mergeAll (tag : Text) (o : Options) : Text → List Text → List (Except Error Report)
  | _, [] => []
  | host, s :: ss =>
    let r := (mergeTagged tag o host s).result
    let next := match r with
      | .ok report => report.text
      | .error _ => host
    r :: mergeAll tag o next ss

def mergeFile (path : Text) (content? : Except Error Text) (o : Options) (snippet : Text) :
    Traced Report :=
  match Notation.ofPath? path with
  | some n => do
    let content ← Traced.ofExcept content?
    merge n o content.plainNewlines snippet
  | none => Traced.fail (.unsupported (Notation.suffix path))

end Graft
