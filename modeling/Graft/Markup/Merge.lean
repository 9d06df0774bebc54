import Graft.Markup.Document
import Graft.Report

set_option autoImplicit false

/-!
Merging HTML: a document has no pieces, so the snippet takes the place of the whole, made
well-formed.
-/

namespace Graft.Markup

def trees (source : Text) : List Tree :=
  let plain := source.plainNewlines
  if Text.includes (Text.lower source) "<html".toList then document plain else fragment plain

def startsDoctype (t : Text) : Bool := Text.startsWith (Text.lower t) "<!doctype".toList

/-- A source written anew, with a document type and a last newline if it had them. -/
def tidy (source : Text) : Text :=
  let body := (Tree.writeAll false (trees source)).1
  let typed :=
    if startsDoctype source.trimStart && !startsDoctype body then "<!DOCTYPE html>".toList ++ body
    else body
  if source.endsWith ['\n'] && !Text.endsWith typed ['\n'] then typed ++ ['\n'] else typed

def merge (host snippet : Text) : Report :=
  if snippet.isBlankText then ⟨host, .markup, []⟩ else ⟨tidy snippet, .markup, []⟩

end Graft.Markup
