import Graft.Proofs.Item.Written

set_option autoImplicit false

/-!
Which piece a directive is attached to. Of several pieces with one name the last is held, and with
it the directives of the last one that has any. So a piece is held with what is written above it,
unless it has no directive and a namesake before it has one: that one's directives then go with it.
-/

namespace Graft

namespace Commands

theorem seen_apply_ne_nil (c : Commands) (d : Directive) : (c.apply d).seen ≠ [] := by
  unfold apply note
  split
  · rename_i hmem
    intro hnil
    simp [hnil] at hmem
  · simp

theorem isEmpty_ofComments (comments : List Text) :
    (ofComments comments).isEmpty = (Directive.ofComments comments).isEmpty := by
  unfold ofComments
  cases Directive.ofComments comments using List.reverseRecOn with
  | nil => rfl
  | append_singleton ds d =>
    rw [List.foldl_concat, isEmpty, List.isEmpty_eq_false_iff.mpr (seen_apply_ne_nil _ d)]
    simp

end Commands

namespace Directive

theorem ofComments_append (cs cs' : List Text) :
    ofComments (cs ++ cs') = ofComments cs ++ ofComments cs' := by
  simp [ofComments]

theorem ofComments_cons (c : Text) (cs : List Text) :
    ofComments (c :: cs) = ofComments [c] ++ ofComments cs :=
  ofComments_append [c] cs

theorem isDirectiveComment_eq (c : Text) : isDirectiveComment c = !(ofComments [c]).isEmpty := by
  rw [isDirectiveComment, Commands.isEmpty_ofComments]

theorem isEmpty_ofComments (comments : List Text) :
    (ofComments comments).isEmpty = !comments.any isDirectiveComment := by
  induction comments with
  | nil => rfl
  | cons c cs ih =>
    rw [ofComments_cons, List.any_cons, isDirectiveComment_eq, Bool.not_or, Bool.not_not, ← ih]
    cases ofComments [c] <;> rfl

theorem ofComments_filter (comments : List Text) :
    ofComments (comments.filter isDirectiveComment) = ofComments comments := by
  induction comments with
  | nil => rfl
  | cons c cs ih =>
    rw [ofComments_cons c cs, List.filter_cons, isDirectiveComment_eq]
    cases hds : ofComments [c] with
    | nil => simpa using ih
    | cons d ds => simp [ofComments_cons c (cs.filter _), hds, ih]

end Directive

structure Occurrence (δ : Type) where
  piece : Piece δ
  comments : List Text

namespace Occurrence

variable {δ : Type}

def isDirected (o : Occurrence δ) : Bool := o.comments.any isDirectiveComment

def entry? (o : Occurrence δ) : Option Commands :=
  if o.isDirected then some (Commands.ofComments o.comments) else none

def lastCommands? (os : List (Occurrence δ)) (name : Text) : Option Commands :=
  ((os.filter (·.piece.name == name)).filterMap entry?).getLast?

def entered (o : Occurrence δ) : Piece δ × Commands :=
  (o.piece, Commands.ofComments (o.comments.filter isDirectiveComment))

theorem entry?_eq_none_iff {o : Occurrence δ} : o.entry? = none ↔ o.isDirected = false := by
  unfold entry?
  cases o.isDirected <;> simp

theorem entered_eq (o : Occurrence δ) : o.entered = (o.piece, Commands.ofComments o.comments) := by
  rw [entered, Commands.ofComments, Directive.ofComments_filter]
  rfl

theorem isEmpty_entered (o : Occurrence δ) : o.entered.2.isEmpty = !o.isDirected := by
  rw [entered_eq, Commands.isEmpty_ofComments, Directive.isEmpty_ofComments]
  rfl

theorem lastCommands?_eq_none_iff {os : List (Occurrence δ)} {name : Text} :
    lastCommands? os name = none ↔ ∀ o ∈ os, o.piece.name = name → o.isDirected = false := by
  simp [lastCommands?, entry?_eq_none_iff]

theorem lastCommands?_concat (os : List (Occurrence δ)) (o : Occurrence δ) (name : Text) :
    lastCommands? (os ++ [o]) name =
      if o.piece.name = name then o.entry?.or (lastCommands? os name)
        else lastCommands? os name := by
  unfold lastCommands?
  by_cases hname : o.piece.name = name
  · cases hentry : o.entry? <;> simp [List.filter_append, hname, hentry]
  · simp [List.filter_append, hname]

theorem lastCommands?_append {os post : List (Occurrence δ)} {name : Text}
    (hpost : ∀ q ∈ post, q.piece.name ≠ name) :
    lastCommands? (os ++ post) name = lastCommands? os name := by
  have hnone : post.filter (·.piece.name == name) = [] := by simpa using hpost
  simp [lastCommands?, hnone]

end Occurrence

namespace Extraction

open Occurrence

variable {δ : Type}

theorem get?_commands_addAll (os : List (Occurrence δ)) (name : Text) :
    (addAll {} (os.map entered)).commands.get? name = lastCommands? os name := by
  induction os using List.reverseRecOn with
  | nil => rfl
  | append_singleton os o ih =>
    have hlast : (addAll {} ((os ++ [o]).map entered)).commands =
        if o.entered.2.isEmpty then (addAll {} (os.map entered)).commands
        else (addAll {} (os.map entered)).commands.add o.piece.name o.entered.2 := by
      rw [List.map_append, addAll_append]
      rfl
    rw [hlast, isEmpty_entered, lastCommands?_concat, ← ih, entered_eq, entry?]
    cases o.isDirected with
    | false => simp
    | true =>
      simp only [Bool.not_true, Bool.false_eq_true, if_false, if_true, Option.some_or,
        Table.get?_add, eq_comm]

theorem get?_isSome_addAll {os : List (Occurrence δ)} {o : Occurrence δ} (ho : o ∈ os) :
    ((addAll {} (os.map entered)).table.get? o.piece.name).isSome := by
  induction os using List.reverseRecOn with
  | nil => contradiction
  | append_singleton os x ih =>
    have hlast : (addAll {} ((os ++ [x]).map entered)).table =
        Pieces.add (addAll {} (os.map entered)).table x.piece := by
      rw [List.map_append, addAll_append]
      rfl
    rw [hlast, Pieces.add, Table.get?_add]
    by_cases hname : o.piece.name = x.piece.name
    · rw [if_pos hname]
      rfl
    · rw [if_neg hname]
      refine ih ((List.mem_append.mp ho).resolve_right fun hx => hname ?_)
      rw [List.mem_singleton.mp hx]

theorem addAll_single (o : Occurrence δ) :
    (addAll {} [o.entered]).table.entries = [(o.piece.name, o.piece)] ∧
      (addAll {} [o.entered]).commandsOf o.piece.name = Commands.ofComments o.comments := by
  refine ⟨rfl, ?_⟩
  have hget := get?_commands_addAll [o] o.piece.name
  rw [List.map_singleton] at hget
  rw [commandsOf, hget, ← List.nil_append [o], lastCommands?_concat, if_pos rfl, entry?]
  cases hdirected : o.isDirected with
  | true => rfl
  | false =>
    have hnone : Directive.ofComments o.comments = [] := by
      rw [← List.isEmpty_iff, Directive.isEmpty_ofComments]
      simpa [isDirected] using hdirected
    rw [Commands.ofComments, hnone]
    rfl

/-- Every name that occurs is held, with the last piece of that name. It is held with the directives
above it just when it has one or no namesake before it has; otherwise with those of the last such
namesake. -/
def Attaches (x : Extraction δ) (os : List (Occurrence δ)) : Prop :=
  (∀ o ∈ os, (x.table.get? o.piece.name).isSome) ∧
  ∀ name p, x.table.get? name = some p →
    ∃ pre o post, os = pre ++ o :: post ∧ o.piece = p ∧ p.name = name ∧
      (∀ q ∈ post, q.piece.name ≠ name) ∧
      (x.commands.get? name = o.entry? ↔
        o.isDirected ∨ ∀ q ∈ pre, q.piece.name = name → q.isDirected = false) ∧
      x.commands.get? name = o.entry?.or (lastCommands? pre name)

theorem attaches_addAll (os : List (Occurrence δ)) : Attaches (addAll {} (os.map entered)) os := by
  refine ⟨fun o => get?_isSome_addAll, ?_⟩
  intro name p hget
  obtain ⟨rfl, pre, c, post, hsplit, hpost⟩ := mem_addAll.mp (Table.mem_of_get?_eq_some hget)
  obtain ⟨pre, rest, rfl, -, hrest⟩ := List.map_eq_append_iff.mp hsplit
  obtain ⟨o, post, rfl, ho, rfl⟩ := List.map_eq_cons_iff.mp hrest
  obtain rfl : o.piece = p := congrArg Prod.fst ho
  have hpost' : ∀ q ∈ post, q.piece.name ≠ o.piece.name :=
    fun q hq => hpost _ (List.mem_map_of_mem hq)
  have hcommands : (addAll {} ((pre ++ o :: post).map entered)).commands.get? o.piece.name =
      o.entry?.or (lastCommands? pre o.piece.name) := by
    rw [get?_commands_addAll, ← List.singleton_append, ← List.append_assoc,
      lastCommands?_append hpost', lastCommands?_concat, if_pos rfl]
  refine ⟨pre, o, post, rfl, rfl, rfl, hpost', ?_, hcommands⟩
  rw [hcommands, ← lastCommands?_eq_none_iff]
  cases hentry : o.entry? with
  | none => simp [entry?_eq_none_iff.mp hentry]
  | some c =>
    have hdirected : o.isDirected = true := by
      by_contra hnot
      rw [entry?_eq_none_iff.mpr (by simpa using hnot)] at hentry
      contradiction
    simp [hdirected]

end Extraction

namespace Text

def linesAbove (t : Text) (n : Nat) : List Text := (Text.splitOn '\n' (t.take n)).dropLast

theorem stacked_eq {ls : List Text} (hls : ls ≠ []) : stacked ls = unlines ls ++ ['\n'] := by
  induction ls with
  | nil => contradiction
  | cons l ls ih =>
    cases ls with
    | nil => simp [stacked, unlines, join]
    | cons m ls =>
      rw [stacked_cons, ih (by simp), unlines_cons_cons, List.append_assoc, List.cons_append]

theorem exists_linesAbove (t : Text) (n : Nat) :
    ∃ l, t.take n = stacked (t.linesAbove n) ++ l ∧ '\n' ∉ l ∧ ∀ m ∈ t.linesAbove n, '\n' ∉ m := by
  have hlines := newline_not_mem_of_splitOn (t.take n)
  by_cases hnewline : '\n' ∈ t.take n
  · obtain ⟨u, l, hu, hl⟩ := exists_last_line hnewline
    have habove : t.linesAbove n = u.splitOn '\n' := by
      rw [linesAbove, hu, splitOn_append_newline, splitOn_of_not_mem hl, List.dropLast_concat]
    have hsome : u.splitOn '\n' ≠ [] := by
      obtain ⟨first, rest, hsplit⟩ := exists_splitOn_cons u
      simp [hsplit]
    refine ⟨l, ?_, hl, fun m hm => hlines m (List.mem_of_mem_dropLast hm)⟩
    rw [habove, stacked_eq hsome, unlines_splitOn, hu, List.append_assoc, List.singleton_append]
  · have habove : t.linesAbove n = [] := by
      rw [linesAbove, splitOn_of_not_mem hnewline]
      rfl
    rw [habove]
    exact ⟨t.take n, rfl, hnewline, by simp⟩

end Text

namespace Item.Function

/-- The comments in the run of comment and attribute lines above the line of an offset; there are
none where something else stands before the offset on its line. -/
def commentsAbove (source : Text) (start : Nat) : List Text :=
  if Text.isBlankText (source.slice (source.lineStart start) start) then
    (((source.linesAbove start).map Text.trim).rtakeWhile isPrelude).filter fun l =>
      (attribute? l).isNone
  else []

def occurrences (d : Document) (keepDirectives : Bool) : List (Occurrence Details) :=
  (found d).map fun f =>
    ⟨(build d keepDirectives f.start f.header f.extent).1, commentsAbove d.source f.start⟩

theorem Found.remarks_eq {d : Document} {f : Found} (hf : f.start ≤ d.source.length) :
    f.remarks d = commentsAbove d.source f.start := by
  unfold Found.remarks Found.above Found.leads commentsAbove
  split
  · obtain ⟨l, htake, hl, hlines⟩ := d.source.exists_linesAbove f.start
    have hsource : d.source = Text.stacked (d.source.linesAbove f.start) ++
        (l ++ d.source.drop f.start) := by
      rw [← List.append_assoc, ← htake, List.take_append_drop]
    have hstart : f.start = (Text.stacked (d.source.linesAbove f.start)).length + l.length := by
      rw [← List.length_append, ← htake, List.length_take, Nat.min_eq_left hf]
    generalize d.source.linesAbove f.start = ls at hlines hsource hstart ⊢
    have hline : d.source.lineStart f.start = (Text.stacked ls).length := by
      rw [hsource, hstart]
      exact Text.lineStart_append (Text.last_of_stacked ls) hl _
    have hfuel : ls.length ≤ (Text.stacked ls).length := Text.length_le_flatMap_concat ls '\n'
    obtain ⟨es, hes, htexts, -⟩ := preludeAbove_lines hlines hsource hfuel []
    rw [hline, prelude, hes, List.append_nil, ← htexts, List.filter_map]
    rfl
  · rfl

theorem extract_eq_addAll (d : Document) (keepDirectives : Bool) :
    extract d keepDirectives =
      Extraction.addAll {} ((occurrences d keepDirectives).map Occurrence.entered) := by
  rw [extract_eq, occurrences, List.map_map]
  congr 1
  refine List.map_congr_left fun f hf => ?_
  obtain ⟨t, ht⟩ := f.exists_build_eq d keepDirectives
  rw [Found.remarks_eq (Nat.le_of_lt (Found.lt_length (site_of_mem hf)))] at ht
  simp only [Function.comp_apply, Occurrence.entered, ht]

end Item.Function

namespace Style

structure Spelled where
  node : Node
  start : Nat
  text : Text

def spell (source : Text) (offsets : Array Nat) : List Node → List Spelled
  | [] => []
  | n :: ns =>
    let stop := (ns.head?.map fun m => offsetOf offsets m.place).getD source.length
    ⟨n, offsetOf offsets n.place,
      source.slice (offsetOf offsets n.place) stop⟩ :: spell source offsets ns

/-- What can stand between a rule and the comments above it: comments, and blanks without an empty
line. -/
def Spelled.isNear (s : Spelled) : Bool :=
  match s.node with
  | .blank _ t => !Text.Pattern.emptyLine.occursIn t
  | .comment _ => true
  | _ => false

def Spelled.isComment (s : Spelled) : Bool :=
  match s.node with
  | .comment _ => true
  | _ => false

def Spelled.title? (s : Spelled) : Option (Text × Bool) :=
  match s.node with
  | .rule _ selector => some (canonical selector, true)
  | .atRule _ keyword prelude => some (atName keyword prelude, false)
  | _ => none

def commentsAbove (pre : List Spelled) : List (Nat × Text) :=
  ((pre.rtakeWhile (·.isNear)).filter (·.isComment)).map fun s => (s.start, s.text)

def occurrencesFrom (pre : List Spelled) : List Spelled → List (Occurrence (Option Details))
  | [] => []
  | s :: ss =>
    let rest := occurrencesFrom (pre ++ [s]) ss
    match s.title? with
    | some (name, isRule) =>
      ⟨(build name isRule s.start s.text.trimEnd (commentsAbove pre)).1,
        (commentsAbove pre).map (·.2)⟩ :: rest
    | none => rest

def occurrences (source : Text) (ns : List Node) : List (Occurrence (Option Details)) :=
  occurrencesFrom []
    (spell source (Text.lineOffsets Text.isBreak source ++ [source.length]).toArray ns)

theorem commentsAbove_concat (pre : List Spelled) (s : Spelled) :
    commentsAbove (pre ++ [s]) =
      if s.isNear then commentsAbove pre ++ (if s.isComment then [(s.start, s.text)] else [])
        else [] := by
  unfold commentsAbove
  by_cases hnear : s.isNear
  · rw [List.rtakeWhile_concat_pos _ _ _ hnear, if_pos hnear]
    by_cases hcomment : s.isComment <;> simp [hcomment]
  · rw [List.rtakeWhile_concat_neg _ _ _ hnear, if_neg hnear]
    rfl

theorem extractFrom_eq_addAll (source : Text) (offsets : Array Nat) (pre : List Spelled)
    (ns : List Node) (x : Extraction (Option Details)) :
    extractFrom source offsets (commentsAbove pre) ns x =
      x.addAll ((occurrencesFrom pre (spell source offsets ns)).map Occurrence.entered) := by
  induction ns generalizing pre x with
  | nil => rfl
  | cons n ns ih =>
    rw [spell]
    generalize hstop : (ns.head?.map fun m => offsetOf offsets m.place).getD source.length = stop
    have hnext :=
      ih (pre ++ [⟨n, offsetOf offsets n.place, source.slice (offsetOf offsets n.place) stop⟩])
    rw [commentsAbove_concat] at hnext
    cases n with
    | blank p t =>
      have habove : (if Text.Pattern.emptyLine.occursIn t then [] else commentsAbove pre) =
          if !Text.Pattern.emptyLine.occursIn t then commentsAbove pre ++ [] else [] := by
        cases Text.Pattern.emptyLine.occursIn t <;> simp
      simp only [extractFrom, habove]
      exact hnext x
    | comment p =>
      simp only [extractFrom, hstop]
      exact hnext x
    | rule p selector =>
      simp only [extractFrom, hstop]
      exact hnext _
    | atRule p keyword prelude =>
      simp only [extractFrom, hstop]
      exact hnext _
    | broken p => exact hnext x

theorem extract_eq_addAll (source : Text) (ns : List Node) :
    extract source ns = Extraction.addAll {} ((occurrences source ns).map Occurrence.entered) :=
  extractFrom_eq_addAll source _ [] ns {}

end Style

/-- Whatever is extracted from a source or a sheet, each piece that is held is the last of its name,
and it is held with the directives above it just when it has one or no namesake before it has. -/
theorem extract_attaches (d : Item.Document) (keepDirectives : Bool) (source : Text)
    (ns : List Style.Node) :
    (Item.Function.extract d keepDirectives).Attaches (Item.Function.occurrences d keepDirectives) ∧
      (Style.extract source ns).Attaches (Style.occurrences source ns) := by
  rw [Item.Function.extract_eq_addAll, Style.extract_eq_addAll]
  exact ⟨Extraction.attaches_addAll _, Extraction.attaches_addAll _⟩

/-- Of two functions of one name, each with a directive, the last is held with its own. -/
theorem extract_attaches_namesakes :
    let source : Text := "// @delete\nfn a() \x7b\x7d\n// @rename b\nfn a() \x7b 1 \x7d\n".toList
    ∃ d p pre o post, Item.Document.scan source = .ok d ∧
      (Item.Function.extract d false).table.get? ['a'] = some p ∧
      Item.Function.occurrences d false = pre ++ o :: post ∧ o.piece = p ∧ p.start = 21 ∧
      o.comments = ["// @rename b".toList] ∧
      (Item.Function.extract d false).commands.get? ['a'] =
        some { rename := some ['b'], seen := [.rename] } := by
  intro source
  have hok : (Item.Document.scan source).isOk := by decide +kernel
  have hscan : ∀ d ∈ (Item.Document.scan source).toOption,
      ∃ p ∈ (Item.Function.extract d false).table.get? ['a'], p.start = 21 ∧
        ∀ o ∈ Item.Function.occurrences d false, o.piece.start = 21 →
          o.comments = ["// @rename b".toList] ∧ o.isDirected ∧
            o.entry? = some { rename := some ['b'], seen := [.rename] } := by
    decide +kernel
  obtain ⟨d, hd⟩ := Item.Document.exists_of_isOk hok
  obtain ⟨p, hp, hstart, hall⟩ := hscan d (by rw [hd]; rfl)
  obtain ⟨pre, o, post, hsplit, hpiece, -, -, hown, -⟩ :=
    (extract_attaches d false [] []).1.2 ['a'] p hp
  obtain ⟨hcomments, hdirected, hentry⟩ := hall o (by simp [hsplit]) (hpiece ▸ hstart)
  exact ⟨d, p, pre, o, post, hd, hp, hsplit, hpiece, hstart, hcomments,
    (hown.mpr (Or.inl hdirected)).trans hentry⟩

/-- A function without directives is held with those of a namesake above it. -/
theorem extract_attaches_to_namesake :
    let source : Text := "// @rename b\nfn a() \x7b\x7d\nfn a() \x7b 1 \x7d\n".toList
    ∃ d p, Item.Document.scan source = .ok d ∧
      (Item.Function.extract d false).table.get? ['a'] = some p ∧
      p.start = 23 ∧ Item.Function.commentsAbove source 23 = [] ∧
      (Item.Function.extract d false).commands.get? ['a'] =
        some { rename := some ['b'], seen := [.rename] } := by
  intro source
  have hok : (Item.Document.scan source).isOk ∧ Item.Function.commentsAbove source 23 = [] := by
    decide +kernel
  have hscan : ∀ d ∈ (Item.Document.scan source).toOption,
      (∃ p ∈ (Item.Function.extract d false).table.get? ['a'], p.start = 23) ∧
        (Item.Function.extract d false).commands.get? ['a'] =
          some { rename := some ['b'], seen := [.rename] } := by
    decide +kernel
  obtain ⟨d, hd⟩ := Item.Document.exists_of_isOk hok.1
  obtain ⟨⟨p, hp, hstart⟩, hcommands⟩ := hscan d (by rw [hd]; rfl)
  exact ⟨d, p, hd, hp, hstart, hok.2, hcommands⟩

end Graft
