import Graft.Proofs.Frame
import Graft.Proofs.Lines
import Graft.Proofs.Members

set_option autoImplicit false

/-!
Merged Python classes: the rows of a body are replaced, or what follows the header in its row.
-/

namespace Graft

namespace Suite

open ClassMerge

/-- The characters that end a row; a carriage return and the newline behind it end one row
together. -/
def isRowEnd (c : Char) : Bool := c == '\n' || c == '\r'

/-- No other character ends a line. -/
def hasPlainRows (host : Text) : Bool := host.all fun c => Text.isBreak c == isRowEnd c

def rowCount (host : Text) : Nat := (Text.linesBy isRowEnd host).length

def row (host : Text) (n : Nat) : Text := ((Text.linesBy isRowEnd host)[n - 1]?.map (·.1)).getD []

def rowStart (host : Text) (n : Nat) : Nat := Text.rowStart isRowEnd host (n - 1)

def rowStop (host : Text) (n : Nat) : Nat := rowStart host n + (row host n).length

section

variable {host : Text}

theorem linesBy_of_hasPlainRows (h : hasPlainRows host) :
    Text.linesBy Text.isBreak host = Text.linesBy isRowEnd host :=
  Text.linesBy_congr fun c hc => eq_of_beq (List.all_eq_true.mp h c hc)

theorem line_ofText (h : hasPlainRows host) (n : Nat) :
    (Source.ofText host).line n = row host n := by
  rw [Source.line, Source.ofText, Text.lines, linesBy_of_hasPlainRows h, row]
  simp

theorem offset_eq (h : hasPlainRows host) {n : Nat} (hn : 1 ≤ n) (hcount : n ≤ rowCount host) :
    (Text.lineOffsets Text.isBreak host).toArray.getD (n - 1) 0 = rowStart host n := by
  have hlt : n - 1 < (Text.linesBy isRowEnd host).length := by
    unfold rowCount at hcount
    omega
  rw [Text.lineOffsets_eq, rowStart]
  simp [Text.rowStart, linesBy_of_hasPlainRows h, hlt]

theorem rowStop_le (n : Nat) (hn : 1 ≤ n) : rowStop host n ≤ rowStart host (n + 1) := by
  obtain ⟨k, rfl⟩ := Nat.exists_eq_add_of_le' hn
  rw [rowStop, rowStart, rowStart, row, Nat.add_sub_cancel, Nat.add_sub_cancel]
  cases hrow : (Text.linesBy isRowEnd host)[k]? with
  | none => exact Text.rowStart_mono host (Nat.le_succ k)
  | some l =>
    rw [Text.rowStart_succ hrow]
    simp

theorem rowStart_mono {m n : Nat} (h : m ≤ n) : rowStart host m ≤ rowStart host n :=
  Text.rowStart_mono host (by omega)

theorem rowStart_le_rowStop {m n : Nat} (h : m ≤ n) : rowStart host m ≤ rowStop host n :=
  Nat.le_trans (rowStart_mono h) (Nat.le_add_right _ _)

theorem rowStop_mono {m n : Nat} (hm : 1 ≤ m) (h : m ≤ n) : rowStop host m ≤ rowStop host n := by
  rcases Nat.lt_or_eq_of_le h with h | rfl
  · exact Nat.le_trans (rowStop_le m hm) (rowStart_le_rowStop h)
  · exact Nat.le_refl _

end

def ClassBody.first (c : ClassBody) : Place := (c.body.head?.map (·.place)).getD c.place

def before (host : Text) (c : ClassBody) : Text :=
  (row host c.first.line).take (charsIn c.first.column (row host c.first.line))

def headerStop (host : Text) (c : ClassBody) : Nat :=
  rowStart host c.first.line + (before host c).trimEnd.length

/-- The row that a body starts with, the comments above its first statement included; those are
found by counting newlines alone. -/
def firstRow (host : Text) (c : ClassBody) : Nat :=
  Member.commentStart (Rows.ofSource host) c.place.line c.first.first

/-- The stretch of a class that is replaced: what follows the header, if the body starts in the row
of the class, else the rows of the body. -/
def replacedRange (host : Text) (c : ClassBody) : Nat × Nat :=
  (if c.first.line == c.place.line then headerStop host c else rowStart host (firstRow host c),
    rowStop host c.place.stop)

/-- The stretch of a body: what follows the header, if the two share a row, else the rows of the
body. -/
def bodyRange (host : Text) (c : ClassBody) : Nat × Nat :=
  (if c.first.line == c.place.line || !(before host c).isBlankText then headerStop host c
    else rowStart host (firstRow host c), rowStop host c.place.stop)

/-- The header goes on in a later row, and there the body starts. -/
def sharesLaterRow (host : Text) (c : ClassBody) : Bool :=
  c.first.line != c.place.line && !(before host c).isBlankText

/-- Classes as a parser reports them: each within the rows of the source, with its first statement
inside it, and each below the one before. -/
def InRows (host : Text) (classes : List ClassBody) : Prop :=
  (∀ c ∈ classes, 1 ≤ c.place.line ∧ c.place.line ≤ c.first.first ∧ c.first.first ≤ c.first.line ∧
    c.first.line ≤ c.place.stop ∧ c.place.stop ≤ rowCount host) ∧
  classes.Pairwise fun c d => c.place.stop < d.place.line

instance (host : Text) (classes : List ClassBody) : Decidable (InRows host classes) :=
  inferInstanceAs (Decidable (_ ∧ _))

theorem commentStart_le (rows : Rows) (limit n : Nat) : Member.commentStart rows limit n ≤ n := by
  induction n with
  | zero => exact Nat.le_refl 0
  | succ n ih =>
    rw [Member.commentStart]
    split
    · exact Nat.le_succ_of_le ih
    · exact Nat.le_refl _

theorem le_commentStart (rows : Rows) {limit n : Nat} (h : limit ≤ n) :
    limit ≤ Member.commentStart rows limit n := by
  induction n with
  | zero => exact h
  | succ n ih =>
    rw [Member.commentStart]
    split
    · next hrow =>
      have hlt : limit < n := by simpa using (Bool.and_eq_true_iff.mp hrow).1
      exact ih (Nat.le_of_lt hlt)
    · exact h

theorem headerStop_le (host : Text) (c : ClassBody) :
    headerStop host c ≤ rowStop host c.first.line := by
  have htrim : (before host c).trimEnd.length ≤ (before host c).length := by
    obtain ⟨b, hb, -⟩ := Text.exists_dropLastWhile_append Text.isBlank (before host c)
    have hlength := congrArg List.length hb
    rw [List.length_append] at hlength
    unfold Text.trimEnd
    omega
  have htake : (before host c).length ≤ (row host c.first.line).length := List.length_take_le' _ _
  unfold headerStop rowStop
  omega

section

variable {host : Text} {c : ClassBody} {hosts : List ClassBody}

theorem InRows.replacedRange_le (h : InRows host hosts) (hc : c ∈ hosts) :
    rowStart host c.place.line ≤ (replacedRange host c).1 ∧
      (replacedRange host c).1 ≤ (replacedRange host c).2 := by
  obtain ⟨hline, hfirst, hdecorated, hstop, hcount⟩ := h.1 c hc
  unfold replacedRange
  split
  · next hsame =>
    refine ⟨?_, Nat.le_trans (headerStop_le host c) (rowStop_mono (by omega) hstop)⟩
    rw [headerStop, eq_of_beq hsame]
    exact Nat.le_add_right _ _
  · refine ⟨rowStart_mono (le_commentStart _ hfirst), rowStart_le_rowStop ?_⟩
    have hle := commentStart_le (Rows.ofSource host) c.place.line c.first.first
    unfold firstRow
    omega

theorem InRows.inOrder (h : InRows host hosts) :
    InOrder host.length (hosts.map (replacedRange host)) := by
  constructor
  · intro r hr
    obtain ⟨c, hc, rfl⟩ := List.mem_map.mp hr
    obtain ⟨hline, hfirst, hdecorated, hstop, hcount⟩ := h.1 c hc
    refine ⟨(h.replacedRange_le hc).2, ?_⟩
    exact Nat.le_trans (rowStop_le c.place.stop (by omega)) (Text.rowStart_le_length host _)
  · refine List.pairwise_map.mpr (h.2.imp_of_mem fun {c d} hc hd hbelow => ?_)
    obtain ⟨hline, hfirst, hdecorated, hstop, hcount⟩ := h.1 c hc
    exact Nat.le_trans (rowStop_le c.place.stop (by omega))
      (Nat.le_trans (rowStart_mono hbelow) (h.replacedRange_le hd).1)

theorem InRows.replacedRange_eq_iff (h : InRows host hosts) (hc : c ∈ hosts) :
    replacedRange host c = bodyRange host c ↔ sharesLaterRow host c = false := by
  obtain ⟨hline, hfirst, hdecorated, hstop, hcount⟩ := h.1 c hc
  unfold replacedRange bodyRange sharesLaterRow
  by_cases hsame : c.first.line = c.place.line
  · simp [hsame]
  · cases hblank : (before host c).isBlankText with
    | true => simp
    | false =>
      have hne : (before host c).trimEnd ≠ [] := by
        intro hnil
        rw [Text.isBlankText_of_trimEnd hnil] at hblank
        contradiction
      have hpos := List.length_pos_of_ne_nil hne
      have hle : rowStart host (firstRow host c) ≤ rowStart host c.first.line := by
        refine rowStart_mono (Nat.le_trans (commentStart_le _ _ _) hdecorated)
      -- The row starts before the header ends in it, so the end of the header is among what is
      -- replaced.
      have hlt : rowStart host (firstRow host c) < headerStop host c := by
        unfold headerStop
        omega
      simp [hsame]
      omega

theorem range_of_renderBody (h : InRows host hosts) (hc : c ∈ hosts) {offsets : Array Nat}
    (hrow : ∀ n, 1 ≤ n → n ≤ c.place.stop →
      offsets.getD (n - 1) 0 = rowStart host n ∧ (Source.ofText host).line n = row host n)
    {t : Pieces Details} {r : Replacement} (hr : renderBody (.ofText host) offsets c t = .ok r) :
    (r.start, r.stop) = replacedRange host c := by
  obtain ⟨hline, hfirst, hdecorated, hstop, hcount⟩ := h.1 c hc
  have hplace : (c.body.head?.map (·.place)).getD c.place = c.first := rfl
  have hrows : (Source.ofText host).rows = Rows.ofSource host := rfl
  have hstart : (opening (.ofText host) offsets c).1 = (replacedRange host c).1 := by
    obtain ⟨hoffset, hline⟩ := hrow c.first.line (by omega) hstop
    simp only [opening, hplace, hrows, hoffset, hline, replacedRange]
    split
    · rfl
    · have hle := commentStart_le (Rows.ofSource host) c.place.line c.first.first
      have hge := le_commentStart (Rows.ofSource host) hfirst
      exact (hrow _ (by omega) (by omega)).1
  obtain ⟨members, -, hr⟩ := Traced.exists_of_bind hr
  obtain rfl := Except.ok.inj hr
  refine Prod.ext hstart ?_
  obtain ⟨hoffset, hlast⟩ := hrow c.place.stop (by omega) (Nat.le_refl _)
  simp only [replacedRange, hoffset, hlast]
  rfl

end

/-- What can make a merge fail: rows indented like none before them, a formatted text that cannot be
printed, and in strict mode a directive. -/
def IsFailure (o : Options) (e : Error) : Prop :=
  e = .badIndentation ∨ e = .unprintable ∨ o.isStrict ∧ ∃ w, e = .directive w

section

variable {o : Options} {e : Error} {s : Source} {c : ClassBody} {keepDirectives : Bool}

theorem error_of_require {α : Type} {a? : Option α} (h : Member.require a? = .error e) :
    e = .unprintable := by
  cases a? with
  | none => exact (Except.error.inj h).symm
  | some a => contradiction

theorem error_of_ofStatement {index : Nat} {text : Text} {details : Details}
    (h : Member.ofStatement index text details = .error e) : e = .unprintable := by
  unfold Member.ofStatement at h
  split at h
  · contradiction
  · rcases Traced.error_of_bind h with h | ⟨ds, -, h⟩
    · exact error_of_require h
    rcases Traced.error_of_bind h with h | ⟨ps, -, h⟩
    · exact error_of_require h
    rcases Traced.error_of_bind h with h | ⟨t, -, h⟩
    · exact error_of_require h
    contradiction
  · split at h <;> contradiction

theorem error_of_allFrom {index above : Nat} {b : Block}
    (h : Member.allFrom s c keepDirectives index above b = .error e) : e = .unprintable := by
  induction b generalizing index above with
  | nil => contradiction
  | cons st rest ih =>
    rcases Traced.error_of_bind h with h | ⟨first, -, h⟩
    · rcases Traced.error_of_bind h with h | ⟨m, -, h⟩
      · exact error_of_ofStatement h
      · contradiction
    · rcases Traced.error_of_bind h with h | ⟨later, -, h⟩
      · exact ih h
      · contradiction

theorem failure_of_extract (h : Member.extract s c keepDirectives = .error e) : IsFailure o e := by
  rw [Member.extract_eq] at h
  unfold Member.all at h
  split at h
  · exact .inl (Except.error.inj h).symm
  · cases hall : Member.allFrom s c keepDirectives 0 c.place.line c.body with
    | ok members =>
      rw [hall] at h
      contradiction
    | error e' =>
      rw [hall] at h
      obtain rfl := Except.error.inj h
      exact .inr (.inl (error_of_allFrom hall))

theorem failure_of_renderBody {offsets : Array Nat} {t : Pieces Details}
    (h : renderBody s offsets c t = .error e) : IsFailure o e := by
  rcases Traced.error_of_bind h with h | ⟨members, -, h⟩
  · obtain ⟨m, -, hm⟩ := Traced.exists_of_mapM_error h
    unfold memberText at hm
    split at hm
    · rcases Traced.error_of_bind hm with hm | ⟨body, -, hm⟩
      · exact .inr (.inl (error_of_require hm))
      · contradiction
    · split at hm <;> contradiction
  · contradiction

end

section

variable {o : Options} {host snippet : Source} {hosts : List ClassBody} {i : Nat} {c : ClassBody}
  {p p' : ClassMerge Details} {st : Placed Stmt} {new : Block}

def added? (o : Options) (snippet : Source) (hosts : List ClassBody) (st : Placed Stmt) :
    Option Text :=
  (ClassBody.of? st).bind fun n =>
    if isUnknown o (hosts.map (·.name)) n.name then some (classText snippet n) else none

theorem added_of_step (h : (step o host snippet hosts p st).result = .ok p') :
    p'.added = p.added ++ (added? o snippet hosts st).toList := by
  unfold added?
  cases stepped_of_step h with
  | skipped hof ws => simp [hof, warn]
  | homeless n hof hindex hcontainer => simp [hof, isUnknown, hcontainer, warn]
  | added n hof hindex hcontainer =>
    have hunknown : isUnknown o (hosts.map (·.name)) n.name :=
      isUnknown_iff.mpr ⟨hindex, hcontainer⟩
    simp [hof, hunknown, ClassMerge.add]
  | entered n i old t x ws hof hindex hold hx ht =>
    have hknown : isUnknown o (hosts.map (·.name)) n.name = false := by
      rw [Bool.eq_false_iff, Ne, isUnknown_iff, hindex]
      simp
    simp [hof, hknown, warn, setTable]

def Targets (o : Options) (hosts : List ClassBody) (i : Nat) (st : Placed Stmt) : Prop :=
  ∃ n, ClassBody.of? st = some n ∧ hostIndex? o (hosts.map (·.name)) n.name = some i

theorem not_targets {n : ClassBody} (hof : ClassBody.of? st = some n)
    (hindex : hostIndex? o (hosts.map (·.name)) n.name = none) : ¬Targets o hosts i st := by
  rintro ⟨n', hn', hi⟩
  obtain rfl := Option.some.inj (hof.symm.trans hn')
  rw [hindex] at hi
  contradiction

theorem targets_of_step (hc : hosts[i]? = some c)
    (hp : (p.tables.lookup i).isSome → (Member.extract host c true).isOk)
    (h : (step o host snippet hosts p st).result = .ok p') :
    ((p'.tables.lookup i).isSome → (p.tables.lookup i).isSome ∨ Targets o hosts i st) ∧
      (Targets o hosts i st → (Member.extract host c true).isOk ∧
        (unit? o snippet hosts i st).isSome) := by
  cases stepped_of_step h with
  | skipped hof ws => exact ⟨Or.inl, fun ⟨n, hn, _⟩ => by simp [hof] at hn⟩
  | homeless n hof hindex hcontainer =>
    exact ⟨Or.inl, fun htarget => absurd htarget (not_targets hof hindex)⟩
  | added n hof hindex hcontainer =>
    exact ⟨Or.inl, fun htarget => absurd htarget (not_targets hof hindex)⟩
  | entered n j old t x ws hof hindex hold hx ht =>
    refine ⟨fun hsome => ?_, fun ⟨n', hn', hi⟩ => ?_⟩
    · rw [warn, lookup_setTable] at hsome
      split at hsome
      · next heq => exact .inr ⟨n, hof, heq ▸ hindex⟩
      · exact .inl hsome
    · obtain rfl := Option.some.inj (hof.symm.trans hn')
      obtain rfl := Option.some.inj (hindex.symm.trans hi)
      refine ⟨?_, by simp [unit?, hof, hindex, hx, Except.toOption]⟩
      unfold membersOf at hold
      cases hlookup : p.tables.lookup j with
      | some t => exact hp (by simp [hlookup])
      | none =>
        simp only [hlookup, hc] at hold
        obtain ⟨base, hbase, -⟩ := Traced.exists_of_map hold
        rw [hbase]
        rfl

theorem failure_of_step {e : Error} (h : (step o host snippet hosts p st).result = .error e) :
    IsFailure o e := by
  simp only [step] at h
  split at h
  · split at h <;> contradiction
  · split at h
    · split at h <;> contradiction
    · simp only [Traced.result_bind, Traced.result_ofExcept] at h
      rcases Traced.error_of_bind h with h | ⟨old, -, h⟩
      · unfold membersOf at h
        split at h
        · contradiction
        · split at h
          · exact failure_of_extract (Traced.error_of_map h)
          · contradiction
      rcases Traced.error_of_bind h with h | ⟨units, -, h⟩
      · exact failure_of_extract h
      rcases Traced.error_of_bind h with h | ⟨r, -, h⟩
      · exact .inr (.inr (error_of_reconcile h))
      · contradiction

theorem targets_of_foldlM (hc : hosts[i]? = some c)
    (hp : (p.tables.lookup i).isSome → (Member.extract host c true).isOk)
    (h : (new.foldlM (step o host snippet hosts) p).result = .ok p') :
    ((p'.tables.lookup i).isSome → (p.tables.lookup i).isSome ∨ ∃ st ∈ new, Targets o hosts i st) ∧
      ∀ st ∈ new, Targets o hosts i st → (Member.extract host c true).isOk ∧
        (unit? o snippet hosts i st).isSome := by
  induction new generalizing p with
  | nil =>
    obtain rfl := Except.ok.inj h
    exact ⟨Or.inl, by simp⟩
  | cons st new ih =>
    rw [List.foldlM_cons, Traced.result_bind] at h
    obtain ⟨p₁, hfirst, h⟩ := Traced.exists_of_bind h
    obtain ⟨hsome, hst⟩ := targets_of_step hc hp hfirst
    -- The state after the first statement has a table only for a class that could be taken apart,
    -- as `p` has.
    obtain ⟨hsome', hrest⟩ := ih (fun h₁ => (hsome h₁).elim hp fun htarget => (hst htarget).1) h
    refine ⟨fun h' => ?_, List.forall_mem_cons.mpr ⟨hst, hrest⟩⟩
    rcases hsome' h' with h₁ | ⟨st', hmem, htarget⟩
    · exact (hsome h₁).imp_right fun htarget => ⟨st, List.mem_cons_self, htarget⟩
    · exact .inr ⟨st', List.mem_cons_of_mem st hmem, htarget⟩

def targets (o : Options) (hosts : List ClassBody) (new : Block) : List (ClassBody × Nat) :=
  addressed o hosts (·.name) ((classes new).map (·.name))

def strangers (o : Options) (hosts : List ClassBody) (new : Block) : List ClassBody :=
  (classes new).filter fun n => isUnknown o (hosts.map (·.name)) n.name

theorem any_addresses_iff :
    (((classes new).map (·.name)).any fun name => Addresses o (hosts.map (·.name)) name i) ↔
      ∃ st ∈ new, Targets o hosts i st := by
  simp only [classes, List.any_map, List.any_eq_true, List.mem_filterMap, Function.comp,
    decide_eq_true_eq, Targets, hostIndex?_eq_some_iff]
  constructor
  · rintro ⟨n, ⟨st, hst, hof⟩, hi⟩
    exact ⟨st, hst, n, hof, hi⟩
  · rintro ⟨st, hst, n, hof, hi⟩
    exact ⟨n, ⟨st, hst, hof⟩, hi⟩

theorem lookup_of_foldlM (hc : hosts[i]? = some c)
    (h : (new.foldlM (step o host snippet hosts) {}).result = .ok p) :
    ((((classes new).map (·.name)).any fun name => Addresses o (hosts.map (·.name)) name i) =
      false →
      p.tables.lookup i = none) ∧
    ((((classes new).map (·.name)).any fun name => Addresses o (hosts.map (·.name)) name i) →
      ∃ base, Member.extract host c true = .ok base ∧
        p.tables.lookup i = some (enterAll Member.rules
        (o.placement.getD .moveToEnd) base.table (new.filterMap (unit? o snippet hosts i)))) := by
  obtain ⟨hsome, htargets⟩ := targets_of_foldlM hc (by simp) h
  constructor
  · intro hnone
    rw [← Bool.not_eq_true, any_addresses_iff] at hnone
    refine Option.not_isSome_iff_eq_none.mp fun hlookup => hnone ?_
    exact (hsome hlookup).resolve_left (by simp)
  · intro hany
    obtain ⟨st, hst, htarget⟩ := any_addresses_iff.mp hany
    obtain ⟨hok, hunit⟩ := htargets st hst htarget
    obtain ⟨base, hbase⟩ := Traced.exists_of_isOk hok
    refine ⟨base, hbase, ?_⟩
    have hne : (new.filterMap (unit? o snippet hosts i)).isEmpty = false := by
      obtain ⟨u, hu⟩ := Option.isSome_iff_exists.mp hunit
      exact List.isEmpty_eq_false_iff.mpr
        (List.ne_nil_of_mem (List.mem_filterMap.mpr ⟨st, hst, hu⟩))
    rw [lookup_foldlM (fun m a m' hstep => enters_of_step hc hbase hstep) h, hne]
    rfl

end

section

variable {o : Options} {host snippet : Text} {tree new : Block}

def statementsOf (o : Options) (snippet : Text) : Except Error Block :=
  if snippet.isBlankText then .ok [] else read (wrap o snippet)

def newBody (o : Options) (host snippet : Text) (hosts : List ClassBody) (new : Block)
    (e : ClassBody × Nat) :
    Except Error Replacement := do
  let base ← Member.extract (.ofText host) e.1 true
  renderBody (.ofText host) (Text.lineOffsets Text.isBreak host).toArray e.1 (enterAll Member.rules
    (o.placement.getD .moveToEnd) base.table (new.filterMap (unit? o (.ofText snippet) hosts e.2)))

def touched (hosts : List ClassBody) (p : ClassMerge Details) : List (ClassBody × Pieces Details) :=
  hosts.zipIdx.filterMap fun e => (p.tables.lookup e.2).bind fun t => some (e.1, t)

def document (host : Text) (hosts : List ClassBody) (p : ClassMerge Details) : Except Error Text :=
  ((touched hosts p).mapM fun e =>
    renderBody (.ofText host) (Text.lineOffsets Text.isBreak host).toArray e.1 e.2).map fun rs =>
      p.added.foldl (addClass "\n\n\n".toList) (replaceFrom host 0 rs)

theorem document_of_idle (hosts : List ClassBody) {p : ClassMerge Details} (htables : p.tables = [])
    (hadded : p.added = []) : document host hosts p = .ok host := by
  have hnone : touched hosts p = [] := by simp [touched, htables]
  rw [document, hnone, hadded]
  rfl

theorem result_of_merge (htree : read host = .ok tree) (hnew : statementsOf o snippet = .ok new) :
    (merge o host snippet).result.map (·.text) =
      (new.foldlM (step o (.ofText host) (.ofText (wrap o snippet)) (classes tree)) {}).result >>=
        document host (classes tree) := by
  unfold statementsOf at hnew
  unfold merge
  rw [Traced.result_bind, Traced.result_ofExcept, htree, Traced.ok_bind]
  split at hnew
  · next hblank =>
    obtain rfl := Except.ok.inj hnew
    rw [if_pos hblank]
    exact (document_of_idle (classes tree) rfl rfl).symm
  · next hblank =>
    simp only [hblank, Bool.false_eq_true, if_false, Traced.result_bind, Traced.result_ofExcept,
      hnew, Traced.ok_bind]
    cases (new.foldlM (step o (.ofText host) (.ofText (wrap o snippet)) (classes tree)) {}).result
      with
    | error e => rfl
    | ok p =>
      rw [Traced.ok_bind, Traced.ok_bind]
      by_cases hidle : p.isIdle
      · obtain ⟨htables, hadded⟩ := tables_of_isIdle hidle
        rw [if_pos hidle, document_of_idle (classes tree) htables hadded]
        rfl
      · have htouched :=
          filterMap_range (classes tree) fun c i => (p.tables.lookup i).bind fun t => some (c, t)
        rw [if_neg hidle, Traced.result_bind, Traced.result_ofExcept, document, touched, ← htouched]
        exact Traced.map_bind_ok _ _ _

theorem document_eq {p : ClassMerge Details}
    (h : (new.foldlM (step o (.ofText host) (.ofText snippet) (classes tree)) {}).result = .ok p) :
    document host (classes tree) p = ((targets o (classes tree) new).mapM
        (newBody o host snippet (classes tree) new)).map fun rs =>
      extended "\n\n\n".toList (replaceFrom host 0 rs)
        ((strangers o (classes tree) new).map (classText (.ofText snippet))) := by
  have hadd : p.added = (strangers o (classes tree) new).map (classText (.ofText snippet)) := by
    have hclasses : classes new = new.filterMap ClassBody.of? := rfl
    rw [added_foldlM (fun m st m' hstep => added_of_step hstep) h, List.nil_append, strangers,
      ← filterMap_eq_map_filter fun n _ => rfl, hclasses, List.filterMap_filterMap]
    rfl
  have hbodies : (touched (classes tree) p).mapM (fun e =>
        renderBody (.ofText host) (Text.lineOffsets Text.isBreak host).toArray e.1 e.2) =
      (targets o (classes tree) new).mapM (newBody o host snippet (classes tree) new) := by
    refine mapM_filterMap (fun e he hnone => ?_) fun e he hany => ?_
    · rw [(lookup_of_foldlM (List.mem_zipIdx_iff_getElem?.mp he) h).1 hnone]
      rfl
    · obtain ⟨base, hbase, hlookup⟩ :=
        (lookup_of_foldlM (List.mem_zipIdx_iff_getElem?.mp he) h).2 hany
      rw [hlookup]
      refine ⟨_, rfl, ?_⟩
      rw [newBody, hbase]
      rfl
  rw [document, hbodies, hadd]
  exact congrArg (Except.map · _) (funext fun rs => foldl_addClass _ _ _)

theorem frame_of_merge (htree : read host = .ok tree) (hnew : statementsOf o snippet = .ok new)
    (hplain : hasPlainRows host) (hrows : InRows host (classes tree)) {report : Report}
    (h : (merge o host snippet).result = .ok report) :
    ∃ rs doc, (targets o (classes tree) new).mapM
      (newBody o host (wrap o snippet) (classes tree) new) = .ok rs ∧
      Framed host doc ((targets o (classes tree) new).map fun e => replacedRange host e.1)
        (rs.map (·.text)) ∧
      report.text = extended "\n\n\n".toList doc
        ((strangers o (classes tree) new).map (classText (.ofText (wrap o snippet)))) := by
  have hresult := result_of_merge htree hnew
  rw [h] at hresult
  obtain ⟨p, hp, hdocument⟩ := Traced.exists_of_bind hresult.symm
  rw [document_eq hp] at hdocument
  obtain ⟨rs, hrs, htext⟩ := Traced.exists_of_map hdocument
  have hsublist := addressed_sublist o (classes tree) (·.name) ((classes new).map (·.name))
  have hranges : rs.map (fun r => (r.start, r.stop)) =
      (targets o (classes tree) new).map fun e => replacedRange host e.1 := by
    refine Traced.map_of_mapM hrs fun e he r hr => ?_
    obtain ⟨base, -, hr⟩ := Traced.exists_of_bind hr
    have hc := hsublist.subset (List.mem_map_of_mem he)
    obtain ⟨-, -, -, -, hcount⟩ := hrows.1 _ hc
    exact range_of_renderBody hrows hc (fun n hn hle =>
      ⟨offset_eq hplain hn (hle.trans hcount), line_ofText hplain n⟩) hr
  refine ⟨rs, replaceFrom host 0 rs, hrs, ?_, htext.symm⟩
  rw [← hranges]
  refine framed_replaceFrom host rs (hranges ▸ hrows.inOrder.sublist ?_)
  have hmap := hsublist.map (replacedRange host)
  rwa [List.map_map] at hmap

theorem failure_of_merge (htree : read host = .ok tree)
    (hnew : statementsOf o snippet = .ok new) {e : Error}
    (h : (merge o host snippet).result = .error e) : IsFailure o e := by
  have hresult := result_of_merge htree hnew
  rw [h] at hresult
  rcases Traced.error_of_bind hresult.symm with hp | ⟨p, hp, hdocument⟩
  · obtain ⟨m, st, -, hstep⟩ := exists_of_foldlM_error hp
    exact failure_of_step hstep
  · obtain ⟨b, -, hb⟩ := Traced.exists_of_mapM_error (Traced.error_of_map hdocument)
    exact failure_of_renderBody hb

end

end Suite

end Graft
