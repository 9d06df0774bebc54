import Graft.Proofs.Suite.Rows

set_option autoImplicit false

/-!
Comments in a Python class that a snippet is merged into. The body is written anew from its members,
each with the comments directly above it. So a comment stays if it belongs to a member that is kept,
or if it stands above or below all that is written anew; a comment between members that belongs to
none of them is lost.
-/

namespace Graft

open ClassMerge

namespace Traced

theorem exists_of_mapM_append {α β : Type} {f : α → Except Error β} {as as' : List α} {a : α}
    {bs : List β} (h : (as ++ a :: as').mapM f = .ok bs) :
    ∃ bs₁ b bs₂, bs = bs₁ ++ b :: bs₂ ∧ bs₁.length = as.length ∧ bs₂.length = as'.length ∧
      f a = .ok b := by
  induction as generalizing bs with
  | nil =>
    rw [List.nil_append, List.mapM_cons] at h
    obtain ⟨b, hb, h⟩ := exists_of_bind h
    obtain ⟨bs₂, hbs₂, h⟩ := exists_of_bind h
    obtain rfl := Except.ok.inj h
    have hlength := map_of_mapM hbs₂ (g := fun _ => ()) (k := fun _ => ()) fun _ _ _ _ => rfl
    exact ⟨[], b, bs₂, rfl, rfl, by simpa using congrArg List.length hlength, hb⟩
  | cons x as ih =>
    rw [List.cons_append, List.mapM_cons] at h
    obtain ⟨y, hy, h⟩ := exists_of_bind h
    obtain ⟨bs', hbs', h⟩ := exists_of_bind h
    obtain rfl := Except.ok.inj h
    obtain ⟨bs₁, b, bs₂, rfl, h₁, h₂, hb⟩ := ih hbs'
    exact ⟨y :: bs₁, b, bs₂, rfl, by simp [h₁], h₂, hb⟩

end Traced

namespace ClassMerge

theorem exists_stitch_eq (source : Text) (cursor : Nat) {pre : List (Nat × Nat)} {bs : List Text}
    (h : bs.length = pre.length) (r : Nat × Nat) (post : List (Nat × Nat)) (b : Text)
    (cs : List Text) :
    ∃ before a, stitch (gaps source cursor (pre ++ r :: post)) (bs ++ b :: cs) =
        before ++ source.slice a r.1 ++ b ++ stitch (gaps source r.2 post) cs ∧
      (before = [] ∧ a = cursor ∨ ∃ s ∈ pre, a = s.2) := by
  induction pre generalizing cursor bs with
  | nil =>
    obtain rfl := List.length_eq_zero_iff.mp h
    exact ⟨[], cursor, by simp [gaps], .inl ⟨rfl, rfl⟩⟩
  | cons s pre ih =>
    obtain ⟨x, bs, rfl⟩ := List.exists_cons_of_length_eq_add_one h
    obtain ⟨before, a, heq, hcases⟩ := ih s.2 (Nat.succ.inj h)
    refine ⟨source.slice cursor s.1 ++ x ++ before, a, ?_, .inr ?_⟩
    · rw [List.cons_append, List.cons_append, gaps, stitch_cons, heq]
      simp [List.append_assoc]
    · rcases hcases with ⟨-, rfl⟩ | ⟨s', hs', rfl⟩
      · exact ⟨s, List.mem_cons_self, rfl⟩
      · exact ⟨s', List.mem_cons_of_mem s hs', rfl⟩

theorem stitch_gaps_split (source : Text) {cursor k : Nat} (hk : cursor ≤ k)
    {ranges : List (Nat × Nat)} (hranges : ∀ r ∈ ranges, k ≤ r.1) {bs : List Text}
    (h : bs.length = ranges.length) :
    stitch (gaps source cursor ranges) bs =
      source.slice cursor k ++ stitch (gaps source k ranges) bs := by
  cases ranges with
  | nil =>
    obtain rfl := List.length_eq_zero_iff.mp h
    rw [gaps, gaps, stitch_nil, stitch_nil, Text.slice_append_drop source hk]
  | cons r ranges =>
    obtain ⟨b, bs, rfl⟩ := List.exists_cons_of_length_eq_add_one h
    have hr : k ≤ r.1 := hranges r List.mem_cons_self
    rw [gaps, gaps, stitch_cons, stitch_cons, ← Text.slice_append_slice source hk hr]
    simp only [List.append_assoc]

theorem exists_following_eq (separator : Text) {classes : List Text} (h : classes ≠ []) :
    ∃ u, following ('\n' :: separator) classes = '\n' :: u := by
  induction classes with
  | nil => contradiction
  | cons c cs ih =>
    cases cs with
    | nil => exact ⟨_, rfl⟩
    | cons d cs =>
      obtain ⟨u, hu⟩ := ih (List.cons_ne_nil d cs)
      obtain ⟨b, hb, -⟩ := Text.exists_dropLastWhile_append Text.isBlank ('\n' :: separator ++ c)
      rw [following.eq_3 _ _ _ (by simp), hu]
      cases htrim : Text.trimEnd ('\n' :: separator ++ c) with
      | nil => exact ⟨u, rfl⟩
      | cons x t =>
        unfold Text.trimEnd at htrim
        rw [htrim] at hb
        obtain ⟨rfl, -⟩ := List.cons.inj hb
        exact ⟨t ++ '\n' :: u, rfl⟩

theorem shows_extended {separator document l : Text} {c : Char} (hc : Text.isBlank c = false)
    (classes : List Text) (h : document.Shows (l ++ [c])) :
    (extended ('\n' :: separator) document classes).Shows (l ++ [c]) := by
  unfold extended
  split
  · exact h
  · next hne =>
    obtain ⟨u, hu⟩ := exists_following_eq separator (mt List.isEmpty_iff.mpr hne)
    rw [hu]
    exact (h.trimEnd hc).append_newline u

end ClassMerge

namespace Suite

/-- The row is one of those of a statement, or holds one of the comments directly above it. What
stands before the statement ends in the row `above`. -/
def Belongs (rows : Rows) (above : Nat) (p : Place) (r : Nat) : Prop :=
  r ≤ p.stop ∧ (p.first ≤ r ∨ above < r ∧ ∀ k, r ≤ k → k < p.first → (rows.comment? k).isSome)

theorem commentStart_le_iff (rows : Rows) (limit n r : Nat) :
    Member.commentStart rows limit n ≤ r ↔
      n ≤ r ∨ limit < r ∧ ∀ k, r ≤ k → k < n → (rows.comment? k).isSome := by
  induction n with
  | zero => simp [Member.commentStart]
  | succ n ih =>
    rw [Member.commentStart]
    split
    · next hrow =>
      obtain ⟨hlimit, hcomment⟩ : limit < n ∧ (rows.comment? n).isSome := by simpa using hrow
      rw [ih]
      constructor
      · rintro (hle | ⟨hlt, hall⟩)
        · rcases Nat.lt_or_eq_of_le hle with hlt | rfl
          · exact .inl hlt
          · refine .inr ⟨hlimit, fun k hk hkn => ?_⟩
            obtain rfl : k = n := by omega
            exact hcomment
        · refine .inr ⟨hlt, fun k hk hkn => ?_⟩
          rcases Nat.lt_or_eq_of_le (Nat.le_of_lt_succ hkn) with hkn | rfl
          · exact hall k hk hkn
          · exact hcomment
      · rintro (hle | ⟨hlt, hall⟩)
        · exact .inl (by omega)
        · exact .inr ⟨hlt, fun k hk hkn => hall k hk (by omega)⟩
    · next hrow =>
      refine ⟨.inl, ?_⟩
      rintro (hle | ⟨hlt, hall⟩)
      · exact hle
      · by_contra hn
        exact hrow (by simp [hall n (by omega) (by omega), show limit < n by omega])

namespace Member

variable {s : Source} {c : ClassBody} {keepDirectives : Bool}

structure Spans (s : Source) (c : ClassBody) (above : Nat) (p : Place) (m : Member) : Prop where
  start_eq : m.start = commentStart s.rows above p.first
  stop_eq : m.stop = p.stop
  source_eq : m.details.source = Text.unlines (sourceLines s c p
    (List.range' (commentStart s.rows above p.first)
      (p.stop + 1 - commentStart s.rows above p.first)))
  text_eq : m.text = Indentation.dedent m.details.source m.details.indent.length m.details.verbatim

theorem spans_of_ofPlaced {index above : Nat} {st : Placed Stmt} {e : Member × Commands}
    (h : ofPlaced s c true index above st = .ok (some e)) : Spans s c above st.place e.1 := by
  obtain ⟨m?, hm, h⟩ := Traced.exists_of_bind h
  obtain ⟨m, rfl, rfl⟩ := Option.map_eq_some_iff.mp (Except.ok.inj h)
  obtain ⟨-, htext, hdetails, -⟩ := of_ofStatement hm
  refine ⟨rfl, rfl, ?_, ?_⟩
  · simp [hdetails]
  · simp [hdetails, htext]

theorem Spans.covers_iff {above : Nat} {p : Place} {m : Member}
    (h : Spans s c above p m) (r : Nat) :
    m.start ≤ r ∧ r ≤ m.stop ↔ Belongs s.rows above p r := by
  rw [h.start_eq, h.stop_eq, Int.ofNat_le, Int.ofNat_le, commentStart_le_iff, Belongs, and_comm]

theorem dropBytes_suffix (n : Nat) (t : Text) : dropBytes n t <:+ t := by
  fun_induction dropBytes n t with
  | case1 t => exact List.suffix_refl t
  | case2 n hn => exact List.suffix_refl []
  | case3 n c cs hn ih => exact ih.trans (List.suffix_cons c cs)

theorem exists_sourceLines_eq (s : Source) (c : ClassBody) (p : Place) (k : Nat) (ks : List Nat) :
    ∃ first, sourceLines s c p (k :: ks) = first :: ks.map s.line ∧ first ⊆ s.line k ∧
      (p.line ≠ c.place.line → first = s.line k) := by
  simp only [sourceLines, List.map_cons]
  split
  · next hsame =>
    exact ⟨_, rfl, (dropBytes_suffix _ _).subset, fun hne => absurd (eq_of_beq hsame) hne⟩
  · exact ⟨_, rfl, List.Subset.refl _, fun _ => rfl⟩

theorem newline_not_mem_line (host : Text) (n : Nat) : '\n' ∉ (Source.ofText host).line n := by
  rw [Source.line, Source.ofText, Text.lines]
  simp only [Array.getD_eq_getD_getElem?, List.getElem?_toArray, List.getElem?_map]
  cases hl : (Text.linesBy Text.isBreak host)[n - 1]? with
  | none => exact List.not_mem_nil
  | some l =>
    intro hin
    have hend := (Text.of_mem_linesBy (List.mem_of_getElem? hl)).1 '\n' hin
    contradiction

variable {host : Text} {above r : Nat} {p : Place} {m : Member}

theorem Spans.line_mem (h : Spans (.ofText host) c above p m) (hstart : m.start ≤ r)
    (hstop : r ≤ m.stop) (hbelow : p.line = c.place.line → p.first < r) :
    (Source.ofText host).line r ∈ m.details.source.splitOn '\n' := by
  rw [h.start_eq, Int.ofNat_le] at hstart
  rw [h.stop_eq, Int.ofNat_le] at hstop
  rw [h.source_eq]
  generalize hk : commentStart (Source.ofText host).rows above p.first = k at hstart
  have hle : k ≤ p.first := hk ▸ commentStart_le _ _ _
  have hcount : p.stop + 1 - k = (p.stop - k) + 1 := by omega
  obtain ⟨first, hlines, hsubset, hfirst⟩ :=
    exists_sourceLines_eq (.ofText host) c p k (List.range' (k + 1) (p.stop - k))
  rw [hcount, List.range'_succ, hlines, Text.splitOn_unlines]
  · by_cases hr : r = k
    · have hne : p.line ≠ c.place.line := fun hsame => by
        have hlt := hbelow hsame
        omega
      rw [hfirst hne, hr]
      exact List.mem_cons_self
    · refine List.mem_cons_of_mem _ (List.mem_map_of_mem ?_)
      rw [List.mem_range'_1]
      omega
  · refine List.forall_mem_cons.mpr ⟨fun hin => newline_not_mem_line host k (hsubset hin),
      fun l hl => ?_⟩
    obtain ⟨j, -, rfl⟩ := List.mem_map.mp hl
    exact newline_not_mem_line host j

theorem Spans.shows_linesAt (h : Spans (.ofText host) c above p m) (hstart : m.start ≤ r)
    (hstop : r ≤ m.stop) (hbelow : p.line = c.place.line → p.first < r) {a w indent : Text}
    (ha : a.isBlankText) (hline : (Source.ofText host).line r = a ++ '#' :: w)
    (hindent : indent.isBlankText) (hfeed : '\n' ∉ indent) :
    (m.linesAt indent).Shows ('#' :: w) := by
  have hsource : m.details.source.Shows ('#' :: w) := by
    refine ⟨a, [], ha, rfl, ?_⟩
    rw [List.append_nil, ← hline]
    exact h.line_mem hstart hstop hbelow
  unfold linesAt
  split
  · exact hsource
  · rw [h.text_eq]
    exact Indentation.shows_indent (by decide) hindent hfeed
      _ (Indentation.shows_dedent (by decide) _ _ hsource)

end Member

section

variable {host : Text} {c : ClassBody} {t : Pieces Details} {body : Replacement}
  {m : Member} {l : Text}

theorem newline_not_mem_opening (host : Text) (offsets : Array Nat) (c : ClassBody) :
    '\n' ∉ (opening (.ofText host) offsets c).2.2 := by
  have hmargin : ∀ n, '\n' ∉ margin ((Source.ofText host).line n) := fun n hin =>
    Member.newline_not_mem_line host n ((List.takeWhile_prefix _).subset hin)
  simp only [opening]
  split
  · rw [List.mem_append, not_or]
    exact ⟨hmargin _, by decide⟩
  · exact hmargin _

theorem lead_opening (host : Text) (offsets : Array Nat) (c : ClassBody) :
    (opening (.ofText host) offsets c).2.1 =
      if c.first.line == c.place.line then ['\n'] else [] := by
  have hplace : (c.body.head?.map (·.place)).getD c.place = c.first := rfl
  simp only [opening, hplace]
  split <;> rfl

theorem exists_text_of_renderBody {offsets : Array Nat}
    (h : renderBody (.ofText host) offsets c t = .ok body) :
    ∃ inner : Text, body.text = (if c.first.line == c.place.line then ['\n'] else []) ++ inner ∧
      ∀ m ∈ t.values, m.origin = .host → ∀ l,
        (Member.linesAt (opening (.ofText host) offsets c).2.2 m).Shows l → inner.Shows l := by
  obtain ⟨texts, htexts, h⟩ := Traced.exists_of_bind h
  obtain rfl := Except.ok.inj h
  refine ⟨_, congrArg (· ++ _) (lead_opening host offsets c), fun m hm hhost l hl => ?_⟩
  obtain ⟨u, hu, heq⟩ := Traced.exists_mem_of_mapM htexts hm
  obtain rfl := Except.ok.inj ((memberText_of_host hhost _).symm.trans heq)
  have hne : texts.isEmpty = false := List.isEmpty_eq_false_iff.mpr (List.ne_nil_of_mem hu)
  simp only [hne, Bool.false_eq_true, if_false]
  split
  · exact hl.join (by decide) hu
  · exact hl.join (by decide) hu

end

section

variable {host : Text} {hosts : List ClassBody} {n : Nat}

theorem closesLine_stitch (hfeeds : hasFeeds host) (hrows : InRows host hosts) (hn : 1 ≤ n)
    (hcount : n ≤ rowCount host) {post : List ClassBody}
    (hpost : ∀ d ∈ post, d ∈ hosts ∧ n < d.place.line) {bs : List Text}
    (hlength : bs.length = post.length) :
    (stitch (gaps host (rowStop host n) (post.map (replacedRange host))) bs).ClosesLine := by
  obtain ⟨e, he⟩ := exists_ends hfeeds hn hcount
  cases post with
  | nil =>
    obtain rfl := List.length_eq_zero_iff.mp hlength
    rw [List.map_nil, gaps, stitch_nil, he.drop_rowStop]
    rcases Nat.lt_or_eq_of_le hcount with hlt | heq
    · obtain ⟨b, hb, rfl⟩ := he.newline hlt
      exact ⟨b, host.drop (rowStart host (n + 1)), hb, .inr (by simp)⟩
    · have hnil : host.drop (rowStart host (n + 1)) = [] := by
        rw [rowStart, Text.drop_rowStart, Nat.add_sub_cancel,
          List.drop_of_length_le (Nat.le_of_eq heq.symm)]
        rfl
      exact ⟨e, [], he.blank, .inl (by rw [hnil, List.append_nil])⟩
  | cons d post =>
    obtain ⟨x, bs, rfl⟩ := List.exists_cons_of_length_eq_add_one hlength
    obtain ⟨hd, hbelow⟩ := hpost d List.mem_cons_self
    obtain ⟨hdline, hdfirst, hddecorated, hdstop, hdcount⟩ := hrows.1 d hd
    obtain ⟨b, hb, rfl⟩ := he.newline (by omega)
    have hnext : rowStart host (n + 1) ≤ (replacedRange host d).1 :=
      Nat.le_trans (rowStart_mono hbelow) (hrows.replacedRange_le hd).1
    rw [List.map_cons, gaps, stitch_cons,
      ← Text.slice_append_slice host (rowStop_le n hn) hnext, he.slice_end]
    exact ⟨b, _, hb, .inr (by simp only [List.append_assoc, List.singleton_append]; rfl)⟩

theorem opensLine_slice (hfeeds : hasFeeds host) {before : Text} {a k : Nat}
    (ha : before = [] ∧ a = 0 ∨ ∃ n, 1 ≤ n ∧ n < k ∧ a = rowStop host n) (hk : 1 ≤ k)
    (hcount : k ≤ rowCount host) :
    (before ++ host.slice a (rowStart host k)).OpensLine := by
  obtain ⟨j, rfl⟩ := Nat.exists_eq_add_of_le' hk
  cases j with
  | zero =>
    obtain ⟨rfl, rfl⟩ : before = [] ∧ a = 0 := ha.resolve_right (by omega)
    exact .inl (by simp [rowStart, Text.rowStart])
  | succ j =>
    obtain ⟨e, he⟩ := exists_ends hfeeds (show 1 ≤ j + 1 by omega) (by omega)
    obtain ⟨b, hb, rfl⟩ := he.newline (by omega)
    have hle : a ≤ rowStop host (j + 1) := by
      rcases ha with ⟨-, rfl⟩ | ⟨n, hn, hlt, rfl⟩
      · exact Nat.zero_le _
      · exact rowStop_mono hn (by omega)
    refine .inr ⟨before ++ host.slice a (rowStop host (j + 1)) ++ b, ?_⟩
    rw [← Text.slice_append_slice host hle (rowStop_le (j + 1) (by omega)), he.slice_end]
    simp

end

section

variable {o : Options} {host snippet : Text} {c : ClassBody} {members : List (Member × Commands)}
  {units : List (Extraction Details)} {report : Report}

theorem mem_targets {tree new : Block} {i : Nat} {snippet : Source}
    (hc : (classes tree)[i]? = some c)
    (hne : new.filterMap (unit? o snippet (classes tree) i) ≠ []) :
    (c, i) ∈ targets o (classes tree) new := by
  obtain ⟨u, hu⟩ := List.exists_mem_of_ne_nil _ hne
  obtain ⟨st, hst, hunit⟩ := List.mem_filterMap.mp hu
  refine List.mem_filter.mpr ⟨List.mem_zipIdx_iff_getElem?.mpr hc,
    any_addresses_iff.mpr ⟨st, hst, ?_⟩⟩
  obtain ⟨n, hof, hunit⟩ := Option.bind_eq_some_iff.mp hunit
  split at hunit
  · next hindex => exact ⟨n, hof, hindex⟩
  · contradiction

theorem rewritten_enterAll {tree new : Block} {i : Nat} (htree : read host = .ok tree)
    (hstatements : statementsOf o snippet = .ok new) (hc : (classes tree)[i]? = some c)
    (hmembers : Member.all (.ofText host) c true = .ok members)
    (hne : new.filterMap (unit? o (.ofText (wrap o snippet)) (classes tree) i) ≠ [])
    (h : (merge o host snippet).result = .ok report) :
    Rewritten Member.rules members
      (new.filterMap (unit? o (.ofText (wrap o snippet)) (classes tree) i))
      (enterAll Member.rules (o.placement.getD .moveToEnd) (Extraction.addAll {} members).table
        (new.filterMap (unit? o (.ofText (wrap o snippet)) (classes tree) i))) := by
  have hbase := Member.extract_of_all hmembers
  have hresult := result_of_merge htree hstatements
  rw [h] at hresult
  obtain ⟨p, hp, -⟩ := Traced.exists_of_bind hresult.symm
  obtain ⟨t, ht, hrewritten⟩ := exists_rewritten Member.rules_lawful
    (fun m a m' hstep => enters_of_step hc hbase hstep) (Member.origin_all hmembers) hp rfl hne
  -- The table is found once as what is left of the members and once as what is entered, and there
  -- is only one.
  obtain ⟨base, hbase', hlookup⟩ :=
    (lookup_of_foldlM hc hp).2 (List.mem_filter.mp (mem_targets hc hne)).2
  obtain rfl := Except.ok.inj (hbase.symm.trans hbase')
  obtain rfl := Option.some.inj (ht.symm.trans hlookup)
  exact hrewritten

/-- Where the new body of a class stands in the merged document: in place of the old one, before
the rest of the document with the bodies of later classes, and before the classes put behind. -/
def Stands (host : Text) (hosts : List ClassBody) (c : ClassBody) (body report : Text) : Prop :=
  ∃ before a, ∃ later : List ClassBody, ∃ bodies strangers, report = extended "\n\n\n".toList
      (before ++ host.slice a (replacedRange host c).1 ++ body ++
        stitch (gaps host (rowStop host c.place.stop) (later.map (replacedRange host))) bodies)
      strangers ∧
    (before = [] ∧ a = 0 ∨ ∃ n, 1 ≤ n ∧ n < c.place.line ∧ a = rowStop host n) ∧
    (∀ d ∈ later, d ∈ hosts ∧ c.place.stop < d.place.line) ∧ bodies.length = later.length

theorem exists_stands_of_merge (hinto : EntersInto o host snippet c members units)
    (hplain : hasPlainRows host) (hrows : ∀ tree, read host = .ok tree → InRows host (classes tree))
    (h : (merge o host snippet).result = .ok report) :
    ∃ t body, Rewritten Member.rules members units t ∧
      renderBody (.ofText host) (Text.lineOffsets Text.isBreak host).toArray c t = .ok body ∧
      ∀ tree, read host = .ok tree → Stands host (classes tree) c body.text report.text := by
  obtain ⟨hblank, hne, hmembers, tree, new, i, htree, hnew, hc, rfl⟩ := hinto
  have hstatements : statementsOf o snippet = .ok new := by
    rw [statementsOf, hblank]
    exact hnew
  have hrows := hrows tree htree
  have hbase := Member.extract_of_all hmembers
  have htarget := mem_targets hc hne
  obtain ⟨rs, doc, hrs, hframed, htext⟩ := frame_of_merge htree hstatements hplain hrows h
  have hrewritten := rewritten_enterAll htree hstatements hc hmembers hne h
  obtain ⟨pre, post, hsplit⟩ := List.append_of_mem htarget
  rw [hsplit] at hrs
  obtain ⟨rs₁, body, rs₂, rfl, hlength₁, hlength₂, hbody⟩ := Traced.exists_of_mapM_append hrs
  rw [newBody, hbase] at hbody
  refine ⟨_, body, hrewritten, hbody, fun tree' htree' => ?_⟩
  obtain rfl := Except.ok.inj (htree.symm.trans htree')
  have hsublist : ((targets o (classes tree) new).map (·.1)).Sublist (classes tree) :=
    addressed_sublist o (classes tree) (·.name) _
  rw [hsplit, List.map_append, List.map_cons] at hsublist
  obtain ⟨-, hbelow, habove⟩ := List.pairwise_append.mp (hrows.2.sublist hsublist)
  obtain ⟨before, a, heq, hcases⟩ := exists_stitch_eq host 0
    (by simpa using hlength₁ :
      (rs₁.map (·.text)).length = (pre.map fun e => replacedRange host e.1).length)
    (replacedRange host c) (post.map fun e => replacedRange host e.1) body.text (rs₂.map (·.text))
  have hdoc := hframed.text_eq
  rw [hsplit, List.map_append, List.map_cons, List.map_append, List.map_cons, heq] at hdoc
  have hpost : post.map (fun e => replacedRange host e.1) =
      (post.map (·.1)).map (replacedRange host) := by
    rw [List.map_map]
    rfl
  rw [hpost] at hdoc
  have hreport := htext.trans (congrArg (extended _ · _) hdoc)
  refine ⟨before, a, _, _, _, hreport, ?_, ?_, ?_⟩
  · refine hcases.imp_right ?_
    rintro ⟨r, hr, rfl⟩
    obtain ⟨e, he, rfl⟩ := List.mem_map.mp hr
    have hmem : e.1 ∈ pre.map (·.1) := List.mem_map_of_mem he
    obtain ⟨hline, hfirst, hdecorated, hstop, -⟩ := hrows.1 e.1 (hsublist.subset (by simp [hmem]))
    exact ⟨e.1.place.stop, by omega, habove e.1 hmem c List.mem_cons_self, rfl⟩
  · intro d hd
    have hmem : d ∈ classes tree :=
      hsublist.subset (List.mem_append_right _ (List.mem_cons_of_mem c hd))
    exact ⟨hmem, (List.pairwise_cons.mp hbelow).1 d hd⟩
  · simpa using hlength₂

variable {hosts : List ClassBody} {body text l : Text} {ch : Char} {r : Nat}

theorem Stands.infix_trimEnd (h : Stands host hosts c body text) : body.trimEnd <:+: text := by
  obtain ⟨before, a, later, bodies, strangers, rfl, -, -, -⟩ := h
  generalize stitch _ bodies = after
  have hbody : body.trimEnd <:+:
      before ++ host.slice a (replacedRange host c).1 ++ body ++ after := by
    obtain ⟨b, hb, -⟩ := Text.exists_dropLastWhile_append Text.isBlank body
    exact (List.IsPrefix.isInfix ⟨b, hb.symm⟩).trans
      ⟨before ++ host.slice a (replacedRange host c).1, after, rfl⟩
  unfold extended
  split
  · exact hbody
  · refine List.IsInfix.trans ?_ (List.prefix_append _ _).isInfix
    rcases Text.trimEnd_eq_nil_or_concat body with hnil | ⟨u, x, heq, hx⟩
    · rw [hnil]
      exact List.nil_infix
    · rw [heq] at hbody ⊢
      exact Text.infix_dropLastWhile hx hbody

theorem Stands.shows_of_body (hfeeds : hasFeeds host) (hrows : InRows host hosts) (hc : c ∈ hosts)
    (h : Stands host hosts c ((if c.first.line == c.place.line then ['\n'] else []) ++ body) text)
    (hch : Text.isBlank ch = false) (hbody : body.Shows (l ++ [ch])) : text.Shows (l ++ [ch]) := by
  obtain ⟨hline, hfirst, hdecorated, hstop, hcount⟩ := hrows.1 c hc
  obtain ⟨before, a, later, bodies, strangers, rfl, ha, hlater, hlength⟩ := h
  have hafter :=
    closesLine_stitch hfeeds hrows (show 1 ≤ c.place.stop by omega) hcount hlater hlength
  refine shows_extended hch strangers (Text.Shows.closed ?_ hafter)
  unfold replacedRange
  split
  · exact Text.Shows.newline_append _ hbody
  · have hge := le_commentStart (Rows.ofSource host) hfirst
    have hle := commentStart_le (Rows.ofSource host) c.place.line c.first.first
    have hrow : c.place.line ≤ firstRow host c ∧ firstRow host c ≤ rowCount host :=
      ⟨hge, by unfold firstRow; omega⟩
    refine Text.Shows.opened (opensLine_slice hfeeds ?_ (by omega) hrow.2) hbody
    exact ha.imp_right fun ⟨n, hn, hlt, heq⟩ => ⟨n, hn, by omega, heq⟩

theorem Stands.shows_of_row (hfeeds : hasFeeds host) (hrows : InRows host hosts) (hc : c ∈ hosts)
    (h : Stands host hosts c body text) (hch : Text.isBlank ch = false) (hr : c.place.line < r)
    (hlt : r < firstRow host c)
    (hrow : (row host r).Shows (l ++ [ch])) : text.Shows (l ++ [ch]) := by
  obtain ⟨hline, hfirst, hdecorated, hstop, hcount⟩ := hrows.1 c hc
  have hle : firstRow host c ≤ c.first.first :=
    commentStart_le (Rows.ofSource host) c.place.line c.first.first
  have hapart : (c.first.line == c.place.line) = false := beq_false_of_ne fun heq => by omega
  obtain ⟨e, he⟩ := exists_ends hfeeds (show 1 ≤ r by omega) (by omega)
  obtain ⟨b, hb, rfl⟩ := he.newline (by omega)
  obtain ⟨before, a, later, bodies, strangers, rfl, ha, -, -⟩ := h
  generalize stitch _ bodies = after
  have hopens : (before ++ host.slice a (rowStart host r)).OpensLine :=
    opensLine_slice hfeeds (ha.imp_right fun ⟨n, hn, hlt, heq⟩ => ⟨n, hn, by omega, heq⟩)
      (by omega) (by omega)
  have hstart : a ≤ rowStart host r := by
    rcases ha with ⟨-, rfl⟩ | ⟨n, hn, hlt, rfl⟩
    · exact Nat.zero_le _
    · exact Nat.le_trans (rowStop_le n hn) (rowStart_mono (by omega))
  have hslice : host.slice a (rowStart host (firstRow host c)) = host.slice a (rowStart host r) ++
      (row host r ++ ((b ++ ['\n']) ++
        host.slice (rowStart host (r + 1)) (rowStart host (firstRow host c)))) := by
    have hnext : rowStart host (r + 1) ≤ rowStart host (firstRow host c) := rowStart_mono hlt
    have hend : rowStop host r ≤ rowStart host (r + 1) := rowStop_le r (by omega)
    rw [← he.slice_end, ← he.slice_row, Text.slice_append_slice host hend hnext,
      Text.slice_append_slice host (rowStart_le_rowStop (Nat.le_refl r)) (Nat.le_trans hend hnext),
      Text.slice_append_slice host hstart (rowStart_mono (by omega))]
  refine shows_extended hch strangers ?_
  have hrest : Text.ClosesLine
      (b ++ '\n' :: (host.slice (rowStart host (r + 1)) (rowStart host (firstRow host c)) ++
      (body ++ after))) := ⟨b, _, hb, .inr rfl⟩
  have hshows := Text.Shows.opened hopens (hrow.closed hrest)
  simp only [replacedRange, hapart, Bool.false_eq_true, if_false, hslice]
  simpa only [List.append_assoc, List.nil_append, List.cons_append] using hshows

theorem Stands.shows_of_behind (hfeeds : hasFeeds host) (hrows : InRows host hosts) (hc : c ∈ hosts)
    (h : Stands host hosts c body text) (hch : Text.isBlank ch = false) (hr : c.place.stop < r)
    (hcount : r ≤ rowCount host)
    (hnext : ∀ d ∈ hosts, c.place.stop < d.place.line → r < d.place.line)
    (hrow : (row host r).Shows (l ++ [ch])) : text.Shows (l ++ [ch]) := by
  obtain ⟨hline, hfirst, hdecorated, hstop, -⟩ := hrows.1 c hc
  obtain ⟨before, a, later, bodies, strangers, rfl, -, hlater, hlength⟩ := h
  have hlater : ∀ d ∈ later, d ∈ hosts ∧ r < d.place.line := fun d hd =>
    ⟨(hlater d hd).1, hnext d (hlater d hd).1 (hlater d hd).2⟩
  have hend : rowStart host r ≤ rowStop host r := rowStart_le_rowStop (Nat.le_refl r)
  have hstart : rowStop host c.place.stop ≤ rowStart host r :=
    Nat.le_trans (rowStop_le _ (by omega)) (rowStart_mono hr)
  have hranges : ∀ s ∈ later.map (replacedRange host), rowStop host r ≤ s.1 := fun s hs => by
    obtain ⟨d, hd, rfl⟩ := List.mem_map.mp hs
    exact Nat.le_trans (rowStop_le r (by omega))
      (Nat.le_trans (rowStart_mono (hlater d hd).2) (hrows.replacedRange_le (hlater d hd).1).1)
  obtain ⟨e, he⟩ := exists_ends hfeeds (show 1 ≤ r by omega) hcount
  rw [stitch_gaps_split host (Nat.le_trans hstart hend) hranges (by simpa using hlength),
    ← Text.slice_append_slice host hstart hend, he.slice_row]
  have hrest := closesLine_stitch hfeeds hrows (show 1 ≤ r by omega) hcount hlater hlength
  have hopens : (before ++ host.slice a (replacedRange host c).1 ++ body ++
      host.slice (rowStop host c.place.stop) (rowStart host r)).OpensLine :=
    opensLine_slice hfeeds (.inr ⟨c.place.stop, by omega, hr, rfl⟩) (by omega) hcount
  refine shows_extended hch strangers ?_
  simpa only [List.append_assoc] using Text.Shows.opened hopens (hrow.closed hrest)

/-- The row stands behind the last statement of a class and before the next class. -/
def Trails (host : Text) (c : ClassBody) (r : Nat) : Prop :=
  c.place.stop < r ∧ ∀ tree, read host = .ok tree →
    ∀ d ∈ classes tree, c.place.stop < d.place.line → r < d.place.line

/-- The row belongs to a member of a class that a merge keeps: nothing in the snippet touches it,
and it has no namesake behind it. -/
def KeepsRow (host : Text) (c : ClassBody) (members : List (Member × Commands))
    (units : List (Extraction Details)) (r : Nat) : Prop :=
  ∃ pre st post e, c.body = pre ++ st :: post ∧
    Member.ofPlaced (.ofText host) c true pre.length (c.above pre) st = .ok (some e) ∧
    Belongs (Rows.ofSource host) (c.above pre) st.place r ∧
    Extraction.Lasting members e.1 ∧ ∀ u ∈ units, u.touches Member.rules e.1.name = false

theorem keepsRow_of_mem (hmembers : Member.all (.ofText host) c true = .ok members)
    {e : Member × Commands} (he : e ∈ members) (hcovers : e.1.start ≤ r ∧ r ≤ e.1.stop)
    (hlasting : Extraction.Lasting members e.1)
    (huntouched : ∀ u ∈ units, u.touches Member.rules e.1.name = false) :
    KeepsRow host c members units r := by
  obtain ⟨pre, st, post, hbody, hplaced⟩ := (Member.mem_all hmembers).mp he
  have hspans := Member.spans_of_ofPlaced hplaced
  exact ⟨pre, st, post, e, hbody, hplaced, (hspans.covers_iff r).mp hcovers, hlasting, huntouched⟩

theorem covers_iff_keepsRow {t : Pieces Details} (h : Rewritten Member.rules members units t)
    (hmembers : Member.all (.ofText host) c true = .ok members) (r : Nat) :
    (∃ m ∈ t.values, m.origin = .host ∧ m.start ≤ r ∧ r ≤ m.stop) ↔
      KeepsRow host c members units r := by
  constructor
  · rintro ⟨m, hm, hhost, hcovers⟩
    obtain ⟨hlasting, huntouched⟩ := (h.mem_iff m hhost).mp hm
    obtain ⟨pre, commands, post, hsplit, -⟩ := id hlasting
    have hmem : (m, commands) ∈ members := by simp [hsplit]
    exact keepsRow_of_mem hmembers hmem hcovers hlasting huntouched
  · rintro ⟨pre, st, post, e, hbody, hplaced, hbelongs, hlasting, huntouched⟩
    have hspans := Member.spans_of_ofPlaced hplaced
    have hhost := h.host e ((Member.mem_all hmembers).mpr ⟨pre, st, post, hbody, hplaced⟩)
    exact ⟨e.1, (h.mem_iff e.1 hhost).mpr ⟨hlasting, huntouched⟩, hhost,
      (hspans.covers_iff r).mpr hbelongs⟩

/-- A merge into a class writes its body from a table, whose pieces of the document cover just the
rows of the members that are kept, with the comments directly above them. A comment in the class is
shown in the merged document if its row is one of these, or if it stands above or below all that is
written anew. -/
theorem merge_keeps_comments (hinto : EntersInto o host snippet c members units)
    (hplain : hasPlainRows host) (hfeeds : hasFeeds host)
    (hrows : ∀ tree, read host = .ok tree → InRows host (classes tree))
    (hstatements : ∀ st ∈ c.body, st.place.first ≤ st.place.line) :
    (∀ e, (mergeBy .suite o host snippet).result = .error e → IsFailure o e) ∧
    ∀ report, (mergeBy .suite o host snippet).result = .ok report ∨
        (Graft.merge .suite o host snippet).result = .ok report →
      ∃ t body,
        renderBody (.ofText host) (Text.lineOffsets Text.isBreak host).toArray c t = .ok body ∧
        body.text.trimEnd <:+: report.text ∧
        (∀ r : Nat, (∃ m ∈ t.values, m.origin = .host ∧ m.start ≤ r ∧ r ≤ m.stop) ↔
          KeepsRow host c members units r) ∧
        ∀ r comment, (Rows.ofSource host).comment? r = some comment → c.place.line < r →
          r < firstRow host c ∨ KeepsRow host c members units r ∨ Trails host c r →
            report.text.Shows comment.trimEnd := by
  obtain ⟨tree, new, i, htree, hnew, hc, -⟩ := id hinto.of_classes
  have hmem : c ∈ classes tree := List.mem_of_getElem? hc
  constructor
  · intro e he
    have hof : statementsOf o snippet = .ok new := by
      rw [statementsOf, hinto.notBlank]
      exact hnew
    exact failure_of_merge htree hof he
  · intro report hreport
    have hmerged : (merge o host snippet).result = .ok report := hreport.elim id mergeBy_of_merge
    obtain ⟨t, body, hrewritten, hrender, hstands⟩ :=
      exists_stands_of_merge hinto hplain hrows hmerged
    have hstands := hstands tree htree
    refine ⟨t, body, hrender, hstands.infix_trimEnd,
      covers_iff_keepsRow hrewritten hinto.members_eq, ?_⟩
    intro r comment hcomment hbelow hkept
    obtain ⟨-, hcount, x, w, hx, rfl, hrow⟩ := exists_row_eq hfeeds hcomment
    have hline : (Source.ofText host).line r = x ++ '#' :: w := (line_ofText hplain r).trans hrow
    obtain ⟨u, ch, htrim, hch⟩ := (Text.trimEnd_eq_nil_or_concat ('#' :: w)).resolve_left
      fun hnil => by
      have hblank := Text.isBlankText_of_trimEnd hnil
      rw [Text.isBlankText, List.all_cons] at hblank
      exact absurd (Bool.and_eq_true_iff.mp hblank).1 (by decide)
    have hshown : (row host r).Shows (u ++ [ch]) := by
      rw [← htrim, ← line_ofText hplain]
      refine Text.Shows.trimmed ⟨x, [], hx, rfl, ?_⟩
      rw [Text.splitOn_of_not_mem (Member.newline_not_mem_line host r), hline]
      simp
    rw [htrim]
    rcases hkept with habove | hkept | ⟨hbehind, hnext⟩
    · exact hstands.shows_of_row hfeeds (hrows tree htree) hmem hch hbelow habove hshown
    · obtain ⟨pre, st, post, e, hbody, hplaced, hbelongs, hlasting, huntouched⟩ := hkept
      have hspans := Member.spans_of_ofPlaced hplaced
      have hcovers := (hspans.covers_iff r).mpr hbelongs
      have hhost :=
        hrewritten.host e ((Member.mem_all hinto.members_eq).mpr ⟨pre, st, post, hbody, hplaced⟩)
      have hfirst := hstatements st (by simp [hbody])
      obtain ⟨inner, hinner, hshows⟩ := exists_text_of_renderBody hrender
      rw [hinner] at hstands
      refine hstands.shows_of_body hfeeds (hrows tree htree) hmem hch ?_
      rw [← htrim]
      refine (hshows e.1 ((hrewritten.mem_iff e.1 hhost).mpr ⟨hlasting, huntouched⟩) hhost
        _ ?_).trimmed
      exact hspans.shows_linesAt hcovers.1 hcovers.2 (fun hsame => by omega) hx hline
        (isBlankText_opening _ _ c) (newline_not_mem_opening host _ c)
    · exact hstands.shows_of_behind hfeeds (hrows tree htree) hmem hch hbehind hcount
        (hnext tree htree) hshown

/-- A comment below the header, one in a method and one below stay, though a field is replaced. -/
theorem merge_keeps_comments_method :
    let host : Text := ("class A:\n    # a\n\n    # b\n    x = 1\n".toList ++
      "    def f(self):\n        # c\n        pass\n    # d\n".toList)
    let snippet : Text := "class A:\n    x = 2\n".toList
    ∃ c members units report, EntersInto {} host snippet c members units ∧ hasPlainRows host ∧
      hasFeeds host ∧
      (∀ tree, read host = .ok tree → InRows host (classes tree)) ∧
      (∀ st ∈ c.body, st.place.first ≤ st.place.line) ∧
      (mergeBy .suite {} host snippet).result = .ok report ∧
      report.text.Shows "# a".toList ∧ report.text.Shows "# c".toList ∧
      report.text.Shows "# d".toList := by
  intro host snippet
  have hruns : (mergeBy .suite {} host snippet).result.isOk ∧ hasPlainRows host ∧ hasFeeds host ∧
      (∀ tree ∈ (read host).toOption, InRows host (classes tree) ∧
        ∀ d ∈ classes tree, d.place.line < 8) ∧
      (Rows.ofSource host).comment? 2 = some "# a".toList ∧
      (Rows.ofSource host).comment? 7 = some "# c".toList ∧
      (Rows.ofSource host).comment? 9 = some "# d".toList := by decide +kernel
  obtain ⟨hreportOk, hplain, hfeeds, hclasses, hfirst, hsecond, hthird⟩ := hruns
  obtain ⟨report, hreport⟩ := Traced.exists_of_isOk hreportOk
  obtain ⟨c, members, units, hinto, hstatements, hline, hstop8, habove, huntouched, hlast⟩ :=
    exists_entersInto host snippet
    (P := fun c members units => (∀ st ∈ c.body, st.place.first ≤ st.place.line) ∧
      c.place.line < 2 ∧
      c.place.stop = 8 ∧ 2 < firstRow host c ∧ (∀ u ∈ units, u.touches Member.rules ['f'] = false) ∧
      members.getLast?.any fun e => e.1.name == ['f'] && e.1.start ≤ 7 && 7 ≤ e.1.stop) (by decide)
        (by decide +kernel)
  obtain ⟨e, he, hplace⟩ := (Option.any_eq_true _ _).mp hlast
  obtain ⟨⟨hname, hstart⟩, hstop⟩ : (e.1.name = ['f'] ∧ e.1.start ≤ 7) ∧ 7 ≤ e.1.stop := by
    simpa using hplace
  have hclasses : ∀ tree, read host = .ok tree →
      InRows host (classes tree) ∧ ∀ d ∈ classes tree, d.place.line < 8 := fun tree htree =>
    hclasses tree (by rw [htree]; rfl)
  have hrows := fun tree htree => (hclasses tree htree).1
  obtain ⟨-, -, -, -, -, hshows⟩ :=
    (merge_keeps_comments hinto hplain hfeeds hrows hstatements).2 report (.inl hreport)
  refine ⟨_, members, _, report, hinto, hplain, hfeeds, hrows, hstatements, hreport, ?_, ?_, ?_⟩
  · exact hshows 2 _ hfirst hline (.inl habove)
  · exact hshows 7 _ hsecond (by omega) (.inr (.inl (keepsRow_of_mem hinto.members_eq
      (List.mem_of_getLast? he) ⟨hstart, hstop⟩ (Extraction.lasting_of_getLast? he)
      (by rw [hname]; exact huntouched))))
  · refine hshows 9 _ hthird (by omega) (.inr (.inr ⟨by omega, fun tree htree d hd hlt => ?_⟩))
    have hd := (hclasses tree htree).2 d hd
    omega

/-- A comment between two members, with empty lines around it, is lost, though the snippet names
neither. -/
theorem merge_drops_comment :
    let host : Text :=
      "class A:\n    x = 1\n\n    # note\n\n    def f(self):\n        pass\n".toList
    let snippet : Text := "class A:\n    y = 2\n".toList
    let merged : Text :=
      "class A:\n    x = 1\n\n    def f(self):\n        pass\n\n    y = 2\n".toList
    ∃ c members units, EntersInto {} host snippet c members units ∧ c.place.line < 4 ∧
      4 ≤ c.place.stop ∧
      (Rows.ofSource host).comment? 4 = some "# note".toList ∧
      (∀ e ∈ members, ∀ u ∈ units, u.touches Member.rules e.1.name = false) ∧
      (Graft.merge .suite {} host snippet).result.toOption.map (·.text) = some merged ∧
      ¬"# note".toList <:+: merged := by
  intro host snippet merged
  obtain ⟨c, members, units, hinto, hline, hstop, huntouched⟩ := exists_entersInto host snippet
    (P := fun c members units => c.place.line < 4 ∧ 4 ≤ c.place.stop ∧
      ∀ e ∈ members, ∀ u ∈ units, u.touches Member.rules e.1.name = false) (by decide)
        (by decide +kernel)
  exact ⟨c, members, units, hinto, hline, hstop, by decide +kernel, huntouched, by decide +kernel,
    by decide +kernel⟩

end

end Suite

end Graft
