import Graft.Proofs.Reconcile
import Graft.Writer

set_option autoImplicit false

/-!
Writing through a temporary file. A write that is refused, at whichever point, leaves the files as
they were; one that succeeds changes the file it names and nothing else. So after any requests a
file holds what the last of them that succeeded wrote there, and the temporary files are all gone.
-/

namespace Graft

namespace Path

def entered : Path → List Text → List Path
  | _, [] => []
  | p, c :: cs => if c == up then entered p.dropLast cs else (p ++ [c]) :: entered (p ++ [c]) cs

variable {p : Path} {c : Text} {cs : List Text}

theorem enter_of_up (hc : c == up) : enter p c = p.dropLast := if_pos hc

theorem enter_of_ne (hc : ¬c == up) : enter p c = p ++ [c] := if_neg hc

theorem entered_of_up (hc : c == up) : entered p (c :: cs) = entered p.dropLast cs := if_pos hc

theorem entered_of_ne (hc : ¬c == up) : entered p (c :: cs) = (p ++ [c]) :: entered (p ++ [c]) cs :=
  if_neg hc

theorem normal_concat (p : Path) (c : Text) : normal (p ++ [c]) = enter (normal p) c := by
  rw [normal, List.foldl_append]
  rfl

theorem getLast?_movedTo (p folder : Path) : (p.movedTo folder).getLast? = p.getLast? := by
  unfold movedTo
  cases p.getLast? with
  | none => rfl
  | some c => exact List.getLast?_concat

theorem movedTo_normal {p : Path} (hp : p.getLast? ≠ some up) :
    p.movedTo (normal p.dropLast) = p.normal := by
  rcases List.eq_nil_or_concat p with rfl | ⟨q, c, rfl⟩
  · rfl
  · rw [List.concat_eq_append, List.getLast?_concat] at hp
    have hc : ¬c == up := fun h => hp (congrArg some (eq_of_beq h))
    rw [List.concat_eq_append, movedTo, List.getLast?_concat, List.dropLast_concat, normal_concat,
      enter_of_ne hc]

end Path

namespace FileTree

variable {t u : FileTree} {p source target temporary : Path} {cs : List Text}
  {check : Text → Except Error Unit}
  {content : List Nat}

theorem get?_erase (t : FileTree) (p q : Path) :
    (t.erase p).get? q = if q = p then none else t.get? q := by
  unfold get? erase
  induction t.files with
  | nil => simp
  | cons e files ih =>
    obtain ⟨k, text⟩ := e
    by_cases hk : k = p
    · subst hk
      rw [List.filter_cons_of_neg (by simp), ih]
      split
      · rfl
      · next hq => rw [List.lookup_cons, beq_false_of_ne hq]
    · rw [List.filter_cons_of_pos (by simpa using hk), List.lookup_cons, List.lookup_cons, ih]
      split
      · next hq =>
        rw [if_neg]
        rw [eq_of_beq hq]
        exact hk
      · rfl

theorem get?_put (t : FileTree) (p q : Path) (text : Text) :
    (t.put p text).get? q = if q = p then some text else t.get? q := by
  have herase := get?_erase t p q
  unfold get? at herase ⊢
  rw [put, List.lookup_append, herase, List.lookup_cons, List.lookup_nil]
  by_cases hq : q = p
  · simp [hq]
  · simp [hq, beq_false_of_ne hq]

theorem files_erase_put (t : FileTree) (p : Path) (text : Text) :
    ((t.put p text).erase p).files = (t.erase p).files := by
  simp [put, erase]

theorem files_erase_of_get? (h : t.get? p = none) : (t.erase p).files = t.files := by
  refine List.filter_eq_self.mpr fun e he => ?_
  have hne := List.lookup_eq_none_iff.mp h e he
  exact bne_iff_ne.mpr fun heq => ne_of_beq_false (by simpa using hne) heq.symm

theorem get?_congr (h : t.files = u.files) (p : Path) : t.get? p = u.get? p := by rw [get?, get?, h]

theorem files_put_congr (h : t.files = u.files) (p : Path) (text : Text) :
    (t.put p text).files = (u.put p text).files := by
  simp [put, erase, h]

theorem le_foldl_max {l : List Nat} {n : Nat} (h : n ∈ l) : n ≤ l.foldl max 0 := by
  rw [List.foldl_max_eq_max (List.ne_nil_of_mem h), Nat.zero_max]
  exact List.le_max_of_mem h

theorem get?_temporary (t : FileTree) (folder : Path) (name : Text) :
    t.get? (folder ++ [t.temporaryName name]) = none := by
  refine List.lookup_eq_none_iff.mpr fun e he => ?_
  have hle : ∀ c ∈ e.1, c.length ≤ t.longestName := fun c hc =>
    Nat.le_trans (le_foldl_max (List.mem_map_of_mem hc)) (le_foldl_max (List.mem_map_of_mem he))
  have hlong : t.longestName < (t.temporaryName name).length := by
    simp only [temporaryName, List.length_append, List.length_cons, List.length_replicate]
    omega
  rw [bne, beq_false_of_ne, Bool.not_false]
  intro heq
  exact absurd (hle _ (heq ▸ List.mem_concat_self)) (Nat.not_le.mpr hlong)

theorem toNat_ofNat {n : Nat} (h : n.isValidChar) : (Char.ofNat n).toNat = n := by
  rw [Char.ofNat, dif_pos h]
  rfl

theorem encode_eq_ok_iff {text : Text} :
    encode content = .ok text ↔ text.map Char.toNat = content := by
  unfold encode
  induction content generalizing text with
  | nil => simp [pure, Except.pure, eq_comm]
  | cons n content ih =>
    rw [List.mapM_cons]
    constructor
    · intro h
      obtain ⟨c, hc, h⟩ := Traced.exists_of_bind h
      obtain ⟨rest, hrest, h⟩ := Traced.exists_of_bind h
      obtain rfl := Except.ok.inj h
      split at hc
      · next hvalid =>
        obtain rfl := Except.ok.inj hc
        rw [List.map_cons, toNat_ofNat hvalid, ih.mp hrest]
      · contradiction
    · intro h
      obtain ⟨c, rest, rfl, rfl, hrest⟩ := List.map_eq_cons_iff.mp h
      have hvalid : c.toNat.isValidChar := c.valid
      rw [if_pos hvalid, Char.ofNat_toNat, Traced.ok_bind, ih.mpr hrest]
      rfl

theorem files_makeFolders (t : FileTree) (p : Path) (cs : List Text) :
    (t.makeFolders p cs).1.files = t.files := by
  fun_induction makeFolders t p cs with
  | case1 => rfl
  | case2 => assumption
  | case3 => rfl
  | case4 => assumption
  | case5 => assumption

theorem makeFolders_eq_ok_iff (t : FileTree) (p : Path) (cs : List Text) (folder : Path) :
    (t.makeFolders p cs).2 = .ok folder ↔
      (∀ f ∈ Path.entered p cs, t.get? f = none) ∧ folder = cs.foldl Path.enter p := by
  fun_induction makeFolders t p cs with
  | case1 t p => simp [Path.entered, eq_comm]
  | case2 t p c cs hc ih => rw [ih, Path.entered_of_up hc, List.foldl_cons, Path.enter_of_up hc]
  | case3 t p c cs hc q hfile =>
    have hsome : t.get? (p ++ [c]) ≠ none := Option.isSome_iff_ne_none.mp hfile
    simp [Path.entered_of_ne hc, hsome]
  | case4 t p c cs hc q hfile hfolder ih =>
    have hnone : t.get? (p ++ [c]) = none := by simpa using hfile
    rw [ih, Path.entered_of_ne hc, List.foldl_cons, Path.enter_of_ne hc, List.forall_mem_cons]
    exact and_congr_left' (and_iff_right hnone).symm
  | case5 t p c cs hc q hfile hfolder ih =>
    have hnone : t.get? (p ++ [c]) = none := by simpa using hfile
    rw [ih, Path.entered_of_ne hc, List.foldl_cons, Path.enter_of_ne hc, List.forall_mem_cons]
    exact and_congr_left' (and_iff_right hnone).symm

theorem isFolder_makeFolders {folder : Path} (h : (t.makeFolders p cs).2 = .ok folder) (q : Path) :
    (t.makeFolders p cs).1.isFolder q ↔ t.isFolder q ∨ q ∈ Path.entered p cs := by
  fun_induction makeFolders t p cs with
  | case1 t p => simp [Path.entered]
  | case2 t p c cs hc ih => rw [ih h, Path.entered_of_up hc]
  | case3 t p c cs hc q' hfile => contradiction
  | case4 t p c cs hc q' hfile hfolder ih =>
    rw [ih h, Path.entered_of_ne hc, List.mem_cons]
    constructor
    · rintro (hq | hq)
      · exact .inl hq
      · exact .inr (.inr hq)
    · rintro (hq | rfl | hq)
      · exact .inl hq
      · exact .inl hfolder
      · exact .inr hq
  | case5 t p c cs hc q' hfile hfolder ih =>
    rw [ih h, Path.entered_of_ne hc, List.mem_cons, ← or_assoc]
    refine or_congr_left ?_
    simp [isFolder, addFolder, or_assoc, q']

def IsFree (t : FileTree) (target : Path) : Prop :=
  target.getLast? ≠ some Path.up ∧ t.isFolder target = false

def Passes (check : Text → Except Error Unit) (content : List Nat) (text : Text) : Prop :=
  text.map Char.toNat = content ∧ check text = .ok ()

theorem move_of_isFree {text : Text} (htarget : t.IsFree target)
    (hsource : t.get? source = some text) :
    t.move source target = .ok ((t.erase source).put target text) := by
  have hne : target.isEmpty = false := (Bool.or_eq_false_iff.mp htarget.2).1
  simp [move, hne, htarget.1, htarget.2, hsource]

theorem move_of_not_isFree (source : Path) (htarget : ¬t.IsFree target) :
    ∃ e, t.move source target = .error e := by
  unfold move
  split
  · exact ⟨.busy, rfl⟩
  · next hnamed =>
    rw [if_pos]
    · exact ⟨.isDirectory, rfl⟩
    · refine Bool.not_eq_false _ |>.mp fun hfolder => htarget ⟨fun hup => hnamed ?_, hfolder⟩
      simp [hup]

theorem commit_cases (t : FileTree) (check : Text → Except Error Unit) (temporary target : Path)
    (content : List Nat) :
    (t.IsFree target ∧ ∃ text, Passes check content text ∧ t.commit check temporary target content =
      (((t.put temporary text).erase temporary).put target text, .ok ())) ∨
    (¬(t.IsFree target ∧ ∃ text, Passes check content text) ∧ ∃ u e,
      t.commit check temporary target content = (u, .error e) ∧
        (u.erase temporary).files = (t.erase temporary).files) := by
  unfold commit
  cases hencode : encode content with
  | error e =>
    refine .inr ⟨?_, t, e, rfl, rfl⟩
    rintro ⟨-, text, htext, -⟩
    rw [encode_eq_ok_iff.mpr htext] at hencode
    contradiction
  | ok text =>
    have htext := encode_eq_ok_iff.mp hencode
    have honly : ∀ text', Passes check content text' → text' = text := fun text' h =>
      Except.ok.inj ((encode_eq_ok_iff.mpr h.1).symm.trans hencode)
    cases hcheck : check text with
    | error e =>
      refine .inr ⟨?_, t.put temporary text, e, by simp [hcheck], files_erase_put t temporary text⟩
      rintro ⟨-, text', hpasses⟩
      have hok := hpasses.2
      rw [honly text' hpasses, hcheck] at hok
      contradiction
    | ok =>
      by_cases hfree : t.IsFree target
      · refine .inl ⟨hfree, text, ⟨htext, hcheck⟩, ?_⟩
        have hfree' : (t.put temporary text).IsFree target := hfree
        have hsource : (t.put temporary text).get? temporary = some text := by
          rw [get?_put, if_pos rfl]
        simp [hcheck, move_of_isFree hfree' hsource]
      · have hfree' : ¬(t.put temporary text).IsFree target := hfree
        obtain ⟨e, he⟩ := move_of_not_isFree temporary hfree'
        refine .inr ⟨fun h => hfree h.1, t.put temporary text, e, ?_,
          files_erase_put t temporary text⟩
        simp [hcheck, he]

theorem replace_cases (t : FileTree) (check : Text → Except Error Unit) (target : Path)
    (content : List Nat) (hfresh : t.get? temporary = none) :
    (t.IsFree target ∧ ∃ u text, Passes check content text ∧
      t.replace check temporary target content = (u, .ok ()) ∧
        u.files = (t.put target text).files) ∨
    (¬(t.IsFree target ∧ ∃ text, Passes check content text) ∧ ∃ u e,
      t.replace check temporary target content = (u, .error e) ∧ u.files = t.files) := by
  have hkept : ∀ text, ((t.put temporary text).erase temporary).files = t.files := fun text =>
    (files_erase_put t temporary text).trans (files_erase_of_get? hfresh)
  have hfree : (t.put temporary []).IsFree target ↔ t.IsFree target := Iff.rfl
  unfold replace
  rcases commit_cases (t.put temporary []) check temporary target content with
    ⟨htarget, text, hpasses, hcommit⟩ | ⟨hrefused, u, e, hcommit, hrest⟩
  · refine .inl ⟨hfree.mp htarget, _, text, hpasses, by rw [hcommit], ?_⟩
    -- The file is gone from its temporary place before it stands in the new one.
    have hfiles : (((t.put temporary []).put temporary text).erase temporary).files = t.files :=
      (files_erase_put _ temporary text).trans (hkept [])
    exact files_put_congr hfiles target text
  · exact .inr ⟨hrefused, u.erase temporary, e, by rw [hcommit], hrest.trans (hkept [])⟩

/-- What can be written where: no file is in the way of the folders, the target has a name of its
own and is no folder, and the content passes the check. -/
structure Admits (t : FileTree) (check : Text → Except Error Unit) (path : Path)
    (content : List Nat) : Prop where
  way : ∀ f ∈ Path.entered [] path.dropLast, t.get? f = none
  named : path.getLast? ≠ some Path.up
  noFolder : t.isFolder path.normal = false ∧ path.normal ∉ Path.entered [] path.dropLast
  passes : ∃ text, Passes check content text

theorem write_cases (t : FileTree) (check : Text → Except Error Unit) (path : Path)
    (content : List Nat) :
    (t.Admits check path content ∧ ∃ u text, t.write check path content = (u, .ok ()) ∧
      text.map Char.toNat = content ∧ u.files = (t.put path.normal text).files) ∨
    (¬t.Admits check path content ∧ ∃ u e,
      t.write check path content = (u, .error e) ∧ u.files = t.files) := by
  have hfiles := files_makeFolders t [] path.dropLast
  have hway := makeFolders_eq_ok_iff t [] path.dropLast
  have hfolders := fun folder => @isFolder_makeFolders t [] path.dropLast folder
  unfold write
  cases hmake : t.makeFolders [] path.dropLast with
  | mk m made =>
  simp only [hmake] at hfiles hway hfolders
  cases made with
  | error e =>
    refine .inr ⟨fun h => ?_, m, e, rfl, hfiles⟩
    exact absurd ((hway _).mpr ⟨h.way, rfl⟩) (by simp)
  | ok folder =>
    obtain ⟨hopen, hfolder⟩ := (hway folder).mp rfl
    have hfree : m.IsFree (path.movedTo folder) ↔ path.getLast? ≠ some Path.up ∧
        t.isFolder path.normal = false ∧ path.normal ∉ Path.entered [] path.dropLast := by
      rw [IsFree, Path.getLast?_movedTo]
      refine and_congr_right fun hnamed => ?_
      have htarget : path.movedTo folder = path.normal := hfolder ▸ Path.movedTo_normal hnamed
      rw [htarget, ← Bool.not_eq_true, hfolders folder rfl, not_or, Bool.not_eq_true]
    rcases replace_cases m check (path.movedTo folder) content
        (get?_temporary m folder (path.getLast?.getD [])) with
      ⟨htarget, u, text, hpasses, hwrite, hu⟩ | ⟨hrefused, u, e, hwrite, hu⟩
    · obtain ⟨hnamed, hnoFolder⟩ := hfree.mp htarget
      refine .inl ⟨⟨hopen, hnamed, hnoFolder, text, hpasses⟩, u, text, hwrite, hpasses.1, ?_⟩
      have htarget : path.movedTo folder = path.normal := hfolder ▸ Path.movedTo_normal hnamed
      rw [hu, htarget, files_put_congr hfiles]
    · exact .inr ⟨fun h => hrefused ⟨hfree.mpr ⟨h.named, h.noFolder⟩, h.passes⟩, u, e, hwrite,
        hu.trans hfiles⟩

end FileTree

def FileTree.codes? (t : FileTree) (p : Path) : Option (List Nat) :=
  (t.get? p).map (·.map Char.toNat)

namespace Writer

/-- A request served as a whole or not at all. It succeeds just when it is admissible; then its file
holds its content and all others are as before, and otherwise no file has changed. -/
structure Whole (w : Writer) (r : Request) (before : FileTree)
    (s : FileTree × Except Error Unit) : Prop where
  isOk_iff : s.2.isOk ↔ before.Admits (w.check r.readAs r.validates) r.path r.content
  written : s.2.isOk →
    s.1.codes? r.path.normal = some r.content ∧ ∀ p, p ≠ r.path.normal → s.1.get? p = before.get? p
  refused : ¬s.2.isOk → s.1.files = before.files

theorem whole_write (w : Writer) (t : FileTree) (r : Request) : w.Whole r t (w.write t r) := by
  unfold write
  rcases t.write_cases (w.check r.readAs r.validates) r.path r.content with
    ⟨hadmits, u, text, hwrite, htext, hfiles⟩ | ⟨hnot, u, e, hwrite, hfiles⟩
  · have hget : ∀ p, u.get? p = if p = r.path.normal then some text else t.get? p := fun p =>
      (FileTree.get?_congr hfiles p).trans (t.get?_put r.path.normal p text)
    rw [hwrite]
    refine ⟨⟨fun _ => hadmits, fun _ => rfl⟩, fun _ => ⟨?_, fun p hp => ?_⟩, fun h => absurd rfl h⟩
    · rw [FileTree.codes?, hget, if_pos rfl, Option.map_some, htext]
    · rw [hget, if_neg hp]
  · rw [hwrite]
    exact ⟨⟨fun h => absurd h Bool.false_ne_true, fun h => absurd h hnot⟩,
      fun h => absurd h Bool.false_ne_true, fun _ => hfiles⟩

def after (w : Writer) (t : FileTree) (rs : List Request) : FileTree :=
  ((w.run t rs).getLast?.map (·.1)).getD t

theorem after_cons (w : Writer) (t : FileTree) (r : Request) (rs : List Request) :
    w.after t (r :: rs) = w.after (w.write t r).1 rs := by
  unfold after
  rw [run, List.getLast?_cons]
  cases (w.run (w.write t r).1 rs).getLast? <;> rfl

/-- What the last of some requests that succeeded wrote to a place. -/
def lastWritten (p : Path) (served : List (Request × Except Error Unit)) : Option (List Nat) :=
  (served.filter fun s => s.2.isOk && s.1.path.normal == p).getLast?.map (·.1.content)

theorem lastWritten_cons (p : Path) (s : Request × Except Error Unit)
    (served : List (Request × Except Error Unit)) :
    lastWritten p (s :: served) =
      (lastWritten p served).or
        (if s.2.isOk && s.1.path.normal == p then some s.1.content else none) := by
  unfold lastWritten
  rw [List.filter_cons]
  split
  · rw [List.getLast?_cons]
    cases (served.filter fun s => s.2.isOk && s.1.path.normal == p).getLast? <;> rfl
  · rw [Option.or_none]

theorem Whole.codes? {w : Writer} {r : Request} {before : FileTree}
    {s : FileTree × Except Error Unit} (h : w.Whole r before s) (p : Path) :
    s.1.codes? p =
      (if s.2.isOk && r.path.normal == p then some r.content else none).or (before.codes? p) := by
  by_cases hok : s.2.isOk
  · obtain ⟨hwritten, hothers⟩ := h.written hok
    by_cases hp : r.path.normal = p
    · subst hp
      simp [hok, hwritten]
    · simp [hp, FileTree.codes?, hothers p (Ne.symm hp)]
  · simp [hok, FileTree.codes?, FileTree.get?_congr (h.refused hok)]

/-- Every one of some requests is served as a whole or not at all, on the tree that those before it
have left, and in the end a file holds what the last request that succeeded wrote there, or what it
held at first. -/
theorem run_whole (w : Writer) (t : FileTree) (rs : List Request) :
    (w.run t rs).length = rs.length ∧
    (∀ s ∈ rs.zip ((t :: (w.run t rs).map (·.1)).zip (w.run t rs)), w.Whole s.1 s.2.1 s.2.2) ∧
    ∀ p, (w.after t rs).codes? p =
      (lastWritten p (rs.zip ((w.run t rs).map (·.2)))).or (t.codes? p) := by
  induction rs generalizing t with
  | nil => exact ⟨rfl, by simp, fun p => rfl⟩
  | cons r rs ih =>
    -- The requests behind the first start from the tree that it leaves, whether it succeeded or
    -- not.
    obtain ⟨hlength, hsteps, hlast⟩ := ih (w.write t r).1
    have hfirst := whole_write w t r
    refine ⟨by rw [run, List.length_cons, List.length_cons, hlength], fun s hs => ?_, fun p => ?_⟩
    · rw [run, List.map_cons, List.zip_cons_cons, List.zip_cons_cons, List.mem_cons] at hs
      rcases hs with rfl | hs
      · exact hfirst
      · exact hsteps s hs
    · rw [after_cons, hlast, hfirst.codes?, run, List.map_cons, List.zip_cons_cons,
        lastWritten_cons, Option.or_assoc]

-- A file replaced; then a folder for a target, a file for a folder, a surrogate, and a content that
-- the
-- writer's own check rejects; at last a file in a new folder, by way of another one.
example :
    let w : Writer := { checks := [(.style, fun _ => .error (.rejected []))] }
    let t : FileTree := .ofFiles [([['a']], ['x']), ([['d'], ['b']], ['y'])]
    let rs : List Request := [⟨[['a']], [122], none, true⟩, ⟨[['d']], [], none, true⟩,
      ⟨[['a'], ['c']], [], none, true⟩, ⟨[['a']], [0xd800], none, true⟩,
      ⟨[['a']], [], some .style, true⟩, ⟨[['d'], ['e'], Path.up, ['c']], [], some .style, false⟩]
    (w.run t rs).map (·.2.isOk) = [true, false, false, false, false, true] ∧
      (w.after t rs).files = [([['d'], ['b']], ['y']), ([['a']], ['z']), ([['d'], ['c']], [])] := by
  decide +kernel

end Writer

end Graft
