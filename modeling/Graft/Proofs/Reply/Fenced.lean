import Graft.Proofs.Item.Lexeme
import Graft.Reply

set_option autoImplicit false

/-!
Fenced blocks written out with prose between them, and read back. Every block is found where it
stands, none is made of prose, and of those found the first of the longest is taken: among the
blocks of the language that is asked for, or among all of them if none is of that language.
-/

namespace Graft.Reply

def tick : Char := '\x60'

/-- A block with its tag. Its code holds no fence and ends with its last line. -/
structure Fenced where
  tag : Text
  tag_chars : ∀ c ∈ tag, isTagChar c
  code : Text
  code_unfenced : ¬fence <:+: code
  code_ends : code = [] ∨ ∃ u, code = u ++ ['\n']

namespace Fenced

def print (f : Fenced) : Text := fence ++ f.tag ++ '\n' :: (f.code ++ fence)

def block (f : Fenced) : Block := ⟨Text.lower f.tag, f.code⟩

theorem tagChar_spec {c : Char} (hc : isTagChar c) : Text.isIndent c = false ∧ c ≠ '\n' := by
  have hne : ∀ e : Char, isTagChar e = false → c ≠ e := fun e he heq => by
    rw [heq, he] at hc
    contradiction
  simp [Text.isIndent, hne ' ' (by decide +kernel), hne '\t' (by decide +kernel),
    hne '\n' (by decide +kernel)]

theorem find_fence (f : Fenced) (t : Text) :
    Text.find? fence (f.code ++ (fence ++ t)) = some f.code.length := by
  rw [Text.find_eq_some_iff]
  refine ⟨by simp, by simp, fun m hm hfence => ?_⟩
  rw [List.drop_append_of_le_length (Nat.le_of_lt hm)] at hfence
  -- a fence that starts in the code lies within it or reaches over its last newline
  rcases List.prefix_or_prefix_of_prefix hfence (List.prefix_append _ _) with hinside | hover
  · exact f.code_unfenced (hinside.isInfix.trans (List.drop_suffix m f.code).isInfix)
  · rcases f.code_ends with hnil | ⟨u, hu⟩
    · simp [hnil] at hm
    · have hle : m ≤ u.length := by
        rw [hu, List.length_append, List.length_singleton] at hm
        omega
      rw [hu, List.drop_append_of_le_length hle] at hover
      have hmem : '\n' ∈ fence := hover.subset (by simp)
      exact absurd hmem (by decide)

theorem block_print (f : Fenced) (t : Text) : block? (f.print ++ t) = some (f.block, t) := by
  have hprint : f.print ++ t = fence ++ (f.tag ++ '\n' :: (f.code ++ (fence ++ t))) := by
    simp [print]
  have hindent : (f.tag ++ '\n' :: (f.code ++ (fence ++ t))).dropWhile Text.isIndent =
      f.tag ++ '\n' :: (f.code ++ (fence ++ t)) := by
    cases htag : f.tag with
    | nil => exact List.dropWhile_cons_of_neg (by decide)
    | cons c tag =>
      have hc := (tagChar_spec (f.tag_chars c (by simp [htag]))).1
      exact List.dropWhile_cons_of_neg (by simp [hc])
  have hline : ∀ c ∈ f.tag, (c != '\n') = true := fun c hc => by
    simpa using (tagChar_spec (f.tag_chars c hc)).2
  have hopens : (fence ++ (f.tag ++ '\n' :: (f.code ++ (fence ++ t)))).startsWith fence := by
    simp [Text.startsWith]
  have htag : ('\n' :: (f.code ++ (fence ++ t))).takeWhile isTagChar = [] :=
    List.takeWhile_cons_of_neg (by decide +kernel)
  have hclose : (f.code ++ (fence ++ t)).drop (f.code.length + 3) = t := by
    rw [← List.drop_drop, List.drop_left]
    rfl
  have hdrop : (fence ++ (f.tag ++ '\n' :: (f.code ++ (fence ++ t)))).drop 3 =
      f.tag ++ '\n' :: (f.code ++ (fence ++ t)) := rfl
  rw [hprint, block?, hopens]
  simp only [Bool.not_true, Bool.false_eq_true, if_false, hdrop, hindent,
    List.dropWhile_append_of_pos hline, List.takeWhile_append_of_pos f.tag_chars, htag,
    List.append_nil]
  rw [List.dropWhile_cons_of_neg (by decide)]
  simp only [find_fence, Option.map_some, List.take_left, hclose]
  rfl

end Fenced

structure Prose where
  text : Text
  unticked : tick ∉ text

structure Passage where
  lead : Prose
  block : Fenced

def Passage.print (p : Passage) : Text := p.lead.text ++ p.block.print

theorem block_of_head {c : Char} (hc : c ≠ tick) (t : Text) : block? (c :: t) = none := by
  have hfence : fence = [tick, tick, tick] := rfl
  have hclosed : Text.startsWith (c :: t) fence = false := by
    simp [Text.startsWith, hfence, List.isPrefixOf, Ne.symm hc]
  simp [block?, hclosed]

theorem blocksFrom_append {t : Text} (ht : tick ∉ t) {fuel : Nat} (hfuel : t.length ≤ fuel)
    (u : Text) :
    blocksFrom fuel (t ++ u) = blocksFrom (fuel - t.length) u := by
  induction t generalizing fuel with
  | nil => rfl
  | cons c t ih =>
    rw [List.mem_cons, not_or] at ht
    cases fuel with
    | zero => simp at hfuel
    | succ fuel =>
      rw [List.length_cons] at hfuel
      rw [List.cons_append, blocksFrom, block_of_head (Ne.symm ht.1), List.length_cons,
        Nat.add_sub_add_right]
      exact ih ht.2 (by omega)

theorem blocksFrom_nil (fuel : Nat) : blocksFrom fuel [] = [] := by
  cases fuel <;> rfl

theorem Fenced.blocksFrom_print (f : Fenced) (fuel : Nat) (t : Text) :
    blocksFrom (fuel + 1) (f.print ++ t) = f.block :: blocksFrom fuel t := by
  have hread := f.block_print t
  obtain ⟨c, u, hu⟩ : ∃ c u, f.print ++ t = c :: u := ⟨_, _, rfl⟩
  rw [hu] at hread ⊢
  rw [blocksFrom, hread]

theorem blocksFrom_passages (ps : List Passage) (trail : Prose) {fuel : Nat}
    (hfuel : (ps.flatMap Passage.print ++ trail.text).length < fuel) :
    blocksFrom fuel (ps.flatMap Passage.print ++ trail.text) = ps.map (·.block.block) := by
  induction ps generalizing fuel with
  | nil =>
    have htrail := blocksFrom_append trail.unticked (Nat.le_of_lt hfuel) []
    rwa [List.append_nil, blocksFrom_nil] at htrail
  | cons p ps ih =>
    have hcut : (p :: ps).flatMap Passage.print ++ trail.text =
        p.lead.text ++ (p.block.print ++ (ps.flatMap Passage.print ++ trail.text)) := by
      simp [Passage.print]
    have hprint : 0 < p.block.print.length := List.length_pos_iff.mpr (by simp [Fenced.print])
    rw [hcut, List.length_append, List.length_append] at hfuel
    rw [hcut, blocksFrom_append p.lead.unticked (by omega)]
    obtain ⟨k, hk⟩ : ∃ k, fuel - p.lead.text.length = k + 1 :=
      ⟨fuel - p.lead.text.length - 1, by omega⟩
    rw [hk, Fenced.blocksFrom_print, ih (by omega), List.map_cons]

theorem blocks_passages (ps : List Passage) (trail : Prose) :
    blocks (ps.flatMap Passage.print ++ trail.text) = (ps.map (·.block)).map Fenced.block := by
  rw [blocks, blocksFrom_passages ps trail (Nat.lt_succ_self _), List.map_map]
  rfl

/-- The first of the longest: those before it are shorter, and none behind it is longer. -/
def FirstLongest (fs : List Fenced) (f : Fenced) : Prop :=
  ∃ pre post, fs = pre ++ f :: post ∧ (∀ g ∈ pre, g.code.length < f.code.length) ∧
    ∀ g ∈ post, g.code.length ≤ f.code.length

theorem exists_longest {fs : List Fenced} (h : fs ≠ []) :
    ∃ f, FirstLongest fs f ∧ longest (fs.map Fenced.block) = some f.block := by
  induction fs with
  | nil => contradiction
  | cons f fs ih =>
    cases hfs : fs with
    | nil => exact ⟨f, ⟨[], [], rfl, by simp, by simp⟩, rfl⟩
    | cons g gs =>
      rw [← hfs]
      obtain ⟨b, ⟨pre, post, hsplit, hpre, hpost⟩, hlongest⟩ := ih (by simp [hfs])
      by_cases hlt : f.code.length < b.code.length
      · refine ⟨b, ⟨f :: pre, post, by rw [hsplit]; rfl, ?_, hpost⟩, ?_⟩
        · exact List.forall_mem_cons.mpr ⟨hlt, hpre⟩
        · rw [List.map_cons, longest, hlongest]
          exact if_pos hlt
      · refine ⟨f, ⟨[], fs, rfl, by simp, fun x hx => ?_⟩, ?_⟩
        · have hx' : x.code.length ≤ b.code.length := by
            rw [hsplit, List.mem_append, List.mem_cons] at hx
            rcases hx with hx | rfl | hx
            · exact Nat.le_of_lt (hpre x hx)
            · exact Nat.le_refl _
            · exact hpost x hx
          omega
        · rw [List.map_cons, longest, hlongest]
          exact if_neg hlt

/-- A language is asked for by a name that is not empty. -/
def Asks (language : Option Text) (name : Text) : Prop := language = some name ∧ name ≠ []

/-- The tag of the block, in lower case, stands for the language. -/
def Fenced.isOf (name : Text) (f : Fenced) : Bool := (tagsOf name).contains (Text.lower f.tag)

theorem filter_blocks (name : Text) (fs : List Fenced) :
    ((fs.map Fenced.block).filter fun b => (tagsOf name).contains b.tag) =
      (fs.filter (·.isOf name)).map Fenced.block :=
  List.filter_map

/-- Blocks are read back from a reply, however many there are and whatever prose stands between
them: what is extracted is the code of the first of the longest, among the blocks of the language
that is asked for if there are any, and among all blocks otherwise. -/
theorem extract_passages (p : Passage) (ps : List Passage) (trail : Prose)
    (language : Option Text) :
    let fs := (p :: ps).map (·.block)
    let text := (p :: ps).flatMap Passage.print ++ trail.text
    (∀ name, Asks language name → (∃ f ∈ fs, f.isOf name) →
      ∃ f, FirstLongest (fs.filter (·.isOf name)) f ∧ extract? text language = some f.code) ∧
    ((∀ name, Asks language name → ∀ f ∈ fs, f.isOf name = false) →
      ∃ f, FirstLongest fs f ∧ extract? text language = some f.code) := by
  intro fs text
  have hblocks : blocks text = fs.map Fenced.block := blocks_passages (p :: ps) trail
  constructor
  · rintro name ⟨rfl, hname⟩ ⟨g, hg, hof⟩
    have hchosen : fs.filter (·.isOf name) ≠ [] :=
      List.ne_nil_of_mem (List.mem_filter.mpr ⟨hg, hof⟩)
    obtain ⟨f, hf, hlongest⟩ := exists_longest hchosen
    refine ⟨f, hf, ?_⟩
    simp only [extract?, hblocks, List.isEmpty_iff, hname, if_false, filter_blocks,
      List.map_eq_nil_iff, hchosen, hlongest]
    rfl
  · intro hnone
    obtain ⟨f, hf, hlongest⟩ := exists_longest (show fs ≠ [] by simp [fs])
    refine ⟨f, hf, ?_⟩
    have hempty : ∀ name, Asks language name → fs.filter (·.isOf name) = [] := fun name hname =>
      List.filter_eq_nil_iff.mpr fun f hf => by simp [hnone name hname f hf]
    cases language with
    | none =>
      simp only [extract?, hblocks, List.isEmpty_nil, if_true, hlongest]
      rfl
    | some name =>
      by_cases hname : name = []
      · simp only [extract?, hblocks, hname, List.isEmpty_nil, if_true, hlongest]
        rfl
      · simp only [extract?, hblocks, List.isEmpty_iff, hname, if_false, filter_blocks,
          hempty name ⟨rfl, hname⟩, List.map_nil, if_true, hlongest]
        rfl

def quotingBlock : Fenced where
  tag := "PY".toList
  tag_chars := List.all_eq_true.mp (by decide +kernel)
  code := "a = '\x60\x60'\n".toList
  code_unfenced := by decide
  code_ends := .inr ⟨"a = '\x60\x60'".toList, rfl⟩

def emptyBlock : Fenced where
  tag := []
  tag_chars := by simp
  code := []
  code_unfenced := by decide
  code_ends := .inl rfl

def scriptBlock : Fenced where
  tag := "js".toList
  tag_chars := List.all_eq_true.mp (by decide +kernel)
  code := "let b = 1;\nlet c = 2;\n".toList
  code_unfenced := by decide
  code_ends := .inr ⟨"let b = 1;\nlet c = 2;".toList, rfl⟩

/-- The block of the language is taken though a longer one stands before it and prose between
them. -/
theorem extract_passages_tagged :
    let p : Passage := ⟨⟨[], by decide⟩, scriptBlock⟩
    let ps : List Passage :=
      [⟨⟨"\nor\n".toList, by decide⟩, emptyBlock⟩, ⟨⟨['\n'], by decide⟩, quotingBlock⟩]
    Asks (some "Python".toList) "Python".toList ∧ quotingBlock.isOf "Python".toList ∧
      ∃ f, FirstLongest (((p :: ps).map (·.block)).filter (·.isOf "Python".toList)) f ∧
        extract? ((p :: ps).flatMap Passage.print ++ []) (some "Python".toList) = some f.code := by
  intro p ps
  have hasks : Asks (some "Python".toList) "Python".toList := ⟨rfl, by decide⟩
  have hof : quotingBlock.isOf "Python".toList := by decide +kernel
  refine ⟨hasks, hof, ?_⟩
  exact (extract_passages p ps ⟨[], by decide⟩ (some "Python".toList)).1 _ hasks
    ⟨quotingBlock, by simp [ps], hof⟩

end Graft.Reply
