import Graft.Proofs.Relaid
import Graft.Reply

set_option autoImplicit false

/-!
Prose is dropped at the ends of a reply only: the lines that stay are a run of its lines, from the
first line of code up to the next blank line that an explanation follows. Nothing more is dropped
the second time.
-/

namespace Graft.Reply

variable {ls : List Text} {i k : Nat}

/-- A blank line with an explanation directly below it. -/
def Turns (ls : List Text) (i : Nat) : Prop :=
  ∃ blank next, ls[i]? = some blank ∧ ls[i + 1]? = some next ∧ blank.isBlankText ∧
    isExplanation next

/-- The lines from the first line of code up to where the reply turns to prose again, or to the
end. -/
structure Run (ls : List Text) (first stop : Nat) : Prop where
  code : ∃ l, ls[first]? = some l ∧ isCodeLine l.trim
  prose : ∀ i l, i < first → ls[i]? = some l → isCodeLine l.trim = false
  lt : first < stop
  ends : stop = ls.length ∨ Turns ls stop
  unbroken : ∀ i, first < i → i < stop → ¬Turns ls i

theorem turns_drop (n : Nat) : Turns (ls.drop n) i ↔ Turns ls (n + i) := by
  simp only [Turns, List.getElem?_drop, Nat.add_assoc]

theorem Turns.of_take (h : Turns (ls.take k) i) : i < k ∧ Turns ls i := by
  obtain ⟨a, b, ha, hb, hturns⟩ := h
  rw [List.getElem?_take] at ha hb
  split at ha
  · split at hb
    · exact ⟨‹i < k›, a, b, ha, hb, hturns⟩
    · contradiction
  · contradiction

theorem exists_cutTail_eq (ls : List Text) :
    ∃ k, cutTail ls = ls.take k ∧ (k = ls.length ∨ Turns ls k) ∧ ∀ i < k, ¬Turns ls i := by
  fun_induction cutTail ls with
  | case1 a b rest h =>
    have hturns : Turns (a :: b :: rest) 0 := ⟨a, b, rfl, rfl, by simpa using h⟩
    exact ⟨0, rfl, .inr hturns, by simp⟩
  | case2 a b rest h ih =>
    obtain ⟨k, hcut, hend, hfirst⟩ := ih
    refine ⟨k + 1, by rw [hcut, List.take_succ_cons], hend.imp (congrArg (· + 1)) id,
      fun i hi => ?_⟩
    cases i with
    | zero =>
      rintro ⟨_, _, ⟨⟩, ⟨⟩, hturns⟩
      exact h (by simpa using hturns)
    | succ i => exact hfirst i (Nat.lt_of_succ_lt_succ hi)
  | case3 ls hshort =>
    refine ⟨ls.length, by simp, .inl rfl, fun i hi => ?_⟩
    rintro ⟨a, b, ha, hb, -⟩
    cases ls with
    | nil => simp at ha
    | cons c ls =>
      cases ls with
      | nil => simp at hb
      | cons d ls => exact hshort c d ls rfl

theorem cutTail_eq_self (h : ∀ i, ¬Turns ls i) : cutTail ls = ls := by
  obtain ⟨k, hcut, hend, -⟩ := exists_cutTail_eq ls
  rw [hcut, hend.resolve_right (h k), List.take_length]

theorem not_isBlankText_of_isCodeLine {l : Text} (h : isCodeLine l.trim) :
    l.isBlankText = false := by
  have hnil : isCodeLine [] = false := by decide
  by_contra hblank
  have htrim : l.trim = [] := by
    have hstart : l.trimStart = [] := by
      simpa [Text.trimStart, Text.isBlankText] using hblank
    rw [Text.trim, hstart]
    rfl
  rw [htrim, hnil] at h
  contradiction

theorem isCodeLine_head_dropWhile {l : Text} {rest : List Text}
    (h : ls.dropWhile (fun line => !isCodeLine line.trim) = l :: rest) : isCodeLine l.trim := by
  have hhead := List.head?_dropWhile_not (fun line : Text => !isCodeLine line.trim) ls
  rw [h] at hhead
  simpa using hhead

theorem dropProse_of_code {t l : Text} {rest : List Text}
    (h : (t.splitOn '\n').dropWhile (fun line => !isCodeLine line.trim) = l :: rest) :
    dropProse t = Text.unlines (cutTail (l :: rest)) := by
  simp only [dropProse, h]

theorem dropProse_unlines {l : Text} {rest : List Text} (hfeed : ∀ m ∈ l :: rest, '\n' ∉ m)
    (hcode : isCodeLine l.trim) (h : ∀ i, ¬Turns (l :: rest) i) :
    dropProse (Text.unlines (l :: rest)) = Text.unlines (l :: rest) := by
  have hkept : ((Text.unlines (l :: rest)).splitOn '\n').dropWhile (fun line =>
      !isCodeLine line.trim) = l :: rest := by
    rw [Text.splitOn_unlines hfeed, List.dropWhile_cons_of_neg (by simp [hcode])]
  rw [dropProse_of_code hkept, cutTail_eq_self h]

theorem exists_run {t l : Text} {rest : List Text}
    (h : (t.splitOn '\n').dropWhile (fun line => !isCodeLine line.trim) = l :: rest) :
    ∃ first stop kept, Run (t.splitOn '\n') first stop ∧
      l :: kept = ((t.splitOn '\n').take stop).drop first ∧ dropProse t = Text.unlines (l :: kept) ∧
      ∀ i, ¬Turns (l :: kept) i := by
  have hcode := isCodeLine_head_dropWhile h
  obtain ⟨k, hcut, hend, hfirst⟩ := exists_cutTail_eq (l :: rest)
  generalize hpre : (t.splitOn '\n').takeWhile (fun line => !isCodeLine line.trim) = pre
  have hsplit : t.splitOn '\n' = pre ++ l :: rest := by
    rw [← hpre, ← h, List.takeWhile_append_dropWhile]
  have hdrop : (t.splitOn '\n').drop pre.length = l :: rest := by rw [hsplit, List.drop_left]
  -- the first line is not blank, so it is kept
  obtain ⟨k, rfl⟩ : ∃ j, k = j + 1 := by
    refine Nat.exists_eq_succ_of_ne_zero ?_
    rintro rfl
    rcases hend with hend | ⟨_, -, ⟨⟩, -, hblank, -⟩
    · simp at hend
    · rw [not_isBlankText_of_isCodeLine hcode] at hblank
      contradiction
  refine ⟨pre.length, pre.length + (k + 1), rest.take k,
    ⟨⟨l, ?_, hcode⟩, ?_, by omega, ?_, ?_⟩, ?_, ?_, ?_⟩
  · simp [hsplit]
  · intro i m hi hm
    rw [hsplit, List.getElem?_append_left hi, ← hpre] at hm
    simpa using List.mem_takeWhile_imp (List.mem_of_getElem? hm)
  · refine hend.imp (fun hlength => ?_) fun hturns => ?_
    · rw [hlength, hsplit, List.length_append]
    · rwa [← hdrop, turns_drop] at hturns
  · intro i hlt hi hturns
    obtain ⟨j, rfl⟩ := Nat.exists_eq_add_of_lt hlt
    refine hfirst (j + 1) (by omega) ?_
    rw [← hdrop, turns_drop]
    exact hturns
  · rw [List.drop_take, hdrop, Nat.add_sub_cancel_left, List.take_succ_cons]
  · rw [dropProse_of_code h, hcut, List.take_succ_cons]
  · intro i hturns
    rw [← List.take_succ_cons] at hturns
    obtain ⟨hi, hturns⟩ := hturns.of_take
    exact hfirst i hi hturns

/-- A text without a line of code stays as it is; of any other the run of lines from the first line
of code up to the first turn to prose is kept. Doing it again changes nothing. -/
theorem dropProse_keeps_run (t : Text) :
    ((∀ l ∈ t.splitOn '\n', isCodeLine l.trim = false) ∧ dropProse t = t ∨
      ∃ first stop, Run (t.splitOn '\n') first stop ∧
        dropProse t = Text.unlines (((t.splitOn '\n').take stop).drop first)) ∧
    dropProse (dropProse t) = dropProse t := by
  cases h : (t.splitOn '\n').dropWhile (fun line => !isCodeLine line.trim) with
  | nil =>
    have hsame : dropProse t = t := by
      unfold dropProse
      rw [h]
    exact ⟨.inl ⟨by simpa using h, hsame⟩, by rw [hsame, hsame]⟩
  | cons l rest =>
    obtain ⟨first, stop, kept, hrun, hkept, heq, hturns⟩ := exists_run h
    have hfeed : ∀ m ∈ l :: kept, '\n' ∉ m := fun m hm =>
      Text.newline_not_mem_of_splitOn t m (List.mem_of_mem_take (List.mem_of_mem_drop (hkept ▸ hm)))
    refine ⟨.inr ⟨first, stop, hrun, by rw [heq, hkept]⟩, ?_⟩
    rw [heq]
    exact dropProse_unlines hfeed (isCodeLine_head_dropWhile h) hturns

example : dropProse "Sure:\nfn a() \x7b\n\n\x7d\n \nThis is it.".toList =
      "fn a() \x7b\n\n\x7d".toList := by
  decide +kernel

end Graft.Reply
