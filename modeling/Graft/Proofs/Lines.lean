import Graft.Proofs.Padding
import Graft.Text.Lines

set_option autoImplicit false

/-!
Lines and where they start. The lines of a text with their ends are the text again, each starts
where the ones before it end, and only the characters of the text decide where it is cut.
-/

namespace Graft.Text

variable {isEnd : Char → Bool}

def withEnd (l : Text × Text) : Text := l.1 ++ l.2

theorem flatMap_linesBy (isEnd : Char → Bool) (t : Text) :
    (linesBy isEnd t).flatMap withEnd = t := by
  fun_induction linesBy isEnd t with
  | case1 => rfl
  | case2 cs ih => simp [withEnd, ih]
  | case3 c cs hcrlf hc ih => simp [withEnd, ih]
  | case4 c cs hcrlf hc hnil ih =>
    rw [hnil] at ih
    simp [withEnd, ← ih]
  | case5 c cs hcrlf hc line stop rest hcons ih =>
    rw [hcons] at ih
    simp [withEnd, ← ih]

theorem linesBy_congr {isEnd' : Char → Bool} {t : Text} (h : ∀ c ∈ t, isEnd c = isEnd' c) :
    linesBy isEnd t = linesBy isEnd' t := by
  fun_induction linesBy isEnd t with
  | case1 => rfl
  | case2 cs ih =>
    rw [linesBy, ih fun c hc => h c (by simp [hc])]
  | case3 c cs hcrlf hc ih =>
    rw [linesBy.eq_3 _ _ _ hcrlf, ← h c (by simp), if_pos hc, ih fun d hd => h d (by simp [hd])]
  | case4 c cs hcrlf hc hnil ih =>
    rw [linesBy.eq_3 _ _ _ hcrlf, ← h c (by simp), if_neg hc,
      ← ih fun d hd => h d (by simp [hd]), hnil]
  | case5 c cs hcrlf hc line stop rest hcons ih =>
    rw [linesBy.eq_3 _ _ _ hcrlf, ← h c (by simp), if_neg hc,
      ← ih fun d hd => h d (by simp [hd]), hcons]

def rowStart (isEnd : Char → Bool) (t : Text) (n : Nat) : Nat :=
  (((linesBy isEnd t).take n).flatMap withEnd).length

theorem foldl_offsets (ls : List (Text × Text)) (starts : List Nat) (k : Nat) :
    (ls.foldl (fun (starts, n) (line, stop) => (n :: starts, n + line.length + stop.length))
        (starts, k)).1.reverse =
      starts.reverse ++ (List.range ls.length).map fun n =>
        k + ((ls.take n).flatMap withEnd).length := by
  induction ls generalizing starts k with
  | nil => simp
  | cons l ls ih =>
    rw [List.foldl_cons, ih, List.length_cons, List.range_succ_eq_map]
    simp [withEnd, Nat.add_assoc]

theorem lineOffsets_eq (isEnd : Char → Bool) (t : Text) :
    lineOffsets isEnd t = (List.range (linesBy isEnd t).length).map (rowStart isEnd t) := by
  unfold lineOffsets rowStart
  rw [foldl_offsets]
  simp

theorem rowStart_succ {t : Text} {n : Nat} {l : Text × Text} (h : (linesBy isEnd t)[n]? = some l) :
    rowStart isEnd t (n + 1) = rowStart isEnd t n + l.1.length + l.2.length := by
  unfold rowStart
  rw [List.take_add_one, h]
  simp [withEnd, Nat.add_assoc]

theorem rowStart_mono (t : Text) {m n : Nat} (h : m ≤ n) :
    rowStart isEnd t m ≤ rowStart isEnd t n := by
  obtain ⟨k, rfl⟩ := Nat.exists_eq_add_of_le h
  unfold rowStart
  rw [List.take_add]
  simp

theorem rowStart_le_length (t : Text) (n : Nat) : rowStart isEnd t n ≤ t.length := by
  have hall := congrArg List.length (flatMap_linesBy isEnd t)
  rw [← List.take_append_drop n (linesBy isEnd t), List.flatMap_append, List.length_append] at hall
  unfold rowStart
  omega

theorem linesBy_append_newline (hfeed : isEnd '\n') {l : Text} (hl : ∀ c ∈ l, isEnd c = false)
    (hreturn : '\r' ∉ l) (t : Text) :
    linesBy isEnd (l ++ '\n' :: t) = (l, ['\n']) :: linesBy isEnd t := by
  induction l with
  | nil => simp [linesBy, hfeed]
  | cons c l ih =>
    have hc : c ≠ '\r' := fun h => hreturn (by simp [h])
    have hrest := ih (fun d hd => hl d (by simp [hd])) fun h => hreturn (by simp [h])
    rw [List.cons_append, linesBy.eq_3 _ _ _ fun cs h => absurd h hc, hrest,
      if_neg (by simp [hl c])]

theorem linesBy_of_forall {l : Text} (hne : l ≠ []) (hl : ∀ c ∈ l, isEnd c = false)
    (hreturn : '\r' ∉ l) :
    linesBy isEnd l = [(l, [])] := by
  induction l with
  | nil => contradiction
  | cons c l ih =>
    have hc : c ≠ '\r' := fun h => hreturn (by simp [h])
    rw [linesBy.eq_3 _ _ _ fun cs h => absurd h hc, if_neg (by simp [hl c])]
    cases l with
    | nil => rfl
    | cons d l =>
      rw [ih (by simp) (fun e he => hl e (by simp [he])) fun h => hreturn (by simp [h])]

theorem lines_unlines {ls : List Text} (hne : ∀ l ∈ ls, l ≠ [])
    (hls : ∀ l ∈ ls, ∀ c ∈ l, isBreak c = false) : lines (unlines ls) = ls := by
  have hreturn : ∀ l ∈ ls, '\r' ∉ l := fun l hl hc => absurd (hls l hl _ hc) (by decide)
  unfold lines
  induction ls with
  | nil => rfl
  | cons l ls ih =>
    cases ls with
    | nil =>
      have hone : unlines [l] = l := by simp [unlines, join]
      rw [hone, linesBy_of_forall (hne l (by simp)) (hls l (by simp)) (hreturn l (by simp))]
      rfl
    | cons m ls =>
      rw [unlines_cons_cons, linesBy_append_newline rfl (hls l (by simp)) (hreturn l (by simp)),
        List.map_cons]
      rw [ih (fun k hk => hne k (by simp [hk])) (fun k hk => hls k (by simp [hk]))
        fun k hk => hreturn k (by simp [hk])]

end Graft.Text
