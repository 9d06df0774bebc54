import Graft.CommandLine
import Graft.Proofs.Escape
import Graft.Proofs.Members
import Graft.Proofs.Writer

set_option autoImplicit false

/-!
What the merge command leaves behind. It succeeds just when the document can be merged and there is
a place for it; then that document is printed, or written to one file, and in every other case no
file has changed. What is written is the document itself. What is printed may be less: escape
sequences are left out.
-/

namespace Graft

namespace Path

def Plain (p : Path) : Prop := ∀ c ∈ p, c ≠ up

theorem plain_enter {p : Path} (hp : Plain p) (c : Text) : Plain (enter p c) := by
  by_cases hc : c == up
  · rw [enter_of_up hc]
    exact fun x hx => hp x (List.mem_of_mem_dropLast hx)
  · rw [enter_of_ne hc]
    intro x hx
    rcases List.mem_append.mp hx with hx | hx
    · exact hp x hx
    · rw [List.mem_singleton.mp hx]
      exact fun h => hc (beq_iff_eq.mpr h)

theorem plain_normal (p : Path) : Plain p.normal := by
  have hrun : ∀ (cs : List Text) (p : Path), Plain p → Plain (cs.foldl enter p) := by
    intro cs
    induction cs with
    | nil => exact fun p hp => hp
    | cons c cs ih => exact fun p hp => ih _ (plain_enter hp c)
  exact hrun p [] (by simp [Plain])

theorem foldl_enter_of_plain {cs : List Text} (h : Plain cs) (p : Path) :
    cs.foldl enter p = p ++ cs := by
  induction cs generalizing p with
  | nil => exact (List.append_nil p).symm
  | cons c cs ih =>
    obtain ⟨hc, hcs⟩ := List.forall_mem_cons.mp h
    rw [List.foldl_cons, ih hcs, enter_of_ne (by simpa using hc), List.append_assoc,
      List.singleton_append]

theorem normal_of_plain {p : Path} (h : Plain p) : p.normal = p := foldl_enter_of_plain h []

theorem mem_entered_of_plain {cs : List Text} (h : Plain cs) (p q : Path) :
    q ∈ entered p cs ↔ ∃ n, 0 < n ∧ n ≤ cs.length ∧ q = p ++ cs.take n := by
  induction cs generalizing p with
  | nil =>
    refine ⟨fun hq => absurd hq List.not_mem_nil, ?_⟩
    rintro ⟨n, hpos, hle, -⟩
    exact absurd hle (Nat.not_le.mpr hpos)
  | cons c cs ih =>
    obtain ⟨hc, hcs⟩ := List.forall_mem_cons.mp h
    rw [entered_of_ne (by simpa using hc), List.mem_cons, ih hcs]
    constructor
    · rintro (rfl | ⟨n, -, hle, rfl⟩)
      · exact ⟨1, Nat.one_pos, by simp, by simp⟩
      · exact ⟨n + 1, Nat.succ_pos n, Nat.succ_le_succ hle, by simp⟩
    · rintro ⟨n, hpos, hle, rfl⟩
      obtain ⟨n, rfl⟩ := Nat.exists_eq_add_one.mpr hpos
      rcases Nat.eq_zero_or_pos n with rfl | hn
      · exact .inl (by simp)
      · exact .inr ⟨n, hn, Nat.le_of_succ_le_succ hle, by simp⟩

end Path

namespace FileTree

/-- A place for a file: no folder, and below no file. -/
structure Writable (t : FileTree) (p : Path) : Prop where
  noFolder : t.isFolder p = false
  way : ∀ n, 0 < n → n < p.length → t.get? (p.take n) = none

theorem admits_iff_writable {t : FileTree} {p : Path} {check : Text → Except Error Unit}
    {text : Text} (hp : p.Plain) (hcheck : check text = .ok ()) :
    t.Admits check p (text.map Char.toNat) ↔ t.Writable p := by
  have hplain : Path.Plain p.dropLast := fun c hc => hp c (List.mem_of_mem_dropLast hc)
  have hfolders := Path.mem_entered_of_plain hplain []
  have hprefix : ∀ n, n ≤ p.dropLast.length → p.dropLast.take n = p.take n := fun n hn => by
    rw [List.dropLast_eq_take, List.take_take]
    rw [List.length_dropLast] at hn
    rw [Nat.min_eq_left hn]
  have hnormal := Path.normal_of_plain hp
  constructor
  · intro h
    refine ⟨hnormal ▸ h.noFolder.1, fun n hpos hlt => h.way _ ((hfolders _).mpr ⟨n, hpos, ?_, ?_⟩)⟩
    · rw [List.length_dropLast]
      omega
    · rw [List.nil_append, hprefix n (by rw [List.length_dropLast]; omega)]
  · intro h
    refine ⟨fun f hf => ?_, fun hlast => ?_, ⟨hnormal.symm ▸ h.noFolder, fun hin => ?_⟩, text,
      rfl, hcheck⟩
    · obtain ⟨n, hpos, hle, rfl⟩ := (hfolders f).mp hf
      rw [List.nil_append, hprefix n hle]
      rw [List.length_dropLast] at hle
      exact h.way n hpos (by omega)
    · exact hp _ (List.mem_of_getLast? hlast) rfl
    · rw [hnormal] at hin
      obtain ⟨n, hpos, hle, heq⟩ := (hfolders p).mp hin
      have hlength := congrArg List.length heq
      rw [List.nil_append, List.length_take] at hlength
      rw [List.length_dropLast] at hle hlength
      omega

end FileTree

def Traced.Reports (x : Traced Report) (n : Notation) : Prop :=
  ∀ d, x.result = .ok d → d.notationUsed = n

namespace Traced.Reports

variable {α : Type} {n : Notation}

theorem pure (d : Report) : Reports (Pure.pure d) d.notationUsed := by
  intro d' h
  rw [← Except.ok.inj h]

theorem bind {x : Traced α} {f : α → Traced Report} (h : ∀ a, (f a).Reports n) :
    (x >>= f).Reports n := by
  intro d hd
  rw [result_bind] at hd
  obtain ⟨a, -, ha⟩ := exists_of_bind hd
  exact h a d ha

theorem ite {c : Prop} [Decidable c] {x y : Traced Report} (hx : x.Reports n) (hy : y.Reports n) :
    (if c then x else y).Reports n := by
  split
  · exact hx
  · exact hy

end Traced.Reports

open Traced in
theorem mergeBy_reports (n : Notation) (o : Options) (host snippet : Text) :
    (mergeBy n o host snippet).Reports n := by
  cases n with
  | script =>
    exact Reports.bind fun _ => Reports.ite (Reports.pure _) <|
      Reports.bind fun _ => Reports.bind fun _ =>
      Reports.ite (Reports.pure _) (Reports.pure _)
  | item =>
    exact Reports.bind fun _ => Reports.ite (Reports.pure _) <| Reports.bind fun _ =>
      Reports.ite (Reports.pure _) <| Reports.bind fun _ => Reports.pure _
  | suite =>
    exact Reports.bind fun _ => Reports.ite (Reports.pure _) <|
      Reports.bind fun _ => Reports.bind fun _ =>
      Reports.ite (Reports.pure _) <| Reports.bind fun _ => Reports.pure _
  | style =>
    exact Reports.bind fun _ => Reports.ite (Reports.pure _) <| Reports.bind fun _ =>
      Reports.ite (Reports.pure _) <| Reports.bind fun _ => Reports.pure _
  | markup =>
    change Reports (Pure.pure (Markup.merge host snippet)) .markup
    unfold Markup.merge
    split <;> exact Reports.pure _

theorem check_of_merge {n : Notation} {o : Options} {host snippet : Text} {d : Report}
    (h : (merge n o host snippet).result = .ok d) :
    ({} : Writer).check (some d.notationUsed) o.validates d.text = .ok () := by
  have hmerged := mergeBy_of_merge h
  rw [mergeBy_reports n o host snippet d hmerged]
  simp only [merge, Traced.result_bind, Traced.result_log, Traced.ok_bind, hmerged] at h
  cases hvalidates : o.validates with
  | false => rfl
  | true =>
    rw [if_pos hvalidates, Traced.result_bind] at h
    obtain ⟨_, hvalid, -⟩ := Traced.exists_of_bind h
    exact hvalid

namespace CommandLine

variable {s : Setting} {r : Request} {o : Options} {d : Report}

theorem plain_resolve (s : Setting) (name : Text) : (resolve s name).Plain := by
  unfold resolve
  split
  · dsimp only
    split
    · exact fun c hc => Path.plain_normal _ c (List.mem_of_mem_drop hc)
    · refine List.forall_mem_cons.mpr ⟨by decide, Path.plain_normal _⟩
  · exact Path.plain_normal _

/-- The document that a request asks for: the snippet merged into the host under the options, both
with plain newlines, the snippet freed of prose if that is asked for. -/
structure Merges (s : Setting) (r : Request) (o : Options) (d : Report) : Prop where
  options : loadOptions s r.arguments = .ok o
  merged : ∃ n host given snippet,
    notationOf? s r = some n ∧ s.files.readAt (resolve s r.host) = .ok host ∧
      snippetText s r = .ok given ∧
    (if (r.arguments.value? .cleanResponse).isSome then
      (Reply.clean given (r.arguments.value? .language)).result
      else .ok given) = .ok snippet ∧
    (merge n o host.plainNewlines snippet).result = .ok d

theorem result_report (a : Arguments) (n : Notation) (o : Options) (host given : Text) :
    (report a n o host given).result =
      (if (a.value? .cleanResponse).isSome then (Reply.clean given (a.value? .language)).result
        else .ok given) >>=
        fun snippet => (merge n o host snippet).result := by
  unfold report
  split
  · exact Traced.result_bind _ _
  · exact Traced.result_bind _ _

theorem Merges.unique {o' : Options} {d' : Report} (h : Merges s r o d) (h' : Merges s r o' d') :
    o = o' ∧ d = d' := by
  obtain ⟨hoptions, n, host, given, snippet, hn, hhost, hgiven, hsnippet, hmerge⟩ := h
  obtain ⟨hoptions', n', host', given', snippet', hn', hhost', hgiven', hsnippet', hmerge'⟩ := h'
  obtain rfl : o = o' := Except.ok.inj (hoptions.symm.trans hoptions')
  obtain rfl : n = n' := Option.some.inj (hn.symm.trans hn')
  obtain rfl : host = host' := Except.ok.inj (hhost.symm.trans hhost')
  obtain rfl : given = given' := Except.ok.inj (hgiven.symm.trans hgiven')
  obtain rfl : snippet = snippet' := Except.ok.inj (hsnippet.symm.trans hsnippet')
  exact ⟨rfl, Except.ok.inj (hmerge.symm.trans hmerge')⟩

def HasPlace (s : Setting) (r : Request) : Prop :=
  ∀ name ∈ r.arguments.value? .output, s.files.Writable (resolve s name)

/-- A document delivered: printed, with no file changed, or else in its file and nowhere else. -/
structure Delivered (s : Setting) (r : Request) (d : Report) (out : Outcome) : Prop where
  printed : r.arguments.value? .output = none →
    Text.Printed d.text out.output ∧ ∀ p, out.files.get? p = s.files.get? p
  written : ∀ name ∈ r.arguments.value? .output, out.output = [] ∧
    out.files.get? (resolve s name) = some d.text ∧
    ∀ p, p ≠ resolve s name → out.files.get? p = s.files.get? p

def Failed (s : Setting) (out : Outcome) : Prop :=
  out.exitCode ≠ 0 ∧ ∀ p, out.files.get? p = s.files.get? p

theorem failed_refuse (s : Setting) (m : Misuse) : Failed s (refuse s m) :=
  ⟨Nat.succ_ne_zero 1, fun _ => rfl⟩

theorem failed_failWith (s : Setting) (messages : Text) (e : Error) :
    Failed s (failWith s messages e) := by
  unfold failWith
  split <;> exact ⟨Nat.one_ne_zero, fun _ => rfl⟩

theorem deliver_cases (h : Merges s r o d) (messages : Text) :
    (HasPlace s r ∧ (deliver s r.arguments o messages d).exitCode = 0 ∧
      Delivered s r d (deliver s r.arguments o messages d)) ∨
    (¬HasPlace s r ∧ Failed s (deliver s r.arguments o messages d)) := by
  unfold deliver HasPlace
  cases hname : r.arguments.value? .output with
  | none =>
    refine .inl ⟨by simp, rfl, fun _ => ⟨Text.printed_withoutEscapes d.text, fun _ => rfl⟩, ?_⟩
    simp [hname]
  | some name =>
    obtain ⟨-, n, host, given, snippet, -, -, -, -, hmerge⟩ := h
    have hplace : (∀ name' ∈ some name, s.files.Writable (resolve s name')) ↔
        s.files.Writable (resolve s name) := by
      simp
    have hadmits :=
      FileTree.admits_iff_writable (t := s.files) (plain_resolve s name) (check_of_merge hmerge)
    have hnormal := Path.normal_of_plain (plain_resolve s name)
    rw [hplace]
    dsimp only
    split
    · next hempty =>
      refine .inr ⟨fun hw => ?_, failed_failWith s messages _⟩
      have hfolder := hw.noFolder
      rw [FileTree.isFolder, hempty] at hfolder
      contradiction
    · rcases s.files.write_cases (({} : Writer).check (some d.notationUsed) o.validates)
        (resolve s name) (d.text.map Char.toNat) with
        ⟨hallowed, u, text, hwrite, htext, hfiles⟩ | ⟨hnot, u, e, hwrite, hfiles⟩
      · have hget : ∀ p, u.get? p =
            if p = resolve s name then some text else s.files.get? p := fun p => by
          rw [FileTree.get?_congr hfiles p, FileTree.get?_put, hnormal]
        obtain rfl : text = d.text :=
          List.map_injective_iff.mpr (fun _ _ => Char.toNat_inj.mp) htext
        refine .inl ⟨hadmits.mp hallowed, ?_⟩
        simp only [Writer.write, hwrite]
        refine ⟨trivial, by simp [hname], fun name' hname' => ?_⟩
        obtain rfl : name = name' := by simpa [hname] using hname'
        refine ⟨rfl, by rw [hget, if_pos rfl], fun p hp => by rw [hget, if_neg hp]⟩
      · refine .inr ⟨fun hw => hnot (hadmits.mpr hw), ?_⟩
        simp only [Writer.write, hwrite]
        exact ⟨(failed_failWith s messages e).1, FileTree.get?_congr hfiles⟩

theorem mergeWith_cases (s : Setting) (r : Request) :
    (∃ o d messages, Merges s r o d ∧ mergeWith s r = deliver s r.arguments o messages d) ∨
    ((∀ o d, ¬Merges s r o d) ∧ Failed s (mergeWith s r)) := by
  cases hoptions : loadOptions s r.arguments with
  | error e =>
    have hrun : mergeWith s r = failWith s [] e := by simp only [mergeWith, hoptions]
    exact .inr ⟨fun o d h => by simp [h.options] at hoptions, hrun ▸ failed_failWith s [] e⟩
  | ok o =>
    cases hn : notationOf? s r with
    | none =>
      have hrun : mergeWith s r =
          refuse s (.noNotation (Notation.fileName (resolve s r.host).toText)) := by
        simp only [mergeWith, hoptions, hn]
      refine .inr ⟨fun o' d h => ?_, hrun ▸ failed_refuse s _⟩
      obtain ⟨-, n, host, given, snippet, hn', -⟩ := h
      simp [hn] at hn'
    | some n =>
      cases hhost : s.files.readAt (resolve s r.host) with
      | error e =>
        have hrun : mergeWith s r = failWith s [] e := by
          simp only [mergeWith, hoptions, hn, hhost, Traced.error_bind]
        refine .inr ⟨fun o' d h => ?_, hrun ▸ failed_failWith s [] e⟩
        obtain ⟨-, n', host, given, snippet, -, hhost', -⟩ := h
        simp [hhost] at hhost'
      | ok host =>
        cases hgiven : snippetText s r with
        | error e =>
          have hrun : mergeWith s r = failWith s [] e := by
            simp only [mergeWith, hoptions, hn, hhost, hgiven, Traced.ok_bind, Traced.error_bind]
          refine .inr ⟨fun o' d h => ?_, hrun ▸ failed_failWith s [] e⟩
          obtain ⟨-, n', host', given, snippet, -, -, hgiven', -⟩ := h
          simp [hgiven] at hgiven'
        | ok given =>
          have hreport := result_report r.arguments n o host.plainNewlines given
          cases hd : (report r.arguments n o host.plainNewlines given).result with
          | error e =>
            have hrun : ∃ log, mergeWith s r = failWith s log e := by
              simp only [mergeWith, hoptions, hn, hhost, hgiven, Traced.ok_bind, pure,
                Except.pure, hd]
              exact ⟨_, rfl⟩
            obtain ⟨log, hrun⟩ := hrun
            refine .inr ⟨fun o' d h => ?_, hrun ▸ failed_failWith s log e⟩
            obtain ⟨hoptions', n', host', given', snippet, hn', hhost', hgiven', hsnippet,
                hmerge⟩ := h
            obtain rfl : o = o' := Except.ok.inj (hoptions.symm.trans hoptions')
            obtain rfl : n = n' := Option.some.inj (hn.symm.trans hn')
            obtain rfl : host = host' := Except.ok.inj (hhost.symm.trans hhost')
            obtain rfl : given = given' := Except.ok.inj (hgiven.symm.trans hgiven')
            rw [hd, hsnippet, Traced.ok_bind, hmerge] at hreport
            contradiction
          | ok d =>
            rw [hd] at hreport
            obtain ⟨snippet, hsnippet, hmerge⟩ := Traced.exists_of_bind hreport.symm
            have hrun : ∃ messages, mergeWith s r = deliver s r.arguments o messages d := by
              simp only [mergeWith, hoptions, hn, hhost, hgiven, Traced.ok_bind, pure,
                Except.pure, hd]
              exact ⟨_, rfl⟩
            obtain ⟨messages, hrun⟩ := hrun
            exact .inl ⟨o, d, messages,
              ⟨hoptions, n, host, given, snippet, hn, hhost, hgiven, hsnippet, hmerge⟩, hrun⟩

theorem run_merge_of_error {args : List Text} {m : Misuse} (h : request s args = .error m) :
    run s ("merge".toList :: args) = refuse s m := by
  change runMerge s args = _
  simp only [runMerge, h]

theorem run_merge_of_request {args : List Text} (h : request s args = .ok r)
    (hhelp : r.arguments.value? .help = none) : run s ("merge".toList :: args) = mergeWith s r := by
  change runMerge s args = _
  simp [runMerge, h, hhelp]

/-- The merge command succeeds just when its arguments can be read, there is a document, and there
is a place for it. Then the document is delivered; otherwise no file has changed. It is printed as
it is unless an escape sequence occurs in it. -/
theorem run_merge_delivers (s : Setting) (args : List Text)
    (hhelp : ∀ r, request s args = .ok r → r.arguments.value? .help = none) :
    ((run s ("merge".toList :: args)).exitCode = 0 ↔
      ∃ r o d, request s args = .ok r ∧ Merges s r o d ∧ HasPlace s r) ∧
    ((run s ("merge".toList :: args)).exitCode ≠ 0 →
      ∀ p, (run s ("merge".toList :: args)).files.get? p = s.files.get? p) ∧
    ∀ r o d, request s args = .ok r → Merges s r o d →
      (run s ("merge".toList :: args)).exitCode = 0 →
      Delivered s r d (run s ("merge".toList :: args)) ∧
      (r.arguments.value? .output = none → ((run s ("merge".toList :: args)).output = d.text ↔
        ∀ e, Text.IsEscape e → ¬e <:+: d.text)) := by
  cases hrequest : request s args with
  | error m =>
    have hfailed := failed_refuse s m
    rw [run_merge_of_error hrequest]
    refine ⟨⟨fun h => absurd h hfailed.1, ?_⟩, fun _ => hfailed.2, ?_⟩
    · rintro ⟨r, o, d, hr, -⟩
      contradiction
    · intro r o d hr
      contradiction
  | ok r =>
    have honly : ∀ {r'}, (Except.ok r : Except Misuse Request) = .ok r' → r = r' := Except.ok.inj
    rw [run_merge_of_request hrequest (hhelp r hrequest)]
    rcases mergeWith_cases s r with ⟨o, d, messages, hmerges, heq⟩ | ⟨hnone, hfailed⟩
    · rw [heq]
      rcases deliver_cases hmerges messages with ⟨hplace, hexit, hdelivered⟩ | ⟨hplace, hfailed⟩
      · refine ⟨⟨fun _ => ⟨r, o, d, rfl, hmerges, hplace⟩, fun _ => hexit⟩,
          fun h => absurd hexit h, ?_⟩
        intro r' o' d' hr' hmerges' _
        obtain rfl := honly hr'
        obtain ⟨rfl, rfl⟩ := hmerges.unique hmerges'
        exact ⟨hdelivered, fun hnone => (hdelivered.printed hnone).1.eq_iff⟩
      · refine ⟨⟨fun h => absurd h hfailed.1, ?_⟩, fun _ => hfailed.2,
          fun _ _ _ _ _ h => absurd h hfailed.1⟩
        rintro ⟨r', o', d', hr', -, hplace'⟩
        obtain rfl := honly hr'
        exact absurd hplace' hplace
    · refine ⟨⟨fun h => absurd h hfailed.1, ?_⟩, fun _ => hfailed.2,
        fun _ _ _ _ _ h => absurd h hfailed.1⟩
      rintro ⟨r', o', d', hr', hmerges', -⟩
      obtain rfl := honly hr'
      exact absurd hmerges' (hnone o' d')

/-- A reply from the standard input, merged into a file in a folder and written to a new folder. -/
theorem run_merge_delivers_reply :
    let s : Setting := {
      home := "/home".toList
      files := .ofFiles [(["d".toList, "a.rs".toList], "fn a() \x7b\x7d\n".toList)]
      input := "Here:\n\n```rust\nfn b() \x7b\x7d\n```\n".toList }
    let args := ["-o", "x/../out/m.rs", "--clean-response", "d/a.rs", "-"].map String.toList
    (∀ r, request s args = .ok r → r.arguments.value? .help = none) ∧
    ∃ r o d, request s args = .ok r ∧ r.arguments.value? .output = some "x/../out/m.rs".toList ∧
      Merges s r o d ∧
      Delivered s r d (run s ("merge".toList :: args)) := by
  intro s args
  have hrequest : request s args = .ok ⟨⟨[(.output, "x/../out/m.rs".toList), (.cleanResponse, [])],
      ["d/a.rs".toList, ['-']]⟩, "d/a.rs".toList, ['-']⟩ := by rfl
  have hhelp : ∀ r, request s args = .ok r → r.arguments.value? .help = none := by
    intro r hr
    rw [hrequest] at hr
    obtain rfl := Except.ok.inj hr
    decide
  have hexit : (run s ("merge".toList :: args)).exitCode = 0 := by decide +kernel
  have hrun := run_merge_delivers s args hhelp
  obtain ⟨r, o, d, hr, hmerges, -⟩ := hrun.1.mp hexit
  refine ⟨hhelp, r, o, d, hr, ?_, hmerges, (hrun.2.2 r o d hr hmerges hexit).1⟩
  rw [hrequest] at hr
  obtain rfl := Except.ok.inj hr
  decide

/-- A colour in the document is not printed, although it is written to a file. -/
theorem run_merge_drops_escape :
    let host := "// \x1b[31mred\nfn a() \x7b\x7d\n".toList
    let snippet := "fn b() \x7b\x7d\n".toList
    let s : Setting := {
      home := "/home".toList
      files := .ofFiles [(["a.rs".toList], host), (["s.rs".toList], snippet)]
      input := [] }
    let text := "// \x1b[31mred\nfn a() \x7b\x7d\n\nfn b() \x7b\x7d\n".toList
    let printed := run s (["merge", "a.rs", "s.rs"].map String.toList)
    let written := run s (["merge", "a.rs", "s.rs", "-o", "m.rs"].map String.toList)
    (merge .item {} host snippet).result.toOption.map (·.text) = some text ∧ printed.exitCode = 0 ∧
      written.exitCode = 0 ∧ written.files.get? ["m.rs".toList] = some text ∧
      printed.output = "// red\nfn a() \x7b\x7d\n\nfn b() \x7b\x7d\n".toList := by
  decide +kernel

end CommandLine

end Graft
