import Graft.Proofs.Script.Frame
import Graft.Proofs.Suite.Frame

set_option autoImplicit false

/-!
What a merge of classes leaves alone: every character before, between and behind the stretches that
it replaces, one for each class that the snippet addresses.
-/

namespace Graft

open ClassMerge

/-- The text is the document with the bodies of the classes that the snippet addresses replaced, and
the classes that the document does not have behind it. -/
def Script.KeepsFrame (o : Options) (host snippet : Text) (hosts new : List ClassNode)
    (text : Text) : Prop :=
  ∃ document, Framed host document ((targets o host snippet hosts new).map fun e => bodyRange e.1)
      ((targets o host snippet hosts new).map (newBody o host snippet hosts new)) ∧
    text = extended "\n\n".toList document
      ((strangers o host snippet hosts new).map (classText snippet))

def Suite.KeepsFrame (o : Options) (host snippet : Text) (hosts : List ClassBody) (new : Block)
    (text : Text) : Prop :=
  ∃ rs document, (targets o hosts new).mapM (newBody o host snippet hosts new) = .ok rs ∧
    Framed host document ((targets o hosts new).map fun e => replacedRange host e.1)
      (rs.map (·.text)) ∧
    text = extended "\n\n\n".toList document
      ((strangers o hosts new).map (classText (.ofText snippet)))

/-- A merge of classes that can be read replaces the bodies that the snippet addresses, puts unknown
classes behind the document, and leaves all else as it is. With TypeScript it always succeeds,
unless a directive is refused in strict mode. With Python what is replaced is the body as well,
except where the header of the class goes on in the row that the body starts in: there the whole row
is. -/
theorem mergeBy_keeps_frame (o : Options) (host snippet : Text) :
    (∀ hosts new, Script.read host = .ok hosts → Script.classesOf o snippet = .ok new →
      InOrder host.length (hosts.map Script.bodyRange) →
      (∃ report, (mergeBy .script o host snippet).result = .ok report ∧
        Script.KeepsFrame o host (Script.wrap o snippet) hosts new report.text) ∨
      o.isStrict ∧ ∃ w, (mergeBy .script o host snippet).result = .error (.directive w)) ∧
    ∀ tree new, Suite.read host = .ok tree → Suite.statementsOf o snippet = .ok new →
      Suite.hasPlainRows host → Suite.InRows host (Suite.classes tree) →
      (∀ c ∈ Suite.classes tree,
        Suite.replacedRange host c = Suite.bodyRange host c ↔ Suite.sharesLaterRow host c = false) ∧
      ((∃ report, (mergeBy .suite o host snippet).result = .ok report ∧
        Suite.KeepsFrame o host (Suite.wrap o snippet) (Suite.classes tree) new report.text) ∨
      ∃ e, (mergeBy .suite o host snippet).result = .error e ∧ Suite.IsFailure o e) := by
  constructor
  · intro hosts new hhosts hnew horder
    cases hresult : (mergeBy .script o host snippet).result with
    | ok report => exact .inl ⟨report, rfl, Script.frame_of_merge hhosts hnew horder hresult⟩
    | error e =>
      obtain ⟨hstrict, w, rfl⟩ := Script.error_of_merge hhosts hnew hresult
      exact .inr ⟨hstrict, w, rfl⟩
  · intro tree new htree hnew hplain hrows
    refine ⟨fun c hc => hrows.replacedRange_eq_iff hc, ?_⟩
    cases hresult : (mergeBy .suite o host snippet).result with
    | ok report => exact .inl ⟨report, rfl, Suite.frame_of_merge htree hnew hplain hrows hresult⟩
    | error e => exact .inr ⟨e, rfl, Suite.failure_of_merge htree hnew hresult⟩

/-- Of two namesakes the second is addressed, twice in turn, and unknown classes follow the
document. -/
theorem mergeBy_keeps_frame_namesakes :
    (let host : Text :=
      "let a;\nclass A \x7b x() \x7b\x7d \x7d // b\nclass A \x7b\n  x() \x7b\x7d\n\x7d\n\n".toList
      let snippet : Text := "class A \x7b y() \x7b\x7d \x7d\nclass B \x7b \x7d".toList
      ∃ hosts new report, Script.read host = .ok hosts ∧ Script.classesOf {} snippet = .ok new ∧
        InOrder host.length (hosts.map Script.bodyRange) ∧
        (mergeBy .script {} host snippet).result = .ok report ∧
        Script.KeepsFrame {} host (Script.wrap {} snippet) hosts new report.text ∧
        report.text =
          ("let a;\nclass A \x7b x() \x7b\x7d \x7d // b\nclass A \x7b\n  x() \x7b\x7d\n".toList ++
          "  y() \x7b\x7d\n\x7d\n\nclass B \x7b \x7d\n".toList)) ∧
    (let host : Text := "class A(C): x = 1\nclass B:\n    x = 1 # c\n    # d\n".toList
      let snippet : Text :=
        "class B:\n    y = 2\nclass A:\n    x = 3\nclass D: pass\nclass A:\n    z = 3\n".toList
      ∃ tree new report, Suite.read host = .ok tree ∧ Suite.statementsOf {} snippet = .ok new ∧
        Suite.hasPlainRows host ∧ Suite.InRows host (Suite.classes tree) ∧
        (mergeBy .suite {} host snippet).result = .ok report ∧
        Suite.KeepsFrame {} host (Suite.wrap {} snippet) (Suite.classes tree) new report.text ∧
        report.text = ("class A(C):\n    x = 3\n    z = 3\nclass B:\n    x = 1 # c\n".toList ++
          "    y = 2\n    # d\n\n\nclass D: pass\n".toList)) := by
  constructor
  · intro host snippet
    have hruns : (Script.read host).isOk ∧ (Script.classesOf {} snippet).isOk ∧
        (∀ hosts ∈ (Script.read host).toOption, InOrder host.length (hosts.map Script.bodyRange)) ∧
        (mergeBy .script {} host snippet).result.toOption.map (·.text) = some
          ("let a;\nclass A \x7b x() \x7b\x7d \x7d // b\nclass A \x7b\n  x() \x7b\x7d\n".toList ++
            "  y() \x7b\x7d\n\x7d\n\nclass B \x7b \x7d\n".toList) := by
      decide +kernel
    obtain ⟨hread, hsnippet, horder, htext⟩ := hruns
    obtain ⟨hosts, hhosts⟩ := Traced.exists_of_isOk hread
    obtain ⟨new, hnew⟩ := Traced.exists_of_isOk hsnippet
    have horder := horder hosts (by rw [hhosts]; rfl)
    rcases (mergeBy_keeps_frame {} host snippet).1 hosts new hhosts hnew horder with
      ⟨report, hreport, hframe⟩ | ⟨hstrict, -⟩
    · rw [hreport] at htext
      exact ⟨hosts, new, report, hhosts, hnew, horder, hreport, hframe, Option.some.inj htext⟩
    · exact absurd hstrict (by decide)
  · intro host snippet
    have hruns : (Suite.read host).isOk ∧ (Suite.statementsOf {} snippet).isOk ∧
        Suite.hasPlainRows host ∧
        (∀ tree ∈ (Suite.read host).toOption, Suite.InRows host (Suite.classes tree)) ∧
        (mergeBy .suite {} host snippet).result.toOption.map (·.text) = some
          ("class A(C):\n    x = 3\n    z = 3\nclass B:\n    x = 1 # c\n".toList ++
            "    y = 2\n    # d\n\n\nclass D: pass\n".toList) := by
      decide +kernel
    obtain ⟨hread, hsnippet, hplain, hrows, htext⟩ := hruns
    obtain ⟨tree, htree⟩ := Traced.exists_of_isOk hread
    obtain ⟨new, hnew⟩ := Traced.exists_of_isOk hsnippet
    have hrows := hrows tree (by rw [htree]; rfl)
    rcases ((mergeBy_keeps_frame {} host snippet).2 tree new htree hnew hplain hrows).2 with
      ⟨report, hreport, hframe⟩ | ⟨e, herror, -⟩
    · rw [hreport] at htext
      exact ⟨tree, new, report, htree, hnew, hplain, hrows, hreport, hframe, Option.some.inj htext⟩
    · rw [herror] at htext
      exact absurd htext.symm (Option.some_ne_none _)

/-- Where the header of a class goes on in the row of its body, the end of the header is lost, and
the merged document cannot be read. -/
theorem merge_eats_header :
    let host : Text := "class A(\n  B): x = 1\n".toList
    let snippet : Text := "class A:\n    x = 2\n".toList
    (Suite.read host).toOption.map (fun tree => (Suite.classes tree).map fun c =>
        (Suite.sharesLaterRow host c, Suite.bodyRange host c, Suite.replacedRange host c)) =
      some [(true, (14, 20), (9, 20))] ∧
    (mergeBy .suite {} host snippet).result.toOption.map (·.text) =
      some "class A(\n  x = 2\n".toList ∧
    (merge .suite {} host snippet).result.isOk = false := by
  decide +kernel

end Graft
