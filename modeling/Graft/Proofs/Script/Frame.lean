import Graft.Proofs.Frame
import Graft.Proofs.Members

set_option autoImplicit false

/-!
Merged TypeScript classes: the bodies of the classes that the snippet addresses are replaced where
they stand.
-/

namespace Graft

namespace Script

open ClassMerge

section

variable {o : Options} {host snippet : Text} {hosts new : List ClassNode}
  {p p' : ClassMerge (Option Details)}

def classesOf (o : Options) (snippet : Text) : Except Error (List ClassNode) :=
  if snippet.isBlankText then .ok [] else read (wrap o snippet)

def bodyRange (c : ClassNode) : Nat × Nat := (c.body.start, c.body.stop)

theorem added_of_step {n : ClassNode} (h : (step o host snippet hosts p n).result = .ok p') :
    p'.added = p.added ++ (if isUnknown o (hosts.map (className host)) (className snippet n) then
      some (classText snippet n) else none).toList := by
  have hunknown := @isUnknown_iff o (hosts.map (className host)) (className snippet n)
  simp only [step] at h
  cases hindex : hostIndex? o (hosts.map (className host)) (className snippet n) with
  | none =>
    simp only [hindex, true_and] at h hunknown
    split at h
    · next hcontainer =>
      obtain rfl := Except.ok.inj h
      simp [hunknown, hcontainer, warn]
    · next hcontainer =>
      obtain rfl := Except.ok.inj h
      simp [hunknown, hcontainer, ClassMerge.add]
  | some j =>
    simp only [hindex, Traced.result_bind] at h
    obtain ⟨r, -, h⟩ := Traced.exists_of_bind h
    obtain rfl := Except.ok.inj h
    simp [hunknown, hindex, warn, setTable]

theorem error_of_step {n : ClassNode} {e : Error}
    (h : (step o host snippet hosts p n).result = .error e) :
    o.isStrict ∧ ∃ w, e = .directive w := by
  simp only [step] at h
  split at h
  · split at h <;> contradiction
  · rw [Traced.result_bind] at h
    rcases Traced.error_of_bind h with h | ⟨r, -, h⟩
    · exact error_of_reconcile h
    · contradiction

theorem result_of_merge (hhosts : read host = .ok hosts) (hnew : classesOf o snippet = .ok new) :
    ∃ start : ClassMerge (Option Details), start.tables = [] ∧ start.added = [] ∧
      ((merge o host snippet).result.map (·.text)) =
        ((new.foldlM (step o host (wrap o snippet) hosts) start).result.map fun p =>
          p.added.foldl (addClass "\n\n".toList)
            (replaceFrom host 0 (hosts.zipIdx.filterMap fun e =>
            (p.tables.lookup e.2).bind fun t =>
              some ⟨e.1.body.start, e.1.body.stop, renderBody host e.1 t⟩))) := by
  unfold classesOf at hnew
  unfold merge
  rw [Traced.result_bind, Traced.result_ofExcept, hhosts, Traced.ok_bind]
  split at hnew
  · next hblank =>
    obtain rfl := Except.ok.inj hnew
    refine ⟨{}, rfl, rfl, ?_⟩
    rw [if_pos hblank]
    simp [Except.map, replaceFrom]
  · next hblank =>
    refine ⟨{ warnings := if new.isEmpty then [.noMember] else [] }, rfl, rfl, ?_⟩
    simp only [hblank, Bool.false_eq_true, if_false, Traced.result_bind, Traced.result_ofExcept,
      hnew, Traced.ok_bind]
    cases (new.foldlM (step o host (wrap o snippet) hosts)
      { warnings := if new.isEmpty then [.noMember] else [] }).result with
    | error e => rfl
    | ok p =>
      have hrs := filterMap_range hosts fun c i => (p.tables.lookup i).bind fun t =>
        some (⟨c.body.start, c.body.stop, renderBody host c t⟩ : Replacement)
      rw [Traced.ok_bind, Except.map.eq_2, ← hrs]
      by_cases hidle : p.isIdle
      · obtain ⟨htables, hadded⟩ := tables_of_isIdle hidle
        rw [if_pos hidle]
        simp [htables, hadded, Except.map, replaceFrom]
      · rw [if_neg hidle]
        rfl

/-- The classes of the document that the snippet addresses, with their numbers. -/
def targets (o : Options) (host snippet : Text) (hosts new : List ClassNode) :
    List (ClassNode × Nat) :=
  addressed o hosts (className host) (new.map (className snippet))

/-- The classes of the snippet that the document does not have. -/
def strangers (o : Options) (host snippet : Text) (hosts new : List ClassNode) : List ClassNode :=
  new.filter fun n => isUnknown o (hosts.map (className host)) (className snippet n)

/-- The body of a class with what the classes of a snippet enter into it. -/
def newBody (o : Options) (host snippet : Text) (hosts new : List ClassNode)
    (e : ClassNode × Nat) : Text :=
  renderBody host e.1
    (enterAll Member.rules (o.placement.getD .moveToEnd) (Member.extract host e.1).table
    (new.filterMap (unit? o host snippet hosts e.2)))

theorem isEmpty_units (i : Nat) :
    (new.filterMap (unit? o host snippet hosts i)).isEmpty =
      !(new.map (className snippet)).any fun name =>
        Addresses o (hosts.map (className host)) name i := by
  rw [Bool.eq_iff_iff, List.isEmpty_iff, List.filterMap_eq_nil_iff]
  simp [unit?, hostIndex?_eq_some_iff]

theorem replacements_eq {start : ClassMerge (Option Details)} (hstart : start.tables = [])
    (h : (new.foldlM (step o host snippet hosts) start).result = .ok p) :
    (hosts.zipIdx.filterMap fun e => (p.tables.lookup e.2).bind fun t =>
        some (⟨e.1.body.start, e.1.body.stop, renderBody host e.1 t⟩ : Replacement)) =
      (targets o host snippet hosts new).map fun e =>
        ⟨e.1.body.start, e.1.body.stop, newBody o host snippet hosts new e⟩ := by
  refine filterMap_eq_map_filter fun e he => ?_
  have hc : hosts[e.2]? = some e.1 := List.mem_zipIdx_iff_getElem?.mp he
  rw [lookup_foldlM (fun m n m' hstep => enters_of_step hc hstep) h, isEmpty_units, current, hstart]
  cases (new.map (className snippet)).any fun name =>
    Addresses o (hosts.map (className host)) name e.2 <;> rfl

theorem frame_of_merge (hhosts : read host = .ok hosts) (hnew : classesOf o snippet = .ok new)
    (horder : InOrder host.length (hosts.map bodyRange)) {report : Report}
    (h : (merge o host snippet).result = .ok report) :
    ∃ document, Framed host document
        ((targets o host (wrap o snippet) hosts new).map fun e => bodyRange e.1)
        ((targets o host (wrap o snippet) hosts new).map
          (newBody o host (wrap o snippet) hosts new)) ∧
      report.text = extended "\n\n".toList document
        ((strangers o host (wrap o snippet) hosts new).map (classText (wrap o snippet))) := by
  obtain ⟨start, htables, hadded, hresult⟩ := result_of_merge hhosts hnew
  rw [h] at hresult
  obtain ⟨p, hp, htext⟩ := Traced.exists_of_map hresult.symm
  have hadd : p.added =
      (strangers o host (wrap o snippet) hosts new).map (classText (wrap o snippet)) := by
    rw [added_foldlM (fun m n m' hstep => added_of_step hstep) hp, hadded, List.nil_append]
    exact filterMap_eq_map_filter fun n _ => rfl
  rw [replacements_eq htables hp, hadd] at htext
  refine ⟨_, ?_, htext.symm.trans (foldl_addClass _ _ _)⟩
  have hsublist :=
    (addressed_sublist o hosts (className host) (new.map (className (wrap o snippet)))).map
    bodyRange
  rw [List.map_map] at hsublist
  have hframed := framed_replaceFrom host ((targets o host (wrap o snippet) hosts new).map fun e =>
    ⟨e.1.body.start, e.1.body.stop, newBody o host (wrap o snippet) hosts new e⟩)
    (by rw [List.map_map]; exact horder.sublist hsublist)
  rwa [List.map_map, List.map_map] at hframed

theorem error_of_merge (hhosts : read host = .ok hosts)
    (hnew : classesOf o snippet = .ok new) {e : Error}
    (h : (merge o host snippet).result = .error e) : o.isStrict ∧ ∃ w, e = .directive w := by
  obtain ⟨start, -, -, hresult⟩ := result_of_merge hhosts hnew
  rw [h] at hresult
  cases hp : (new.foldlM (step o host (wrap o snippet) hosts) start).result with
  | ok p =>
    rw [hp] at hresult
    contradiction
  | error e' =>
    rw [hp] at hresult
    obtain rfl := Except.error.inj hresult
    obtain ⟨m, n, -, hstep⟩ := exists_of_foldlM_error hp
    exact error_of_step hstep

end

end Script

end Graft
