import CaseTable.Conversion
import CaseTable.Proofs.Storage.Nodes
import CaseTable.Proofs.Storage.Paths

/-!
# Replacing a file does all of it or nothing

A file is replaced in four steps, and each of them can fail. What a run of
them leaves is one of two things (`run_replaceFile`): the very disk it began
with, or that disk with the whole new file at the place the path leads to. The
temporary file is in neither.

The disk decides beforehand which of the two it will be. `Places` is what must
hold of it, and it does not depend on what the file holds. So a file that was
replaced once can be replaced again (`Places.put`), and what was written is
what is read (`Places.read_put`).
-/

namespace CaseTable

namespace Disk

variable {d e : Disk} {path : Text} {l : Location}

/-! ## Files among directories -/

theorem ne_nil_of_isDirectory_eq_false (h : d.isDirectory l = false) : l ≠ [] := by
  rintro rfl
  rw [isDirectory, node?, if_pos rfl] at h
  cases h

theorem node?_put_file (h : d.isDirectory l = false) (content : Bytes) (k : Location) :
    (d.put l (.file content)).node? k = if k = l then some (.file content) else d.node? k :=
  node?_put d (ne_nil_of_isDirectory_eq_false h) (.file content) k

theorem isDirectory_eq_false_of_free (h : d.node? l = none) : d.isDirectory l = false := by
  rw [isDirectory, h]
  rfl

/-- A file in a place that no directory has leaves the directories alone. -/
theorem isDirectory_put_file (h : d.isDirectory l = false) (content : Bytes) (k : Location) :
    (d.put l (.file content)).isDirectory k = d.isDirectory k := by
  rw [isDirectory, node?_put_file h]
  by_cases hk : k = l
  · rw [if_pos hk, hk, h]
    rfl
  · rw [if_neg hk, isDirectory]

theorem working_put (d : Disk) (l : Location) (n : Node) : (d.put l n).working = d.working :=
  rfl

theorem refuses_put (d : Disk) (l : Location) (n : Node) : (d.put l n).refuses = d.refuses :=
  rfl

theorem target_put_file (h : d.isDirectory l = false) (content : Bytes) {t : Location} :
    (d.put l (.file content)).target path = .ok t ↔ d.target path = .ok t :=
  ⟨target_of_target (working_put d l _).symm fun k => (isDirectory_put_file h content k).symm,
    target_of_target (working_put d l _) (isDirectory_put_file h content)⟩

/-- A path still leads to where it led before a file was put somewhere. -/
theorem resolve_put_file (h : d.isDirectory l = false) (content : Bytes) {k : Location}
    (hk : (d.node? k).isSome = true) (hresolve : d.resolve path = .ok k) :
    (d.put l (.file content)).resolve path = .ok k := by
  refine resolve_of_resolve (working_put d l _)
    (fun m hm => (isDirectory_put_file h content m).trans hm) ?_ hresolve
  rw [node?_put_file h]
  split
  · rfl
  · exact hk

theorem read_eq_ok_iff {content : Bytes} :
    d.read path = .ok content ↔
      d.refuses (.read path) = none ∧
        ∃ k, d.resolve path = .ok k ∧ d.node? k = some (.file content) := by
  constructor
  · intro h
    rw [read] at h
    split at h
    · cases h
    · next hrefuses =>
        split at h
        · cases h
        · next k hresolve =>
            split at h
            · next content' hnode =>
                cases h
                exact ⟨hrefuses, k, hresolve, hnode⟩
            · cases h
            · cases h
  · rintro ⟨hrefuses, k, hresolve, hnode⟩
    rw [read, hrefuses]
    simp only [hresolve, hnode]

/-- A file is read as before after another one was put somewhere. -/
theorem read_put_of_ne (h : d.isDirectory l = false) (content : Bytes) {old : Bytes}
    (hread : d.read path = .ok old) (hother : d.resolve path ≠ .ok l) :
    (d.put l (.file content)).read path = .ok old := by
  obtain ⟨hrefuses, k, hresolve, hnode⟩ := read_eq_ok_iff.mp hread
  have hk : k ≠ l := fun heq => hother (heq ▸ hresolve)
  refine read_eq_ok_iff.mpr ⟨hrefuses, k, resolve_put_file h content ?_ hresolve, ?_⟩
  · rw [hnode]
    rfl
  · rw [node?_put_file h, if_neg hk, hnode]

/-! ## Temporary files -/

theorem createTemporary_eq_ok_iff {k : Location} :
    d.createTemporary path = .ok (k, e) ↔
      d.refuses (.create path) = none ∧
        (∃ l, d.resolve path = .ok l ∧ d.isDirectory l = true ∧
          d.freeLocation? l = some k) ∧
        e = d.put k (.file []) := by
  constructor
  · intro h
    rw [createTemporary] at h
    split at h
    · cases h
    · next hrefuses =>
        split at h
        · cases h
        · next l hresolve =>
            split at h
            · next hdir =>
                split at h
                · next k hfree =>
                    cases h
                    exact ⟨hrefuses, ⟨l, hresolve, hdir, hfree⟩, rfl⟩
                · cases h
            · cases h
  · rintro ⟨hrefuses, ⟨l, hresolve, hdir, hfree⟩, rfl⟩
    simp only [createTemporary, hrefuses, hresolve, hdir, hfree, if_true]

/-- Moving the temporary file to a path is putting its content there. -/
theorem replace_put_eq_ok_iff {k : Location} (hk : d.node? k = none) (content : Bytes) :
    (d.put k (.file content)).replace k path = .ok e ↔
      d.refuses (.replace path) = none ∧
        ∃ t, d.target path = .ok t ∧ e = d.put t (.file content) := by
  have hdir := isDirectory_eq_false_of_free hk
  have hnode : (d.put k (.file content)).node? k = some (.file content) := by
    rw [node?_put_file hdir, if_pos rfl]
  have htarget (t : Location) :
      (d.put k (.file content)).target path = .ok t ↔ d.target path = .ok t :=
    target_put_file hdir content
  rw [replace, refuses_put, hnode, erase_put_of_free hk]
  cases d.refuses (.replace path) with
  | some f => simp
  | none =>
      cases hput : (d.put k (.file content)).target path with
      | error f => simp [← htarget, hput]
      | ok t => simp [← htarget, hput, eq_comm]

/-! ## What must hold for a file to be replaced -/

/-- The disk takes a file at a path, and this is where it will lie. -/
structure Places (d : Disk) (path : Text) (l : Location) : Prop where
  create : d.refuses (.create (Path.directory path)) = none
  directory : ∃ k, d.resolve (Path.directory path) = .ok k ∧ d.isDirectory k = true
  write : d.refuses .write = none
  flush : d.refuses .flush = none
  replace : d.refuses (.replace path) = none
  target : d.target path = .ok l

namespace Places

theorem unique {k : Location} (hk : d.Places path k) (hl : d.Places path l) : k = l :=
  Except.ok.inj (hk.target.symm.trans hl.target)

theorem isDirectory_eq_false (h : d.Places path l) : d.isDirectory l = false :=
  isDirectory_of_target h.target

theorem exists_createTemporary (h : d.Places path l) :
    ∃ k, d.node? k = none ∧
      d.createTemporary (Path.directory path) = .ok (k, d.put k (.file [])) := by
  obtain ⟨m, hresolve, hdir⟩ := h.directory
  obtain ⟨k, hfree⟩ := exists_freeLocation? d m
  exact ⟨k, free_of_freeLocation? hfree,
    createTemporary_eq_ok_iff.mpr ⟨h.create, ⟨m, hresolve, hdir, hfree⟩, rfl⟩⟩

/-- The file at the path can be any. -/
theorem put (h : d.Places path l) (content : Bytes) :
    (d.put l (.file content)).Places path l := by
  have hl := h.isDirectory_eq_false
  obtain ⟨k, hresolve, hdir⟩ := h.directory
  exact { h with
    directory := ⟨k, resolve_put_file hl content (isSome_of_isDirectory hdir) hresolve,
      (isDirectory_put_file hl content k).trans hdir⟩
    target := (target_put_file hl content).mpr h.target }

/-- Nothing changes but the file at the path. -/
theorem node?_put (h : d.Places path l) (content : Bytes) (k : Location) :
    (d.put l (.file content)).node? k = if k = l then some (.file content) else d.node? k :=
  node?_put_file h.isDirectory_eq_false content k

theorem resolve_put (h : d.Places path l) (content : Bytes) :
    (d.put l (.file content)).resolve path = .ok l := by
  refine resolve_of_target (h.put content).target ?_
  rw [h.node?_put, if_pos rfl]
  rfl

/-- What was written is what is read. -/
theorem read_put (h : d.Places path l) (hread : d.refuses (.read path) = none)
    (content : Bytes) : (d.put l (.file content)).read path = .ok content := by
  refine read_eq_ok_iff.mpr ⟨hread, l, h.resolve_put content, ?_⟩
  rw [h.node?_put, if_pos rfl]

end Places

/-! ## The steps, run -/

theorem run_createTemporary (d : Disk) (path : Text) :
    (Storage.createTemporary (m := StateM Disk) path).run d =
      pure (match d.createTemporary path with
        | .error f => (.error f, d)
        | .ok (l, e) => (.ok l, e)) := by
  simp only [Storage.createTemporary, StateT.run_bind, StateT.run_get, pure_bind]
  cases d.createTemporary path with
  | error f => rfl
  | ok made => rfl

theorem run_write (d : Disk) (l : Location) (content : Bytes) :
    (Storage.write (m := StateM Disk) l content).run d =
      pure (match d.refuses .write with
        | some f => (.error f, d)
        | none => (.ok (), d.put l (.file content))) := by
  simp only [Storage.write, StateT.run_bind, StateT.run_get, pure_bind]
  cases d.refuses .write with
  | some f => rfl
  | none => rfl

theorem run_flush (d : Disk) (l : Location) :
    (Storage.flush (m := StateM Disk) l).run d =
      pure (match d.refuses .flush with
        | some f => (.error f, d)
        | none => (.ok (), d)) := by
  simp only [Storage.flush, StateT.run_bind, StateT.run_get, pure_bind]
  cases d.refuses .flush with
  | some f => rfl
  | none => rfl

theorem run_replace (d : Disk) (l : Location) (path : Text) :
    (Storage.replace (m := StateM Disk) l path).run d =
      pure (match d.replace l path with
        | .error f => (.error f, d)
        | .ok e => (.ok (), e)) := by
  simp only [Storage.replace, StateT.run_bind, StateT.run_get, pure_bind]
  cases d.replace l path with
  | error f => rfl
  | ok e => rfl

/-- A temporary file that is given up leaves nothing behind. -/
theorem run_abandon {k : Location} (hk : d.node? k = none) (content : Bytes)
    (cause : ConversionError) :
    (Conversion.abandon (m := StateM Disk) k cause).run (d.put k (.file content)) =
      pure (.error cause, d) := by
  show (Except.error cause, (d.put k (.file content)).erase k) = (Except.error cause, d)
  rw [erase_put_of_free hk]

end Disk

/-! ## The whole run -/

/-- A failure to replace the output. -/
def ConversionError.OfReplacing : ConversionError → Prop
  | .noTemporary _ _ => True
  | .unwritable _ _ => True
  | .unflushable _ _ => True
  | .irreplaceable _ _ => True
  | _ => False

/-- A failure to write the output or to read it again. -/
def ConversionError.OfOutput : ConversionError → Prop
  | .noTemporary _ _ => True
  | .unwritable _ _ => True
  | .unflushable _ _ => True
  | .irreplaceable _ _ => True
  | .unverifiable _ _ => True
  | _ => False

theorem ConversionError.OfReplacing.ofOutput {cause : ConversionError} (h : cause.OfReplacing) :
    cause.OfOutput := by
  cases cause with
  | unverifiable path f => cases h
  | _ => exact h

namespace Conversion

open Disk

/-- A file is replaced as a whole, or the disk is as it was. Which of the two
it is does not depend on the text. -/
theorem run_replaceFile (d : Disk) (path t : Text) :
    (∃ l, d.Places path l ∧ (replaceFile (m := StateM Disk) path t).run d =
      pure (.ok (), d.put l (.file (Text.toBytes t)))) ∨
    (∃ cause, cause.OfReplacing ∧ (∀ l, ¬ d.Places path l) ∧
      (replaceFile (m := StateM Disk) path t).run d = pure (.error cause, d)) := by
  rw [replaceFile, StateT.run_bind, run_createTemporary, pure_bind]
  cases hcreate : d.createTemporary (Path.directory path) with
  | error f =>
      refine .inr ⟨.noTemporary (Path.directory path) f, trivial, fun l hl => ?_, rfl⟩
      obtain ⟨k, -, hk⟩ := hl.exists_createTemporary
      rw [hcreate] at hk
      cases hk
  | ok made =>
      obtain ⟨k, e⟩ := made
      obtain ⟨hrefuses, ⟨m, hresolve, hdir, hfree⟩, rfl⟩ := createTemporary_eq_ok_iff.mp hcreate
      have hk := free_of_freeLocation? hfree
      -- from here on a step that fails gives the temporary file up
      simp only
      rw [StateT.run_bind, run_write, pure_bind, refuses_put]
      cases hwrite : d.refuses .write with
      | some f =>
          refine .inr ⟨_, ?_, fun l hl => ?_, run_abandon hk _ _⟩
          · trivial
          · exact Option.some_ne_none f (hwrite.symm.trans hl.write)
      | none =>
          simp only
          rw [StateT.run_bind, run_flush, pure_bind, put_put, refuses_put]
          cases hflush : d.refuses .flush with
          | some f =>
              refine .inr ⟨_, ?_, fun l hl => ?_, run_abandon hk _ _⟩
              · trivial
              · exact Option.some_ne_none f (hflush.symm.trans hl.flush)
          | none =>
              simp only
              rw [StateT.run_bind, run_replace, pure_bind]
              cases hreplace : (d.put k (.file (Text.toBytes t))).replace k path with
              | error f =>
                  refine .inr ⟨_, ?_, fun l hl => ?_, run_abandon hk _ _⟩
                  · trivial
                  · have hok := (replace_put_eq_ok_iff hk (Text.toBytes t)).mpr
                      ⟨hl.replace, l, hl.target, rfl⟩
                    rw [hreplace] at hok
                    cases hok
              | ok e =>
                  obtain ⟨hrefuse, l, htarget, rfl⟩ := (replace_put_eq_ok_iff hk _).mp hreplace
                  exact .inl ⟨l, ⟨hrefuses, ⟨m, hresolve, hdir⟩, hwrite, hflush, hrefuse,
                    htarget⟩, rfl⟩

end Conversion

end CaseTable
