import CaseTable.Proofs.Rendering.SourceName
import CaseTable.Proofs.RoundTrip
import CaseTable.Proofs.Storage.Replacing

/-!
# The ways a conversion can end

A conversion on a disk has two parts. The first makes a draft and only looks at
the disk (`Disk.draft`). The second checks the draft and prints it, or writes it
and checks what was written.

`Disk.Ends` lists how a run that writes can end, with what each end leaves of
the disk, and `ends_convert` says that there is no other. The cause tells a
failure of the check from one before it (`ConversionError.OfCheck`): neither a
draft nor a file that is replaced fails like that. The check of what was
written is the check of the draft, because what was written is what is read; and
it fails only if the name of the script does not stay in its comment
(`verify_of_draft_iff`). So it can be read off the disk and the options whether
a run will succeed (`failure_convert_eq_none_iff`).
-/

namespace CaseTable

open Conversion

/-- How a conversion ends that has no draft. -/
structure EarlyEnd where
    progress : List Progress
    warnings : List Warning
    failure : ConversionError

/-- A failure of the check: what was written cannot be read again, or it is not
what was rendered. -/
def ConversionError.OfCheck : ConversionError → Prop
  | .unverifiable _ _ => True
  | .roundTrip _ => True
  | _ => False

theorem ConversionError.OfReplacing.not_ofCheck {cause : ConversionError}
    (h : cause.OfReplacing) : ¬ cause.OfCheck := by
  cases cause with
  | unverifiable path f => cases h
  | roundTrip e => cases h
  | _ => exact id

/-- What was announced when a draft is there. -/
def Conversion.begun (o : ConversionOptions) (x : Draft) : List Progress :=
  [.reading o.input, .parsing] ++ x.progress

namespace Disk

/-- A conversion on a disk: what it reports, and the disk it leaves. -/
def convert (d : Disk) (o : ConversionOptions) : Report × Disk :=
  (CaseTable.convert (m := StateM Disk) o).run d

def readText (d : Disk) (path : Text) : Except Fault Text :=
  match d.read path with
  | .error f => .error f
  | .ok bytes =>
      match Text.ofBytes? bytes with
      | some t => .ok t
      | none => .error .notText

/-- The draft that a conversion makes of what it finds on a disk. -/
def draft (d : Disk) (o : ConversionOptions) : Except EarlyEnd Draft :=
  match d.resolve o.input with
  | .error _ => .error ⟨[.reading o.input], [], .inputMissing o.input⟩
  | .ok _ =>
      match d.readText o.input with
      | .error f => .error ⟨[.reading o.input], [], .unreadable o.input f⟩
      | .ok source =>
          match Conversion.draft o source with
          | .error warnings => .error ⟨[.reading o.input, .parsing], warnings, .nothingFound⟩
          | .ok x => .ok x

variable {d : Disk} {o : ConversionOptions}

/-! ## Drafts -/

theorem readText_eq_ok_iff {path t : Text} :
    d.readText path = .ok t ↔ d.read path = .ok (Text.toBytes t) := by
  rw [readText]
  cases d.read path with
  | error f => simp
  | ok bytes =>
      rw [Except.ok.injEq, ← Text.ofBytes?_eq_some_iff]
      simp only
      cases Text.ofBytes? bytes with
      | none => simp
      | some t' => simp

theorem draft_eq_ok_iff {x : Draft} :
    d.draft o = .ok x ↔
      ∃ source, d.readText o.input = .ok source ∧ Conversion.draft o source = .ok x := by
  constructor
  · intro h
    rw [draft] at h
    split at h
    · cases h
    · split at h
      · cases h
      · next source hsource =>
          split at h
          · cases h
          · next x' hx =>
              cases h
              exact ⟨source, hsource, hx⟩
  · rintro ⟨source, hsource, hx⟩
    obtain ⟨-, l, hl, -⟩ := read_eq_ok_iff.mp (readText_eq_ok_iff.mp hsource)
    rw [draft, hl, hsource]
    simp only [hx]

/-- What is drafted is a rendering of what was extracted. -/
theorem extract_of_draft {source : Text} {x : Draft}
    (h : Conversion.draft o source = .ok x) :
    extract o.policy o.script source = .ok x.extraction ∧
      x.rendering =
        render x.extraction.table ⟨o.default, o.layout, o.style, sourceName o.input⟩ := by
  rw [Conversion.draft] at h
  split at h
  · cases h
  · next e he =>
      split at h
      · cases h
      · cases h
        exact ⟨he, rfl⟩

/-- A draft is verified exactly if the name of the script stays in its comment. -/
theorem verify_of_draft_iff {x : Draft} (h : d.draft o = .ok x) :
    verify x.rendering.sections x.rendering.text = .ok () ↔
      Rendering.Inert (sourceName o.input) := by
  obtain ⟨source, -, hdraft⟩ := draft_eq_ok_iff.mp h
  obtain ⟨hextract, hrender⟩ := extract_of_draft hdraft
  rw [hrender, Rendering.verify_render_sourceName_iff]
  refine and_iff_left ?_
  exact survives_of_extracted (extracted_of_extract hextract)

theorem not_inert_of_verify_eq_error {x : Draft} {e : VerificationError}
    (h : d.draft o = .ok x)
    (hverify : verify x.rendering.sections x.rendering.text = .error e) :
    ¬ Rendering.Inert (sourceName o.input) := by
  rw [← verify_of_draft_iff h, hverify]
  rintro ⟨⟩

/-- There is nothing to check without a draft. -/
theorem not_ofCheck_of_draft {e : EarlyEnd} (h : d.draft o = .error e) :
    ¬ e.failure.OfCheck := by
  rw [draft] at h
  split at h
  · cases h
    exact id
  · split at h
    · cases h
      exact id
    · split at h
      · cases h
        exact id
      · cases h

/-- A dry run has the same draft. -/
theorem draft_dryRun (d : Disk) (o : ConversionOptions) (b : Bool) :
    d.draft { o with dryRun := b } = d.draft o :=
  rfl

/-! ## The steps, run -/

theorem run_exists (d : Disk) (path : Text) :
    (Storage.exists? (m := StateM Disk) path).run d = pure ((d.resolve path).isOk, d) := by
  simp only [Storage.exists?, StateT.run_bind, StateT.run_get, pure_bind]
  cases d.resolve path with
  | error f => rfl
  | ok l => rfl

theorem run_readText (d : Disk) (path : Text) :
    (Conversion.readText (m := StateM Disk) path).run d = pure (d.readText path, d) := by
  have hread : (Storage.read (m := StateM Disk) path).run d = pure (d.read path, d) := rfl
  rw [Conversion.readText, StateT.run_bind, hread, pure_bind, readText]
  cases d.read path with
  | error f => rfl
  | ok bytes =>
      simp only
      cases Text.ofBytes? bytes with
      | none => rfl
      | some t => rfl

/-- A conversion makes its draft and then finishes it, or reports why there is
none. -/
theorem convert_eq (d : Disk) (o : ConversionOptions) :
    d.convert o =
      match d.draft o with
      | .error e => (report o e.progress e.warnings (some e.failure), d)
      | .ok x => (finish (m := StateM Disk) o x).run d := by
  rw [convert, CaseTable.convert, StateT.run_bind, run_exists, pure_bind, draft]
  cases d.resolve o.input with
  | error f => rfl
  | ok l =>
      simp only [Except.isOk, Except.toBool, if_true]
      rw [StateT.run_bind, run_readText, pure_bind]
      cases d.readText o.input with
      | error f => rfl
      | ok source =>
          simp only
          cases Conversion.draft o source with
          | error warnings => rfl
          | ok x => rfl

/-- A text that was written is checked as it is, if it can be read again. -/
theorem run_writeVerified (d : Disk) (path : Text) (r : Rendering) :
    (∃ l, d.Places path l ∧ (writeVerified (m := StateM Disk) path r).run d =
      pure (match d.refuses (.read path) with
        | some f => .error (.unverifiable path f)
        | none => (verify r.sections r.text).mapError .roundTrip,
        d.put l (.file (Text.toBytes r.text)))) ∨
    (∃ cause, cause.OfReplacing ∧ (∀ l, ¬ d.Places path l) ∧
      (writeVerified (m := StateM Disk) path r).run d = pure (.error cause, d)) := by
  rw [writeVerified, StateT.run_bind]
  rcases run_replaceFile d path r.text with
    ⟨l, hl, hrun⟩ | ⟨cause, hcause, hplaces, hrun⟩
  · refine .inl ⟨l, hl, ?_⟩
    rw [hrun, pure_bind]
    simp only
    rw [StateT.run_bind, run_readText, pure_bind]
    cases hread : d.refuses (.read path) with
    | some f =>
        have htext : (d.put l (.file (Text.toBytes r.text))).readText path = .error f := by
          rw [readText, read, refuses_put, hread]
        rw [htext]
        rfl
    | none =>
        rw [readText_eq_ok_iff.mpr (hl.read_put hread _)]
        simp only
        cases verify r.sections r.text with
        | error cause => rfl
        | ok _ => rfl
  · refine .inr ⟨cause, hcause, hplaces, ?_⟩
    rw [hrun, pure_bind]
    rfl

/-! ## The ends -/

/-- How a run that writes can end, and what it leaves. -/
inductive Ends (d : Disk) (o : ConversionOptions) : Report × Disk → Prop
    /-- There is no draft. -/
    | early (e : EarlyEnd) (hdraft : d.draft o = .error e) :
        Ends d o (report o e.progress e.warnings (some e.failure), d)
    /-- The output was not replaced. -/
    | unwritten (x : Draft) (hdraft : d.draft o = .ok x) (cause : ConversionError)
        (hcause : cause.OfReplacing) (hplaces : ∀ l, ¬ d.Places o.output l) :
        Ends d o (report o (begun o x) x.warnings (some cause), d)
    /-- The output was replaced and cannot be read again. -/
    | unread (x : Draft) (hdraft : d.draft o = .ok x) (l : Location)
        (hplaces : d.Places o.output l) (f : Fault) (hread : d.refuses (.read o.output) = some f) :
        Ends d o (report o (begun o x) x.warnings (some (.unverifiable o.output f)),
          d.put l (.file (Text.toBytes x.rendering.text)))
    /-- The output was replaced and does not hold what was rendered. -/
    | unverified (x : Draft) (hdraft : d.draft o = .ok x) (l : Location)
        (hplaces : d.Places o.output l) (hread : d.refuses (.read o.output) = none)
        (cause : VerificationError)
        (hverify : verify x.rendering.sections x.rendering.text = .error cause) :
        Ends d o (report o (begun o x) x.warnings (some (.roundTrip cause)),
          d.put l (.file (Text.toBytes x.rendering.text)))
    | done (x : Draft) (hdraft : d.draft o = .ok x) (l : Location)
        (hplaces : d.Places o.output l) (hread : d.refuses (.read o.output) = none)
        (hverify : verify x.rendering.sections x.rendering.text = .ok ()) :
        Ends d o (report o (begun o x ++
            [.written x.extraction.table.size o.output, .done]) x.warnings none,
          d.put l (.file (Text.toBytes x.rendering.text)))

theorem ends_convert (d : Disk) (hreal : o.dryRun = false) : d.Ends o (d.convert o) := by
  rw [convert_eq]
  cases hdraft : d.draft o with
  | error e => exact .early e hdraft
  | ok x =>
      simp only
      rw [finish, hreal]
      simp only [Bool.false_eq_true, if_false]
      rw [StateT.run_bind]
      rcases run_writeVerified d o.output x.rendering with
        ⟨l, hl, hrun⟩ | ⟨cause, hcause, hplaces, hrun⟩
      · rw [hrun, pure_bind]
        cases hread : d.refuses (.read o.output) with
        | some f => exact .unread x hdraft l hl f hread
        | none =>
            cases hverify : verify x.rendering.sections x.rendering.text with
            | error cause => exact .unverified x hdraft l hl hread cause hverify
            | ok _ => exact .done x hdraft l hl hread hverify
      · rw [hrun, pure_bind]
        exact .unwritten x hdraft cause hcause hplaces

/-- A run that can write and read its output always writes it. What it reports
then depends on the check. -/
theorem convert_of_places {x : Draft} {l : Location} (hreal : o.dryRun = false)
    (hdraft : d.draft o = .ok x) (hplaces : d.Places o.output l)
    (hread : d.refuses (.read o.output) = none) :
    d.convert o =
      (match verify x.rendering.sections x.rendering.text with
        | .error cause => report o (begun o x) x.warnings (some (.roundTrip cause))
        | .ok () => report o (begun o x ++
            [.written x.extraction.table.size o.output, .done]) x.warnings none,
        d.put l (.file (Text.toBytes x.rendering.text))) := by
  have hends := d.ends_convert hreal
  generalize d.convert o = run at hends
  cases hends with
  | early e hdraft' =>
      rw [hdraft] at hdraft'
      cases hdraft'
  | unwritten x' hdraft' cause hcause hnone => exact absurd hplaces (hnone l)
  | unread x' hdraft' l' hplaces' f hread' =>
      rw [hread] at hread'
      cases hread'
  | unverified x' hdraft' l' hplaces' hread' cause hverify =>
      obtain rfl := Except.ok.inj (hdraft.symm.trans hdraft')
      rw [hverify, hplaces'.unique hplaces]
  | done x' hdraft' l' hplaces' hread' hverify =>
      obtain rfl := Except.ok.inj (hdraft.symm.trans hdraft')
      rw [hverify, hplaces'.unique hplaces]

/-- A script with a name that does not stay in its comment has its output
written before the run fails. -/
theorem convert_of_not_inert {x : Draft} {l : Location} (hreal : o.dryRun = false)
    (hdraft : d.draft o = .ok x) (hplaces : d.Places o.output l)
    (hread : d.refuses (.read o.output) = none)
    (hinert : ¬ Rendering.Inert (sourceName o.input)) :
    (∃ e, (d.convert o).1.failure = some (.roundTrip e)) ∧
      (d.convert o).2 = d.put l (.file (Text.toBytes x.rendering.text)) := by
  have hverify := mt (verify_of_draft_iff hdraft).mp hinert
  rw [convert_of_places hreal hdraft hplaces hread]
  refine ⟨?_, rfl⟩
  cases h : verify x.rendering.sections x.rendering.text with
  | error e => exact ⟨e, rfl⟩
  | ok _ => exact absurd h hverify

/-- A dry run checks its draft and leaves the disk alone. -/
theorem convert_of_dryRun (hdry : o.dryRun = true) :
    d.convert o =
      (match d.draft o with
        | .error e => report o e.progress e.warnings (some e.failure)
        | .ok x =>
            match verify x.rendering.sections x.rendering.text with
            | .error cause => report o (begun o x) x.warnings (some (.roundTrip cause))
            | .ok () =>
                { report o (begun o x) x.warnings none with
                  document := some x.rendering.text }, d) := by
  rw [convert_eq]
  cases d.draft o with
  | error e => rfl
  | ok x =>
      simp only
      rw [finish, hdry]
      simp only [if_true]
      cases verify x.rendering.sections x.rendering.text with
      | error cause => rfl
      | ok _ => rfl

/-- A dry run reads nothing again, so its check fails by the name of the script
only. -/
theorem roundTrip_of_dryRun {cause : ConversionError} (hdry : o.dryRun = true)
    (h : (d.convert o).1.failure = some cause) (hcheck : cause.OfCheck) :
    (∃ e, cause = .roundTrip e) ∧ ¬ Rendering.Inert (sourceName o.input) := by
  rw [convert_of_dryRun hdry] at h
  cases hdraft : d.draft o with
  | error e =>
      rw [hdraft] at h
      cases h
      exact absurd hcheck (not_ofCheck_of_draft hdraft)
  | ok x =>
      simp only [hdraft] at h
      cases hverify : verify x.rendering.sections x.rendering.text with
      | error e =>
          rw [hverify] at h
          cases h
          exact ⟨⟨e, rfl⟩, not_inert_of_verify_eq_error hdraft hverify⟩
      | ok _ =>
          rw [hverify] at h
          cases h

/-- A run that writes succeeds if there is a draft, the output has a place and
can be read again, and the name of the script stays in its comment. -/
theorem failure_convert_eq_none_iff (hreal : o.dryRun = false) :
    (d.convert o).1.failure = none ↔
      (∃ x, d.draft o = .ok x) ∧ (∃ l, d.Places o.output l) ∧
        d.refuses (.read o.output) = none ∧ Rendering.Inert (sourceName o.input) := by
  have hends := d.ends_convert hreal
  generalize d.convert o = run at hends
  cases hends with
  | early e hdraft => simp [report, hdraft]
  | unwritten x hdraft cause hcause hplaces => simp [report, hplaces]
  | unread x hdraft l hplaces f hread => simp [report, hread]
  | unverified x hdraft l hplaces hread cause hverify =>
      simp [report, ← verify_of_draft_iff hdraft, hverify]
  | done x hdraft l hplaces hread hverify =>
      simp only [report, true_iff]
      exact ⟨⟨x, hdraft⟩, ⟨l, hplaces⟩, hread, (verify_of_draft_iff hdraft).mp hverify⟩

end Disk

end CaseTable
