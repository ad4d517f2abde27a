import Renaming.Proofs.Run.Course

/-!
A dry run as a preview. It says of every file what is foretold from its content, and a run that
writes treats every file by its content from before the run; so the two reports agree on all but
the time, the kind of the run and the copies (`preview`), unless a copy, a file or the report could
not be written.
-/

namespace Renaming

open Renaming.Path (names)
open Machine
open Walk (SourceFile)

/-- The record of a file without its copy. -/
def FileRecord.blind (r : FileRecord) : FileRecord := { r with backup := none }

/-- A report without the time and the kind of the run and without the copies. -/
def Report.blind (r : Report) : Report :=
  { r with timestamp := "", dryRun := false, backupDir := none, files := r.files.map .blind }

/-- A fate without the copy of the file. -/
def Fate.blind : Fate → Fate
  | renamed skipped record => renamed skipped record.blind
  | x => x

theorem Report.blind_addFate (r : Report) (path : String) (x : Fate) :
    (r.addFate path x).blind = r.blind.addFate path x.blind := by
  cases x <;>
    simp [addFate, blind, Fate.blind, Fate.problem?, Fate.record?, Fate.skipped, addError, addFile,
      FileRecord.blind]

namespace Run

variable {s s' x : Machine} {q : Request} {home : String} {started started' : Instant}
  {c c' : Course} {b : Backup.Session} {places : List (Place × SourceFile)}
  {fates fates' : List (SourceFile × Fate)} {f : SourceFile} {fate : Fate}
  {bytes left : ByteArray}

theorem blind_draft {q q' : Request} (hrules : q'.rules = q.rules) (started started' : Instant)
    (walked : Walk.Walked)
    (h : fates.map (fun e => (e.1, e.2.blind)) = fates'.map fun e => (e.1, e.2.blind)) :
    (draft q started walked fates).blind = (draft q' started' walked fates').blind := by
  have hfold : ∀ (fates : List (SourceFile × Fate)) (r : Report),
      (fates.foldl (fun r e => r.addFate e.1.path e.2) r).blind =
        (fates.map fun e => (e.1, e.2.blind)).foldl (fun r e => r.addFate e.1.path e.2)
          r.blind := by
    intro fates
    induction fates with
    | nil => exact fun _ => rfl
    | cons e fates ih =>
      intro r
      rw [List.foldl_cons, ih, Report.blind_addFate]
      rfl
  rw [draft, draft, hfold, hfold, h, foldl_addError, foldl_addError, hrules]
  rfl

theorem Treated.blind_eq (h : Treated q s f bytes fate left) (hfate : fate.spoiled = false) :
    fate.blind = (foretold q f.path (s.read f.path)).blind := by
  cases h with
  | asForetold => rfl
  | unsaved | unwritten => cases hfate
  | renamed h =>
    rw [h]
    rfl

theorem AllTreated.blind_eq (h : AllTreated q s x places fates)
    (hfates : ∀ e ∈ fates, e.2.spoiled = false) : fates.map (fun e => (e.1, e.2.blind)) =
      (places.map fun e => (e.2, foretold q e.2.path (s.read e.2.path))).map
        fun e => (e.1, e.2.blind) := by
  induction h with
  | nil => rfl
  | cons _ _ htreated _ ih =>
    rw [List.map_cons, List.map_cons, List.map_cons,
      ih fun e he => hfates e (List.mem_cons_of_mem _ he),
      htreated.blind_eq (hfates _ List.mem_cons_self)]

/-- A dry run says of every file what is foretold. -/
theorem does_processAll_of_dryRun (hq : q.dryRun = true) (fs : List SourceFile) :
    s.does (processAll q fs b) =
      ((fs.map fun f => (f, foretold q f.path (s.read f.path)), b), s) := by
  induction fs with
  | nil => rfl
  | cons f fs ih =>
    rw [processAll, does_bind, does_processFile_of_dryRun hq]
    dsimp only
    rw [does_bind, ih]
    rfl

/-- A dry run foretells what will come of the files of its walk, and does nothing else. -/
theorem does_course_of_dryRun {walked : Walk.Walked} (hdry : q.dryRun = true)
    (hrefusal : q.refusal? = none) (hwalk : walkOf s home q = .ok walked) :
    s.does (course home q started) =
      (.ok { walked
             fates := walked.files.map fun f => (f, foretold q f.path (s.read f.path))
             report :=
              { draft q started walked
                  (walked.files.map fun f => (f, foretold q f.path (s.read f.path))) with
                backupDir := none } }, s) := by
  rw [does_course, hrefusal, hwalk]
  dsimp only
  rw [does_processAll_of_dryRun hdry, conclude, checked, hdry]
  cases q.check <;> rfl

theorem refusal?_of_dryRun
    (h : ∀ messages, { q with dryRun := false }.refusal? ≠ some (.conflictingRules messages)) :
    { q with dryRun := true }.refusal? = { q with dryRun := false }.refusal? := by
  unfold Request.refusal? at h ⊢
  dsimp only at h ⊢
  split
  · rfl
  next hrules =>
  split
  · rfl
  next htargets =>
  rw [if_neg hrules, if_neg htargets] at h
  split at h
  · exact absurd rfl (h _)
  next hblocks =>
    rw [if_neg hblocks]
    simp

theorem exists_course {walked : Walk.Walked} (hrefusal : q.refusal? = none)
    (hwalk : walkOf s home q = .ok walked) (started : Instant) :
    ∃ c s', s.does (course home q started) = (.ok c, s') := by
  rw [does_course, hrefusal, hwalk]
  exact ⟨_, _, rfl⟩

theorem report_of_dryRun (hdry : q.dryRun = true)
    (hx : s.does (course home q started) = (.ok c, s')) : c.report.blind =
      (draft q started c.walked
        (c.walked.files.map fun f => (f, foretold q f.path (s.read f.path)))).blind := by
  obtain ⟨hrefusal, hwalk, -⟩ := course_eq_ok hx
  rw [does_course_of_dryRun hdry hrefusal hwalk] at hx
  have hreport := congrArg Course.report (Except.ok.inj (Prod.mk.inj hx).1)
  rw [← hreport]
  rfl

/-- So is the report of a run that writes, if all copies, all files and the report could be
written. -/
theorem report_of_written (hs : s.Ordered) (hnamed : Named s home q)
    (hdirect : s.Direct q.backupRoot) (hdry : q.dryRun = false) (hcheck : q.check = none)
    (hx : s.does (course home q started) = (.ok c, s'))
    (hfates : ∀ e ∈ c.fates, e.2.spoiled = false) (hreported : c.unreported = none) :
    c.report.blind = (draft q started c.walked
      (c.walked.files.map fun f => (f, foretold q f.path (s.read f.path)))).blind := by
  obtain ⟨S, x, taken, k, b, hw, hconclude⟩ := exists_written hs hnamed hdirect hdry hx
  obtain ⟨rfl, -, -, hfiles, hstage, htreated, -, -⟩ := hw
  rw [conclude_of_not_checked hcheck] at hconclude
  obtain ⟨-, -, hreport⟩ := handIn_stage hstage hconclude
  rw [hreport, hreported, hfiles, List.map_map]
  exact blind_draft rfl started started c.walked (htreated.blind_eq hfates)

/-- **A dry run predicts the run that writes**: both fail with the same error, or their reports
agree on all but the time, the kind of the run and the copies, if all copies, all files and the
report could be written. -/
theorem preview (home : String) (q : Request) (started started' : Instant) (hs : s.Ordered)
    (hnamed : Named s home q) (hdirect : s.Direct q.backupRoot) (hcheck : q.check = none)
    (hrefusal : ∀ messages,
      { q with dryRun := false }.refusal? ≠ some (.conflictingRules messages)) :
    match (s.does (course home { q with dryRun := true } started)).1,
      (s.does (course home { q with dryRun := false } started')).1 with
    | .error f, .error f' => f = f'
    | .ok c, .ok c' => (∀ e ∈ c'.fates, e.2.spoiled = false) → c'.unreported = none →
        c.report.blind = c'.report.blind
    | _, _ => False := by
  have hsame := refusal?_of_dryRun hrefusal
  have hwalk : walkOf s home { q with dryRun := true } = walkOf s home { q with dryRun := false } :=
    rfl
  cases hr : { q with dryRun := false }.refusal? with
  | some cause => simp only [does_course, hsame, hr]
  | none =>
  cases hw : walkOf s home { q with dryRun := false } with
  | error f => simp only [does_course, hsame, hr, hwalk, hw]
  | ok walked =>
  obtain ⟨c, y, hc⟩ := exists_course (hsame.trans hr) (hwalk.trans hw) started
  obtain ⟨c', y', hc'⟩ := exists_course hr hw started'
  rw [hc, hc']
  intro hfates hreported
  have hwalked : c.walked = c'.walked := by
    obtain ⟨-, hw₁, -⟩ := course_eq_ok hc
    obtain ⟨-, hw₂, -⟩ := course_eq_ok hc'
    exact Except.ok.inj (hw₁.symm.trans (hwalk.trans hw₂))
  rw [report_of_dryRun (q := { q with dryRun := true }) rfl hc,
    report_of_written (q := { q with dryRun := false }) hs hnamed hdirect rfl hcheck hc' hfates
      hreported, hwalked]
  apply blind_draft
  · rfl
  · rfl

/-- A run on the first of the two systems, and its dry run at another time. -/
theorem preview_sample : ∃ c c',
    (sample.does (course "" { sampleRequest "backups" with dryRun := true } ⟨0, 0⟩)).1 = .ok c ∧
    (sample.does (course "" { sampleRequest "backups" with dryRun := false } sampleStart)).1 =
      .ok c' ∧
    c'.report.files.map FileRecord.path = ["src/a.ts"] ∧ c.report.blind = c'.report.blind := by
  obtain ⟨c', s', hc', -, hpaths, -, hfates, hreported, -⟩ := sample_run
  replace hc' : (sample.does (course "" { sampleRequest "backups" with dryRun := false }
    sampleStart)).1 = .ok c' := congrArg Prod.fst hc'
  have hdirect : sample.Direct "backups" := direct_of_not_mem (by decide +kernel)
  have hrefusal : { sampleRequest "backups" with dryRun := false }.refusal? = none :=
    Option.isNone_iff_eq_none.1 (by decide +kernel)
  have hsame := preview "" (sampleRequest "backups") ⟨0, 0⟩ sampleStart ordered_sample named_sample
    hdirect rfl fun messages h => nomatch hrefusal.symm.trans h
  rw [hc'] at hsame
  split at hsame
  next h => cases h
  next c c'' hc h =>
    cases h
    exact ⟨c, c', hc, hc', hpaths, hsame hfates (Option.isNone_iff_eq_none.1 hreported)⟩
  next => exact hsame.elim

/-- **A run whose path to the backups makes a detour can leave out what its dry run shows.** It has
overwritten a file before it reads it. -/
theorem not_preview_detour : detour.Ordered ∧ Named detour "" (sampleRequest detourRoot) ∧
    (sampleRequest detourRoot).check = none ∧
    { sampleRequest detourRoot with dryRun := false }.refusal? = none ∧ ∃ c c',
    (detour.does (course "" { sampleRequest detourRoot with dryRun := true } sampleStart)).1 =
      .ok c ∧
    (detour.does (course "" { sampleRequest detourRoot with dryRun := false } sampleStart)).1 =
      .ok c' ∧
    (∀ e ∈ c'.fates, e.2.spoiled = false) ∧ c'.unreported = none ∧
      c.report.blind ≠ c'.report.blind := by
  obtain ⟨c', s', hc', -, -, -, hpaths', -, hfates, hreported, -⟩ := detour_run
  obtain ⟨c, s, hc, hpaths⟩ := exists_of_check
    (detour.does (course "" { sampleRequest detourRoot with dryRun := true } sampleStart))
    (fun c _ => c.report.files.map FileRecord.path = ["src/a.ts", "src/b.ts"]) (by decide +kernel)
  refine ⟨ordered_detour, named_detour, rfl, Option.isNone_iff_eq_none.1 (by decide +kernel), c, c',
    congrArg Prod.fst hc, congrArg Prod.fst hc', hfates, Option.isNone_iff_eq_none.1 hreported,
    fun hsame => ?_⟩
  have hrecords := congrArg (fun r : Report => r.files.map FileRecord.path) hsame
  have hblind : ∀ r : Report, r.blind.files.map FileRecord.path = r.files.map FileRecord.path := by
    simp [Report.blind, FileRecord.blind]
  simp only [hblind, hpaths, hpaths'] at hrecords
  exact absurd hrecords (by decide)

end Run

end Renaming
