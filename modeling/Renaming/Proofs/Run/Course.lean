import Renaming.Proofs.Backup.Locate
import Renaming.Proofs.Run.Files

/-!
The course of a run, from its walk to its report. A run that writes has treated all files of its
walk by their content from before the run (`exists_written`); what follows leaves them as they are
(`handIn_stage`), and up to the check it passes through trees that are known (`conclude_passed`).
-/

namespace Renaming

open Renaming.Path (names)
open Machine
open Backup (Setting Saved Stage Kept Passing Steady)
open Walk (SourceFile)

namespace Run

variable {S : Setting} {s s' x x' y : Machine} {q : Request} {taken : List Saved} {k : Nat}
  {b : Backup.Session}

/-! ### The report on the files -/

theorem foldl_addError (us : List Walk.Unlisted) (r : Report) :
    us.foldl (fun r u => r.addError u.path u.message) r =
      { r with errors := r.errors ++ us.map fun u => ⟨u.path, u.message⟩ } := by
  induction us generalizing r with
  | nil => simp
  | cons u us ih =>
    rw [List.foldl_cons, ih]
    simp [Report.addError]

theorem files_addFate (r : Report) (path : String) (x : Fate) :
    (r.addFate path x).files = r.files ++ x.record?.toList := by
  cases x <;> simp [Report.addFate, Fate.problem?, Fate.record?, Report.addError, Report.addFile]

theorem files_foldl_addFate (fates : List (SourceFile × Fate)) (r : Report) :
    (fates.foldl (fun r (f, x) => r.addFate f.path x) r).files =
      r.files ++ fates.filterMap fun e => e.2.record? := by
  induction fates generalizing r with
  | nil => simp
  | cons e fates ih =>
    rw [List.foldl_cons, ih, files_addFate, List.filterMap_cons]
    cases e.2.record? <;> simp

/-- The records of a report are those of the files that were renamed. -/
theorem files_draft (q : Request) (started : Instant) (walked : Walk.Walked)
    (fates : List (SourceFile × Fate)) :
    (draft q started walked fates).files = fates.filterMap fun e => e.2.record? := by
  rw [draft, files_foldl_addFate, foldl_addError]
  rfl

theorem errors_addFate (r : Report) (path : String) (x : Fate) : (r.addFate path x).errors =
    r.errors ++ x.problem?.toList.map fun message => ⟨path, message⟩ := by
  cases x <;> simp [Report.addFate, Fate.problem?, Fate.record?, Report.addError, Report.addFile]

theorem errors_foldl_addFate (fates : List (SourceFile × Fate)) (r : Report) :
    (fates.foldl (fun r (f, x) => r.addFate f.path x) r).errors =
      r.errors ++ fates.flatMap fun e => e.2.problem?.toList.map fun m => ⟨e.1.path, m⟩ := by
  induction fates generalizing r with
  | nil => simp
  | cons e fates ih =>
    rw [List.foldl_cons, ih, errors_addFate, List.flatMap_cons, List.append_assoc]

/-- The errors of a report are the directories that could not be listed and what went wrong with the
files. -/
theorem errors_draft (q : Request) (started : Instant) (walked : Walk.Walked)
    (fates : List (SourceFile × Fate)) : (draft q started walked fates).errors =
      (walked.unlisted.map fun u => ⟨u.path, u.message⟩) ++
        fates.flatMap fun e => e.2.problem?.toList.map fun m => ⟨e.1.path, m⟩ := by
  rw [draft, errors_foldl_addFate, foldl_addError]
  rfl

/-- If a report names no errors, nothing went wrong with any file. -/
theorem problem?_eq_none_of_draft {started : Instant} {walked : Walk.Walked}
    {fates : List (SourceFile × Fate)} (h : (draft q started walked fates).errors = []) :
    ∀ e ∈ fates, e.2.problem? = none := by
  intro e he
  rw [errors_draft, List.append_eq_nil_iff, List.flatMap_eq_nil_iff] at h
  simpa using h.2 e he

/-! ### The end of a run -/

theorem creates_of_writeReport {path : String} {r : Report} {o : Except Failure Unit}
    (hr : x.does (writeReport r path) = (o, x')) :
    Creates x path (r.textFor path).toUTF8 o x' := by
  obtain ⟨o₁, y, hfolder, hr⟩ := does_bind_eq_iff.1 hr
  have hpaved := paved_of_makeFolder hfolder
  cases o₁ with
  | error f =>
    cases hr
    exact .unwritten hpaved
  | ok =>
    obtain ⟨o₂, hwrite, rfl⟩ := writeText_eq hr
    exact .written hpaved hwrite

theorem writeReport_kept {dir : String} {d : Place} {r : Report} {o : Except Failure Unit}
    (h : Kept S dir d taken k x.tree) (hx : x.toScene = S.start.toScene)
    (hr : x.does (writeReport r (Path.join dir reportName)) = (o, x')) :
    Along (Kept S dir d taken k) x x' ∧ Steady S x x' := by
  have hplain : Path.IsPlain reportName := by decide
  obtain ⟨halong, hsteady, -⟩ := h.create hx hplain.isWay
    (fun _ e he => Kept.names_copyPath_ne (h.genuine e he).1 hplain) (by decide)
    (creates_of_writeReport hr)
  exact ⟨halong, hsteady⟩

/-- The report beside the copies is the last file to be written. If that goes wrong, it is one more
error of the report. -/
theorem handIn_eq {dir? : Option String} {r r' : Report} {u : Option Failure}
    (hx : x.does (handIn dir? r) = ((r', u), x')) :
    (r' = u.elim r fun f => r.addError (Path.join (dir?.getD "") reportName) f.oneLine) ∧
      (dir? = none → u = none) := by
  cases dir? with
  | none =>
    cases hx
    exact ⟨rfl, fun _ => rfl⟩
  | some dir =>
    obtain ⟨o, y, -, hx⟩ := does_bind_eq_iff.1 hx
    cases o
    all_goals
      cases hx
      exact ⟨rfl, nofun⟩

theorem handIn_stage {r r' : Report} {u : Option Failure} (h : Stage S x taken k b)
    (hx : x.does (handIn b.dir r) = ((r', u), x')) : Stage S x' taken k b ∧ Steady S x x' ∧
      r' = u.elim r fun f => r.addError (Path.join (b.dir.getD "") reportName) f.oneLine := by
  refine and_assoc.1 ⟨?_, (handIn_eq hx).1⟩
  cases h with
  | before along =>
    cases hx
    exact ⟨.before along, .refl⟩
  | within along hname hdir kept =>
    obtain ⟨o, y, hreport, hx⟩ := does_bind_eq_iff.1 hx
    obtain ⟨halong, hsteady⟩ := writeReport_kept kept along.scene hreport
    cases o
    all_goals
      cases hx
      exact ⟨.within (along.trans (halong.mono fun _ => .kept)) hname hdir halong.last, hsteady⟩

theorem conclude_of_not_checked {dir? : Option String} {r : Report} (hq : q.check = none) :
    x.does (conclude q dir? r) = x.does (handIn dir? { r with backupDir := dir? }) := by
  rw [conclude, does_bind, checked, hq]
  rfl

theorem changes_handIn {dir? : Option String} {r : Report} {o : Report × Option Failure}
    (hx : x.does (handIn dir? r) = (o, x')) : ∃ cs, x'.changes = x.changes ++ cs := by
  cases dir? with
  | none =>
    cases hx
    exact ⟨[], (List.append_nil _).symm⟩
  | some dir =>
    obtain ⟨o₁, y, hreport, hx⟩ := does_bind_eq_iff.1 hx
    have hy : x' = y := by
      cases o₁
      all_goals
        cases hx
        rfl
    exact hy ▸ (creates_of_writeReport hreport).changes

/-- A run carries out its check, if it has one and is no dry run, and nothing else. -/
theorem checked_eq {r r' : Report} (hx : x.does (checked q r) = (r', y)) :
    y = x ∨ ∃ c o, q.check = some c ∧ x.launch c = (o, y) := by
  unfold checked at hx
  split at hx
  next c hc =>
    split at hx
    · cases hx
      exact .inl rfl
    · obtain ⟨o, z, hrun, hx⟩ := does_bind_eq_iff.1 hx
      have hy : y = z := by
        cases o
        all_goals
          cases hx
          rfl
      rw [hy]
      simp only [Files.runCommand, bind_pure_comp, does_map, does_launch, Prod.mk.injEq] at hrun
      exact .inr ⟨c, _, hc, Prod.ext rfl hrun.2⟩
  · cases hx
    exact .inl rfl

theorem checked_changes {r r' : Report} (hx : x.does (checked q r) = (r', y)) :
    y = x ∨ ∃ command cs, y.changes = x.changes ++ .launch command :: cs := by
  rcases checked_eq hx with h | ⟨c, o, -, hlaunch⟩
  · exact .inl h
  · exact launch_changes hlaunch

/-- What the check of a run adds to the report: how it ended, or an error if it could not be
started. -/
inductive Verified (q : Request) (r : Report) : Report → Prop
  | skipped (h : q.check = none ∨ q.dryRun = true) : Verified q r r
  | ended {c : Check} (h : q.check = some c) (hdry : q.dryRun = false) (e : Ending) :
    Verified q r { r with verification := some ⟨c.shown, e⟩ }
  | failed {c : Check} (h : q.check = some c) (hdry : q.dryRun = false) (f : Failure) :
    Verified q r (r.addError c.shown f.oneLine)

theorem verified {r r' : Report} (hx : x.does (checked q r) = (r', y)) : Verified q r r' := by
  unfold checked at hx
  split at hx
  next c hc =>
    split at hx
    next hdry =>
      cases hx
      exact .skipped (.inr hdry)
    next hdry =>
      rw [Bool.not_eq_true] at hdry
      obtain ⟨o, z, -, hx⟩ := does_bind_eq_iff.1 hx
      cases o with
      | ok e =>
        cases hx
        exact .ended hc hdry e
      | error f =>
        cases hx
        exact .failed hc hdry f
  next hc =>
    cases hx
    exact .skipped (.inl hc)

/-- The end of a run adds to the report the directory of the copies, what comes of the check, and
an error if the report could not be written. -/
theorem conclude_eq {dir? : Option String} {r r' : Report} {u : Option Failure}
    (hx : x.does (conclude q dir? r) = ((r', u), x')) :
    ∃ r₁, Verified q { r with backupDir := dir? } r₁ ∧
      (r' = u.elim r₁ fun f => r₁.addError (Path.join (dir?.getD "") reportName) f.oneLine) ∧
      (dir? = none → u = none) := by
  obtain ⟨r₁, y, hchecked, hreport⟩ := does_bind_eq_iff.1 hx
  exact ⟨r₁, verified hchecked, handIn_eq hreport⟩

/-- The report names the directory of the run. -/
theorem backupDir_of_conclude {dir? : Option String} {r r' : Report} {u : Option Failure}
    (hx : x.does (conclude q dir? r) = ((r', u), x')) : r'.backupDir = dir? := by
  obtain ⟨r₁, hverified, rfl, -⟩ := conclude_eq hx
  cases u <;> cases hverified <;> rfl

/-- The trees that are passed up to the check are those that were passed before the end, or they
come about when the report is written. -/
theorem conclude_passed {r : Report} {o : Report × Option Failure} (h : Stage S x taken k b)
    (hx : x.does (conclude q b.dir r) = (o, x')) :
    ∀ t ∈ S.start.passed x', Backup.Between S b t := by
  obtain ⟨r₁, y, hchecked, hreport⟩ := does_bind_eq_iff.1 hx
  rcases checked_changes hchecked with rfl | ⟨command, cs, hcs⟩
  · obtain ⟨r', u⟩ := o
    exact (handIn_stage h hreport).1.along.passed
  · obtain ⟨cs', hcs'⟩ := changes_handIn hreport
    have hall : x'.changes = x.changes ++ .launch command :: (cs ++ cs') := by
      rw [hcs', hcs, List.append_assoc, List.cons_append]
    exact h.along.passed_launch hall

/-! ### The whole run -/

/-- What the walk of a run gives. -/
def walkOf (s : Machine) (home : String) (q : Request) : Except Failure Walk.Walked :=
  (s.does (Walk.collect home q.targets q.extensions q.excluded
    (s.realPath? q.backupRoot).toList)).1

/-- All files of the walk of a run have paths without links. -/
def Named (s : Machine) (home : String) (q : Request) : Prop :=
  ∀ walked, walkOf s home q = .ok walked → ∀ f ∈ walked.files, s.realPath? f.path ≠ none

/-- A run is refused, or its walk fails, or its files are processed one after the other and what
follows is carried out. -/
theorem does_course (s : Machine) (home : String) (q : Request) (started : Instant) :
    s.does (course home q started) =
      match q.refusal?, walkOf s home q with
      | some cause, _ => (.error cause, s)
      | none, .error f => (.error f, s)
      | none, .ok walked =>
        let ((fates, b), x) := s.does (processAll q walked.files (.start q.backupRoot started))
        let ((report, unreported), s') := x.does (conclude q b.dir (draft q started walked fates))
        (.ok { walked, fates, report, unreported }, s') := by
  unfold course walkOf
  cases q.refusal? with
  | some cause => rfl
  | none =>
    dsimp only
    rw [does_bind, does_realPath?]
    dsimp only
    rw [does_bind, Walk.reads_collect]
    cases (s.does (Walk.collect home q.targets q.extensions q.excluded
      (s.realPath? q.backupRoot).toList)).1 with
    | error f => rfl
    | ok walked => rfl

/-- The steps of a run that is not refused and whose walk does not fail. -/
theorem course_eq_ok {home : String} {started : Instant} {c : Course}
    (hx : s.does (course home q started) = (.ok c, s')) :
    q.refusal? = none ∧ walkOf s home q = .ok c.walked ∧
      ∃ b x, s.does (processAll q c.walked.files (.start q.backupRoot started)) =
          ((c.fates, b), x) ∧
        x.does (conclude q b.dir (draft q started c.walked c.fates)) =
          ((c.report, c.unreported), s') := by
  rw [does_course] at hx
  split at hx
  · cases hx
  · cases hx
  next walked hrefusal hwalk =>
    cases hx
    exact ⟨hrefusal, hwalk, _, _, rfl, rfl⟩

/-- A run that fails has changed nothing. -/
theorem course_eq_error {home : String} {started : Instant} {f : Failure}
    (hx : s.does (course home q started) = (.error f, s')) : s' = s := by
  rw [does_course] at hx
  split at hx
  all_goals
    cases hx
    try rfl

/-- The report of a run is that of its course. -/
theorem does_run (s : Machine) (home : String) (q : Request) (started : Instant) :
    s.does (run home q started) =
      ((s.does (course home q started)).1.map Course.report,
        (s.does (course home q started)).2) :=
  rfl

/-- What is known of a run that writes, when its files are done. -/
structure Written (s : Machine) (home : String) (q : Request) (started : Instant) (c : Course)
    (S : Setting) (x : Machine) (taken : List Saved) (k : Nat) (b : Backup.Session) : Prop where
  start : S.start = s
  root : S.root = q.backupRoot
  met : ∀ e ∈ S.places, Walk.Met s home q.targets (s.realPath? q.backupRoot).toList
    (Walk.labelsOf (Walk.rootsOf s home q.targets)) e.1 e.2
  files : c.walked.files = S.places.map Prod.snd
  stage : Stage S x taken k b
  treated : AllTreated q s x S.places c.fates
  frame : ∀ p n, s.tree.get? p = some n → (∀ e ∈ S.places, e.1 ≠ p) → x.tree.get? p = some n
  listed : (∀ e ∈ c.fates, e.2.problem? = none) → b.dir = none ∨ 0 < k

/-- A run that writes treats all files of its walk by their content from before the run. -/
theorem exists_written {home : String} {started : Instant} {c : Course} (hs : s.Ordered)
    (hnamed : Named s home q) (hdirect : s.Direct q.backupRoot) (hq : q.dryRun = false)
    (hx : s.does (course home q started) = (.ok c, s')) :
    ∃ S x taken k b, Written s home q started c S x taken k b ∧
      x.does (conclude q b.dir (draft q started c.walked c.fates)) =
        ((c.report, c.unreported), s') := by
  obtain ⟨-, hwalk, b, x, hprocess, hconclude⟩ := course_eq_ok hx
  obtain ⟨S, rfl, hroot, hplaces, hmet, hstage⟩ :=
    Backup.exists_setting started hs hdirect hwalk
  have hfiles : c.walked.files = S.places.map Prod.snd := by
    rw [hplaces, eq_comm, List.filter_eq_self]
    exact fun f hf => Option.isSome_iff_ne_none.2 (hnamed _ hwalk f hf)
  rw [hfiles] at hprocess
  obtain ⟨taken, k, hstage', htreated, hframe, hk⟩ :=
    treatAll hstage hq (fun _ h => h) S.nodup (fun _ _ => rfl) hprocess
  refine ⟨S, x, taken, k, b, ⟨rfl, hroot, hmet, hfiles, hstage', htreated, fun p n hp hne => ?_,
    fun hall => ?_⟩, hconclude⟩
  · rw [hframe p n hp hne]
    exact hp
  · rcases hk hall with ⟨rfl, -⟩ | hpos
    · exact .inl rfl
    · exact .inr hpos

/-! ### Two systems -/

/-- A system with one file to rename in. -/
def sample : Machine where
  tree := ⟨[(["src"], .directory), (["src", "a.ts"], .file "let userId;\n".toUTF8)]⟩
  here := []
  programs := .none

/-- A request to rename in the files of that system. -/
def sampleRequest (root : String) : Request where
  rules := { rules := [⟨"userId", "user_id", .identifier⟩] }
  targets := ["src"]
  backupRoot := root

/-- The morning of 6 May 2026. -/
def sampleStart : Instant := ⟨1778051289, 0⟩

theorem ordered_sample : sample.Ordered := by
  decide +kernel

/-- A system with two files to rename in, and a link to one of them where a run at that time writes
the draft of its manifest. -/
def detour : Machine where
  tree := ⟨[(["src"], .directory), (["src", "a.ts"], .file "let userId;\n".toUTF8),
    (["src", "b.ts"], .file "return userId;\n".toUTF8), (["backups"], .directory),
    (["backups", "20260506T070809Z"], .directory),
    (["backups", "20260506T070809Z", "manifest.json.tmp"], .link "../../src/b.ts")]⟩
  here := []
  programs := .none

/-- A path to the backups that leads through a directory that is missing. -/
def detourRoot : String := "missing/../backups"

theorem ordered_detour : detour.Ordered := by
  decide +kernel

theorem named_of_all {home : String} (h : ((walkOf s home q).toOption.all fun walked =>
    walked.files.all fun f => (s.realPath? f.path).isSome) = true) : Named s home q := by
  intro walked hwalk f hf
  rw [hwalk] at h
  exact Option.isSome_iff_ne_none.1 (List.all_eq_true.1 h f hf)

theorem named_sample : Named sample "" (sampleRequest "backups") :=
  named_of_all (by decide +kernel)

theorem named_detour : Named detour "" (sampleRequest detourRoot) :=
  named_of_all (by decide +kernel)

/-- A run that ends well has a course, and what is checked of it is true. -/
theorem exists_of_check {ε : Type} (r : Except ε Course × Machine) (P : Course → Machine → Prop)
    [∀ c s', Decidable (P c s')] (h : (r.1.toOption.any fun c => decide (P c r.2)) = true) :
    ∃ c s', r = (.ok c, s') ∧ P c s' := by
  obtain ⟨r, s'⟩ := r
  cases r with
  | error e => cases h
  | ok c => exact ⟨c, s', rfl, of_decide_eq_true h⟩

/-- What a run that writes does on the first of the systems. -/
theorem sample_run : ∃ c s', sample.does (course "" (sampleRequest "backups") sampleStart) =
    (.ok c, s') ∧ c.report.errors = [] ∧ c.report.files.map FileRecord.path = ["src/a.ts"] ∧
      c.report.backupDir = some "backups/20260506T070809Z" ∧
      (∀ e ∈ c.fates, e.2.spoiled = false) ∧ c.unreported.isNone ∧ s'.mishaps.isEmpty :=
  exists_of_check (sample.does (course "" (sampleRequest "backups") sampleStart)) _
    (by decide +kernel)

/-- What a run that writes does on the second one. It overwrites a file that its report says it has
left as it was, takes no copy of it and so cannot bring it back. -/
theorem detour_run : ∃ c s', detour.does (course "" (sampleRequest detourRoot) sampleStart) =
    (.ok c, s') ∧ c.report.errors = [] ∧
      c.walked.files = [⟨"src/a.ts", "src/a.ts"⟩, ⟨"src/b.ts", "src/b.ts"⟩] ∧
      c.fates.map (fun e => (e.1, e.2.wrote)) =
        [(⟨"src/a.ts", "src/a.ts"⟩, true), (⟨"src/b.ts", "src/b.ts"⟩, false)] ∧
      c.report.files.map FileRecord.path = ["src/a.ts"] ∧
      c.report.backupDir = some "missing/../backups/20260506T070809Z" ∧
      (∀ e ∈ c.fates, e.2.spoiled = false) ∧ c.unreported.isNone ∧ s'.mishaps.isEmpty ∧
      s'.tree.get? ["src", "b.ts"] ≠ detour.tree.get? ["src", "b.ts"] ∧
      (∃ t ∈ detour.passed s', t.get? ["src", "b.ts"] ≠ detour.tree.get? ["src", "b.ts"] ∧
        ({ detour with tree := t }.find
          (Path.join "missing/../backups/20260506T070809Z" "src/b.ts")).isOk = false) ∧
      (s'.does (Backup.restore "missing/../backups/20260506T070809Z" false)).2.tree.get?
        ["src", "b.ts"] ≠ detour.tree.get? ["src", "b.ts"] :=
  exists_of_check (detour.does (course "" (sampleRequest detourRoot) sampleStart)) _
    (by decide +kernel)

end Run

end Renaming
