import Renaming.Proofs.Rename.Splice
import Renaming.Proofs.Report.Tally
import Renaming.Proofs.Run.Preview

/-!
The account that a report gives. A record counts the places that were renamed in its file
(`FileRecord.Counts`), every file of the walk stands in the report once or not at all (`Booked`),
and what is added file by file keeps the totals of the report the sums over its records
(`Balanced`). The main statement is `accounted`. Besides, all that goes wrong once files are being
written stands in the report (`recorded`).
-/

namespace Renaming

open Machine
open Walk (SourceFile)

/-! ### Records -/

theorem Tally.total_zip {labels : List String} {hits : List Nat} (h : hits.length = labels.length) :
    total (labels.zip hits) = hits.sum := by
  induction labels generalizing hits with
  | nil => simp [List.length_eq_zero_iff.1 h, total]
  | cons label labels ih =>
    cases hits with
    | nil => cases h
    | cons n hits => simp [total, ih (Nat.succ.inj h)]

/-- A record counts what the renaming of a source did, in all and by the names of the rules. -/
structure FileRecord.Counts (set : RuleSet) (source : String) (r : FileRecord) : Prop where
  replacements : r.replacements = (rename set.rules set.guarded source).occurrences
  pos : 0 < r.replacements
  total : r.hits.total = r.replacements
  inOrder : r.hits.InOrder
  keys : ∀ name ∈ r.hits.keys, name ∈ set.labels
  count : ∀ name, r.hits.count name =
    Tally.count name (set.labels.zip (rename set.rules set.guarded source).hits)

namespace Run

variable {s s' x x' : Machine} {q : Request} {home : String} {started : Instant} {c : Course}
  {f : SourceFile} {fate : Fate} {b b' : Backup.Session} {r : Report} {record : FileRecord}
  {labels : List String}

theorem counts_of_changed {source : String} (path sha256 : String) (backup : Option String)
    (h : (rename q.rules.rules q.rules.guarded source).changed = true) :
    FileRecord.Counts q.rules source
      { path, sha256, replacements := (rename q.rules.rules q.rules.guarded source).occurrences
        hits := hitsOf q.rules.labels (rename q.rules.rules q.rules.guarded source).hits
        backup } := by
  have hrewrites := rewrites_editsOf q.rules.rules q.rules.guarded source
  have hlength : (rename q.rules.rules q.rules.guarded source).hits.length =
      q.rules.labels.length := by
    rw [hrewrites.length_hits, RuleSet.labels, List.length_map]
  refine ⟨rfl, by simpa [Outcome.changed] using h, ?_, Tally.inOrder_ofList _, fun name hname => ?_,
    fun name => ?_⟩
  · dsimp only
    rw [hitsOf, Tally.total_ofList, Tally.total_filter_pos, Tally.total_zip hlength,
      hrewrites.sum_hits]
  · obtain ⟨e, he, rfl⟩ := List.mem_map.1 (Tally.mem_keys_ofList.1 hname)
    exact (List.of_mem_zip (List.mem_filter.1 he).1).1
  · dsimp only
    rw [hitsOf, Tally.count_ofList, Tally.count_filter_pos]

/-! ### Files -/

/-- The text in the content of a file, if it could be read and is one. -/
def sourceOf? (content : Except SystemError ByteArray) : Option String :=
  content.toOption.bind String.fromUTF8?

/-- What a report has of a file with some content: a record, an error, or nothing, because in its
text there was nothing to rename. -/
inductive Booked (q : Request) (f : SourceFile) (content : Except SystemError ByteArray)
    (fate : Fate) : Prop
  | record {r : FileRecord} {source : String} (isRecord : fate.record? = some r)
    (noError : fate.problem? = none) (path : r.path = f.path)
    (text : sourceOf? content = some source) (counts : r.Counts q.rules source)
  | error {message : String} (noRecord : fate.record? = none)
    (isError : fate.problem? = some message)
  | unchanged {source : String} (noRecord : fate.record? = none) (noError : fate.problem? = none)
    (text : sourceOf? content = some source)
    (nothing : (rename q.rules.rules q.rules.guarded source).occurrences = 0)

theorem booked_foretold (q : Request) (f : SourceFile) (content : Except SystemError ByteArray) :
    Booked q f content (foretold q f.path content) := by
  cases content with
  | error e => exact .error rfl rfl
  | ok bytes =>
    rw [foretold]
    cases hsource : String.fromUTF8? bytes with
    | none => exact .error rfl rfl
    | some source =>
      dsimp only
      split
      next h => exact .record rfl rfl rfl hsource (counts_of_changed _ _ _ h)
      next h => exact .unchanged rfl rfl hsource (by simpa [Outcome.changed] using h)

/-- A record is as good with a copy as without one. -/
theorem Booked.with_backup {content : Except SystemError ByteArray} {skipped : List Skip}
    (h : Booked q f content (.renamed skipped record)) (copy : String) :
    Booked q f content (.renamed skipped { record with backup := some copy }) := by
  cases h with
  | record isRecord noError path text counts =>
    cases isRecord
    obtain ⟨h₁, h₂, h₃, h₄, h₅, h₆⟩ := counts
    exact .record rfl rfl path text ⟨h₁, h₂, h₃, h₄, h₅, h₆⟩
  | error noRecord => cases noRecord
  | unchanged noRecord => cases noRecord

theorem booked_of_processFile (hx : x.does (processFile q f b) = ((fate, b'), x')) :
    Booked q f (x.read f.path) fate := by
  cases hq : q.dryRun with
  | true =>
    rw [does_processFile_of_dryRun hq] at hx
    cases hx
    exact booked_foretold q f _
  | false =>
    cases processed hq hx with
    | asForetold => exact booked_foretold q f _
    | unsaved => exact .error rfl rfl
    | @saved _ _ copy _ _ _ _ _ _ _ _ _ h _ _ hfate =>
      rcases hfate with ⟨problem, rfl⟩ | ⟨-, rfl⟩
      · exact .error rfl rfl
      · exact (h ▸ booked_foretold q f _).with_backup copy

theorem booked_of_processAll {fs : List SourceFile} {fates : List (SourceFile × Fate)}
    (hx : x.does (processAll q fs b) = ((fates, b'), x')) :
    fates.map Prod.fst = fs ∧ ∀ e ∈ fates, ∃ content, Booked q e.1 content e.2 := by
  induction fs generalizing x b fates with
  | nil =>
    cases hx
    exact ⟨rfl, nofun⟩
  | cons f fs ih =>
    obtain ⟨⟨fate, b₁⟩, y, hfirst, hx⟩ := does_bind_eq_iff.1 hx
    obtain ⟨⟨rest, b₂⟩, z, hrest, hx⟩ := does_bind_eq_iff.1 hx
    cases hx
    obtain ⟨hfiles, hall⟩ := ih hrest
    exact ⟨by rw [List.map_cons, hfiles],
      List.forall_mem_cons.2 ⟨⟨_, booked_of_processFile hfirst⟩, hall⟩⟩

theorem Treated.booked {bytes left : ByteArray} (h : Treated q s f bytes fate left) :
    Booked q f (s.read f.path) fate := by
  cases h with
  | asForetold => exact booked_foretold q f _
  | unsaved | unwritten => exact .error rfl rfl
  | renamed h copy => exact (h ▸ booked_foretold q f _).with_backup copy

/-- In a dry run, and in one whose files have paths without links and whose path to the backups is
direct, the files are booked with their content from before the run. -/
theorem booked_of_course
    (hcontent : q.dryRun = true ∨ s.Ordered ∧ Named s home q ∧ s.Direct q.backupRoot)
    (hx : s.does (course home q started) = (.ok c, s')) :
    ∀ e ∈ c.fates, Booked q e.1 (s.read e.1.path) e.2 := by
  cases hdry : q.dryRun with
  | true =>
    obtain ⟨-, -, b, x, hprocess, -⟩ := course_eq_ok hx
    rw [does_processAll_of_dryRun hdry] at hprocess
    obtain ⟨hfates, -⟩ := Prod.mk.inj (Prod.mk.inj hprocess).1
    intro e he
    rw [← hfates] at he
    obtain ⟨f, -, rfl⟩ := List.mem_map.1 he
    exact booked_foretold q f _
  | false =>
    obtain ⟨hs, hnamed, hdirect⟩ := hcontent.resolve_left (by simp [hdry])
    obtain ⟨S, x, taken, k, b, hw, -⟩ := exists_written hs hnamed hdirect hdry hx
    intro e he
    obtain ⟨_, _, _, -, -, -, htreated⟩ := hw.treated.of_mem_fates he
    exact htreated.booked

/-! ### The report -/

/-- The totals of a report are the sums over its records, and it has a number for each rule. -/
structure Balanced (labels : List String) (r : Report) : Prop where
  modified : r.modified = r.files.length
  replacements : r.replacements = (r.files.map FileRecord.replacements).sum
  total : r.hits.total = r.replacements
  inOrder : r.hits.InOrder
  keys : ∀ name, name ∈ r.hits.keys ↔ name ∈ labels
  count : ∀ name, r.hits.count name = (r.files.map fun f => f.hits.count name).sum

theorem balanced_start (timestamp : String) (dryRun : Bool) (labels : List String) :
    Balanced labels (.start timestamp dryRun labels) := by
  have htotal : ∀ labels : List String, Tally.total (labels.map (·, 0)) = 0 := by
    intro labels
    induction labels with
    | nil => rfl
    | cons label labels ih => rw [List.map_cons, Tally.total, ih]
  have hcount : ∀ (labels : List String) name, Tally.count name (labels.map (·, 0)) = 0 := by
    intro labels name
    induction labels with
    | nil => rfl
    | cons label labels ih => rw [List.map_cons, Tally.count, ih, ite_self]
  refine ⟨rfl, rfl, ?_, Tally.inOrder_ofList _, fun name => ?_, fun name => ?_⟩
  · exact (Tally.total_ofList _).trans (htotal labels)
  · rw [Report.start, Tally.mem_keys_ofList]
    simp [Tally.keys]
  · exact (Tally.count_ofList _ name).trans (hcount labels name)

/-- What else stands in a report does not matter. -/
theorem Balanced.amend (h : Balanced labels r) (scanned : Nat) (skipped : List SkippedPlace)
    (errors : List FileError) (conflicts : List Conflict) (backupDir : Option String)
    (verification : Option Verification) : Balanced labels
      { r with scanned, skipped, errors, conflicts, backupDir, verification } :=
  ⟨h.modified, h.replacements, h.total, h.inOrder, h.keys, h.count⟩

theorem Balanced.addFile {source : String} (h : Balanced q.rules.labels r)
    (hrecord : record.Counts q.rules source) : Balanced q.rules.labels (r.addFile record) := by
  have hhits : (r.addFile record).hits = r.hits.addAll record.hits := rfl
  refine ⟨?_, ?_, ?_, ?_, fun name => ?_, fun name => ?_⟩
  · simp [Report.addFile, h.modified]
  · simp [Report.addFile, h.replacements]
  · rw [hhits, Tally.total_addAll, h.total, hrecord.total]
    rfl
  · exact h.inOrder.addAll
  · rw [hhits, Tally.mem_keys_addAll, h.keys]
    exact or_iff_left_of_imp (hrecord.keys name)
  · rw [hhits, Tally.count_addAll, h.count]
    simp [Report.addFile]

/-- Every file that is added keeps the report balanced. -/
theorem Balanced.addFate {content : Except SystemError ByteArray}
    (h : Balanced q.rules.labels r) (hfate : Booked q f content fate) :
    Balanced q.rules.labels (r.addFate f.path fate) := by
  unfold Report.addFate
  cases hfate with
  | record isRecord noError _ _ counts =>
    rw [isRecord, noError]
    exact (h.amend _ _ _ _ _ _).addFile counts
  | error noRecord isError =>
    rw [isError]
    exact h.amend _ _ _ _ _ _
  | unchanged noRecord noError =>
    rw [noRecord, noError]
    exact h.amend _ _ _ _ _ _

theorem balanced_foldl_addFate {fates : List (SourceFile × Fate)}
    (hfates : ∀ e ∈ fates, ∃ content, Booked q e.1 content e.2) (h : Balanced q.rules.labels r) :
    Balanced q.rules.labels (fates.foldl (fun r (f, x) => r.addFate f.path x) r) := by
  induction fates generalizing r with
  | nil => exact h
  | cons e fates ih =>
    obtain ⟨⟨content, hfirst⟩, hrest⟩ := List.forall_mem_cons.1 hfates
    exact ih hrest (h.addFate hfirst)

theorem scanned_foldl_addFate (fates : List (SourceFile × Fate)) (r : Report) :
    (fates.foldl (fun r (f, x) => r.addFate f.path x) r).scanned = r.scanned + fates.length := by
  induction fates generalizing r with
  | nil => rfl
  | cons e fates ih =>
    have hone : (r.addFate e.1.path e.2).scanned = r.scanned + 1 := by
      unfold Report.addFate
      split <;> rfl
    rw [List.foldl_cons, ih, hone, List.length_cons]
    omega

theorem balanced_draft {walked : Walk.Walked} {fates : List (SourceFile × Fate)}
    (hfates : ∀ e ∈ fates, ∃ content, Booked q e.1 content e.2) :
    Balanced q.rules.labels (draft q started walked fates) := by
  rw [draft, foldl_addError]
  refine balanced_foldl_addFate hfates ?_
  exact (balanced_start started.toSeconds q.dryRun q.rules.labels).amend _ _ _ _ _ _

theorem scanned_draft (q : Request) (started : Instant) (walked : Walk.Walked)
    (fates : List (SourceFile × Fate)) :
    (draft q started walked fates).scanned = fates.length := by
  rw [draft, scanned_foldl_addFate, foldl_addError]
  exact Nat.zero_add _

/-- The errors that the end of a run adds to the report are those of the check and of the report
itself. -/
theorem conclude_amends {dir? : Option String} {r' : Report} {u : Option Failure}
    (hx : x.does (conclude q dir? r) = ((r', u), x')) : ∃ verification rest,
      r' = { r with backupDir := dir?, verification, errors := r.errors ++ rest } ∧
      ∀ e ∈ rest, (∃ k, q.check = some k ∧ e.file = k.shown) ∨
        ∃ dir, dir? = some dir ∧ e.file = Path.join dir reportName := by
  obtain ⟨r₁, hverified, rfl, hdir⟩ := conclude_eq hx
  obtain ⟨verification, early, rfl, hearly⟩ : ∃ verification early,
      r₁ = { r with backupDir := dir?, verification, errors := r.errors ++ early } ∧
        ∀ e ∈ early, ∃ k, q.check = some k ∧ e.file = k.shown := by
    cases hverified with
    | skipped => exact ⟨r.verification, [], by simp, nofun⟩
    | @ended k h hdry e => exact ⟨some ⟨k.shown, e⟩, [], by simp, nofun⟩
    | @failed k h hdry f =>
      refine ⟨r.verification, [⟨k.shown, f.oneLine⟩], rfl, fun e he => ⟨k, h, ?_⟩⟩
      rw [List.mem_singleton.1 he]
  cases u with
  | none => exact ⟨verification, early, rfl, fun e he => .inl (hearly e he)⟩
  | some f =>
    obtain ⟨dir, rfl⟩ := Option.ne_none_iff_exists'.1 fun hnone => nomatch hdir hnone
    refine ⟨verification, early ++ [⟨Path.join dir reportName, f.oneLine⟩], ?_, fun e he => ?_⟩
    · simp [Report.addError]
    · rcases List.mem_append.1 he with he | he
      · exact .inl (hearly e he)
      · rw [List.mem_singleton.1 he]
        exact .inr ⟨dir, rfl, rfl⟩

/-- The account of a run. -/
structure Accounted (s : Machine) (home : String) (q : Request) (c : Course) : Prop where
  /-- The files are those of the walk. -/
  walked : walkOf s home q = .ok c.walked
  scanned : c.report.scanned = c.walked.files.length
  /-- The totals are the sums over the records, for each name of a rule too. -/
  balanced : Balanced q.rules.labels c.report
  /-- What stands beside a name is the sum over the records. -/
  hits : ∀ name n, (name, n) ∈ c.report.hits →
    n = (c.report.files.map fun f => f.hits.count name).sum
  /-- The numbers of each record add up to its replacements. -/
  records : ∀ f ∈ c.report.files, ∃ source, f.Counts q.rules source
  /-- Every file of the walk has one fate. -/
  fates : c.fates.map Prod.fst = c.walked.files
  /-- Every file is booked once or not at all, and with its content from before the run if this is a
  dry run, or if all files have paths without links and the path to the backups is direct. -/
  booked : ∀ e ∈ c.fates, ∃ content, Booked q e.1 content e.2 ∧
    (q.dryRun = true ∨ s.Ordered ∧ Named s home q ∧ s.Direct q.backupRoot →
      content = s.read e.1.path)
  /-- The records are those of the fates, in their order. -/
  files : c.report.files = c.fates.filterMap fun e => e.2.record?
  /-- The errors are those of the walk, those of the fates, and those of what followed. -/
  errors : ∃ rest, c.report.errors = (c.walked.unlisted.map fun u => ⟨u.path, u.message⟩) ++
      (c.fates.flatMap fun e => e.2.problem?.toList.map fun m => ⟨e.1.path, m⟩) ++ rest ∧
    ∀ e ∈ rest, (∃ k, q.check = some k ∧ e.file = k.shown) ∨
      ∃ dir, c.report.backupDir = some dir ∧ e.file = Path.join dir reportName

/-- **The report of a run accounts for every file**: its totals are the sums over its records, the
numbers of a record add up to its replacements, and each file of the walk has one record, one error
or, if there is nothing to rename in it, neither. -/
theorem accounted (hx : s.does (course home q started) = (.ok c, s')) :
    Accounted s home q c := by
  obtain ⟨-, hwalk, b, x, hprocess, hconclude⟩ := course_eq_ok hx
  obtain ⟨hfates, hbooked⟩ := booked_of_processAll hprocess
  obtain ⟨verification, rest, hreport, hrest⟩ := conclude_amends hconclude
  have hbalanced : Balanced q.rules.labels c.report := by
    rw [hreport]
    exact (balanced_draft hbooked).amend _ _ _ _ _ _
  have hfiles : c.report.files = c.fates.filterMap fun e => e.2.record? := by
    rw [hreport]
    exact files_draft q started c.walked c.fates
  refine ⟨hwalk, ?_, hbalanced, fun name n hmem => ?_, fun r hr => ?_, hfates, fun e he => ?_,
    hfiles, rest, ?_, ?_⟩
  · rw [← hfates, List.length_map, ← scanned_draft q started c.walked, hreport]
  · rw [← hbalanced.count, hbalanced.inOrder.count_eq hmem]
  · rw [hfiles] at hr
    obtain ⟨e, he, hr⟩ := List.mem_filterMap.1 hr
    obtain ⟨content, hbook⟩ := hbooked e he
    cases hbook with
    | record isRecord _ _ _ counts =>
      cases isRecord.symm.trans hr
      exact ⟨_, counts⟩
    | error noRecord | unchanged noRecord => cases noRecord.symm.trans hr
  · by_cases hcontent : q.dryRun = true ∨ s.Ordered ∧ Named s home q ∧ s.Direct q.backupRoot
    · exact ⟨_, booked_of_course hcontent hx e he, fun _ => rfl⟩
    · obtain ⟨content, hbook⟩ := hbooked e he
      exact ⟨content, hbook, fun h => absurd h hcontent⟩
  · rw [hreport, ← errors_draft q started]
  · rw [hreport]
    exact hrest

/-- A forced run that has a rule twice. -/
def twiceRequest : Request :=
  { sampleRequest "backups" with
    rules := { rules := [⟨"userId", "user_id", .identifier⟩, ⟨"userId", "user_id", .identifier⟩] }
    force := true }

/-- On the first of the two systems its report has one number for both. -/
theorem accounted_twice : ∃ c s', sample.does (course "" twiceRequest sampleStart) = (.ok c, s') ∧
    c.report.hits = [("userId->user_id", 1)] ∧ Accounted sample "" twiceRequest c := by
  obtain ⟨c, s', hc, hhits⟩ := exists_of_check
    (sample.does (course "" twiceRequest sampleStart))
    (fun c _ => c.report.hits = [("userId->user_id", 1)]) (by decide +kernel)
  exact ⟨c, s', hc, hhits, accounted hc⟩

/-! ### What goes wrong -/

/-- All that goes wrong once files are being written stands in the report: a file that could not be
read, copied or written, a check that could not be started, and the report itself, if it could not
be written beside the copies. -/
structure Recorded (q : Request) (c : Course) : Prop where
  fates : ∀ e ∈ c.fates, ∀ message, e.2.problem? = some message →
    ⟨e.1.path, message⟩ ∈ c.report.errors
  check : ∀ k, q.check = some k → q.dryRun = false → c.report.verification = none →
    ∃ message, ⟨k.shown, message⟩ ∈ c.report.errors
  report : ∀ f, c.unreported = some f → ∃ dir, c.report.backupDir = some dir ∧
    ⟨Path.join dir reportName, f.oneLine⟩ ∈ c.report.errors

theorem recorded (hx : s.does (course home q started) = (.ok c, s')) : Recorded q c := by
  obtain ⟨-, -, b, x, -, hconclude⟩ := course_eq_ok hx
  have hbackup := backupDir_of_conclude hconclude
  obtain ⟨r, hverified, hreport, hdir⟩ := conclude_eq hconclude
  have hmore : ∀ e ∈ r.errors, e ∈ c.report.errors := by
    intro e he
    rw [hreport]
    cases c.unreported with
    | none => exact he
    | some f => exact List.mem_append_left _ he
  have hverification : c.report.verification = r.verification := by
    rw [hreport]
    cases c.unreported <;> rfl
  refine ⟨fun e he message hm => hmore _ ?_, fun k hk hdry hnone => ?_, fun f hf => ?_⟩
  · have hmem : ⟨e.1.path, message⟩ ∈ (draft q started c.walked c.fates).errors := by
      rw [errors_draft]
      exact List.mem_append_right _ (List.mem_flatMap.2 ⟨e, he, by simp [hm]⟩)
    cases hverified with
    | skipped | ended => exact hmem
    | failed => exact List.mem_append_left _ hmem
  · rw [hverification] at hnone
    cases hverified with
    | skipped h =>
      rcases h with h | h
      · cases h.symm.trans hk
      · cases h.symm.trans hdry
    | ended => cases hnone
    | failed h _ f =>
      cases h.symm.trans hk
      exact ⟨_, hmore _ (List.mem_append_right _ List.mem_cons_self)⟩
  · obtain ⟨dir, hsome⟩ := Option.ne_none_iff_exists'.1 fun hnone => by
      rw [hdir hnone] at hf
      cases hf
    refine ⟨dir, hbackup.trans hsome, ?_⟩
    rw [hreport, hf, hsome]
    exact List.mem_append_right _ List.mem_cons_self

end Run

end Renaming
