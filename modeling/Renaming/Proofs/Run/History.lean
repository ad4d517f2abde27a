import Renaming.Proofs.Run.Undo
import Renaming.Proofs.Run.Idle

/-!
Backups in the course of time. `Later` is any number of runs, of any kind, that keep their backups
in one directory and rename nothing in it. Each of them leaves everything in this directory as it is
(`kept_of_run`), so the copies and the manifest of a run stay as they are through all later runs
(`backups_kept`).
-/

namespace Renaming

open Machine
open Backup (Setting Saved Stage Kept)

namespace Run

variable {s x y z : Machine} {home dir : String} {q : Request} {started : Instant} {c : Course}
  {S : Setting} {taken : List Saved} {k : Nat} {b : Backup.Session} {p r d : Place} {n n' : Node}

/-- A check leaves alone what is below the directory to which a path leads, in every system that
comes about from another one without a directory or a link being taken away. It takes away none
either. -/
def Spares (s : Machine) (root : String) (k : Check) : Prop :=
  ∀ (y z : Machine) (o : Except SystemError Ending) (r : Place), y.Ordered →
    y.toScene = s.toScene → s.tree.Holds y.tree → y.Leads root r → y.launch k = (o, z) →
      z.Ordered ∧ y.tree.Holds z.tree ∧ ∀ p, r <+: p → z.tree.get? p = y.tree.get? p

/-- Runs that keep their backups in one directory, by whatever path, and do not rename in it. They
may be dry runs, and they may fail. -/
inductive Later (r : Place) (x : Machine) : Machine → Prop
  | refl : Later r x x
  | next {y z : Machine} {home : String} {q : Request} {started : Instant}
    {result : Except Failure Course} (before : Later r x y)
    (hnamed : q.dryRun = false → Named y home q) (hroot : y.Leads q.backupRoot r)
    (hclear : Clear y home q) (hcheck : ∀ k, q.check = some k → Spares y q.backupRoot k)
    (hrun : y.does (course home q started) = (result, z)) : Later r x z

/-! ### One run -/

/-- Up to its check a run leaves everything among the backups as it is. -/
theorem Written.backups (h : Written s home q started c S x taken k b) (hs : s.Ordered)
    (hr : s.Leads q.backupRoot r) (hclear : Clear s home q) (hle : r <+: p)
    (hp : s.tree.get? p = some n) : x.tree.get? p = some n := by
  refine h.frame p n hp fun e he heq => ?_
  have hreal : s.realPath? e.2.path = some (pathOf e.1) := h.start ▸ S.realPath? he
  exact hclear.not_prefix hs hr (by simp [hreal]) (h.met e he) (heq ▸ hle)

theorem checked_of_spares {report report' : Report} (hstage : Stage S x taken k b)
    (hcheck : ∀ k, q.check = some k → Spares S.start q.backupRoot k)
    (hr : x.Leads q.backupRoot r) (hx : x.does (checked q report) = (report', y)) :
    y.Ordered ∧ y.toScene = x.toScene ∧ x.tree.Holds y.tree ∧
      ∀ p, r <+: p → y.tree.get? p = x.tree.get? p := by
  rcases checked_eq hx with rfl | ⟨k, o, hk, hlaunch⟩
  · exact ⟨hstage.ordered, rfl, .refl _, fun _ _ => rfl⟩
  · obtain ⟨hordered, hholds, hbelow⟩ :=
      hcheck k hk x y o r hstage.ordered hstage.scene hstage.holds hr hlaunch
    exact ⟨hordered, toScene_launch hlaunch, hholds, hbelow⟩

/-- Writing the report beside the copies changes nothing of what was there when the run started,
though the check may have changed other things since. -/
theorem handIn_frame {report : Report} {o : Report × Option Failure} (hstage : Stage S x taken k b)
    (hr : x.Leads S.root r) (hy : y.Ordered) (hscene : y.toScene = x.toScene)
    (hholds : x.tree.Holds y.tree)
    (hbelow : ∀ p, r <+: p → y.tree.get? p = x.tree.get? p)
    (hx : y.does (handIn b.dir report) = (o, z)) : z.Ordered ∧ z.toScene = y.toScene ∧
      y.tree.Holds z.tree ∧ ∀ p n n', S.start.tree.get? p = some n → y.tree.get? p = some n' →
        z.tree.get? p = some n' := by
  cases hstage with
  | before =>
    cases hx
    exact ⟨hy, rfl, .refl _, fun _ _ _ _ h => h⟩
  | @within dir name d _ _ along hname hdir kept =>
    obtain ⟨r', name', hr', rfl⟩ := kept.leads_root along.scene hr.2.1 hname hdir
    cases hr.unique hr'
    have hd := (kept.leads_of along.scene).mono hscene hholds
    have hlink : ∀ p target, r ++ [name'] <+: p → y.tree.get? p ≠ some (.link target) := by
      intro p target hle
      rw [hbelow p ((List.prefix_append _ _).trans hle)]
      exact kept.not_link hle target
    obtain ⟨o₁, z', hreport, hx⟩ := does_bind_eq_iff.1 hx
    have hz : z = z' := by
      cases o₁
      all_goals
        cases hx
        rfl
    have hcreates := creates_of_writeReport hreport
    obtain ⟨hordered, hheld, hframe⟩ := hcreates.frame hy hd hlink (by decide)
    rw [hz]
    refine ⟨hordered, hcreates.scene, hheld, fun p n n' hp hn' => hframe p n' ?_ hn'⟩
    rintro rfl
    exact kept.not_below hp (List.prefix_append _ _)

/-- What follows when all files are done leaves everything among the backups as it is that was there
when the run started. -/
theorem Written.conclude {report : Report} {o : Report × Option Failure}
    (h : Written s home q started c S x taken k b)
    (hcheck : ∀ k, q.check = some k → Spares s q.backupRoot k) (hr : x.Leads q.backupRoot r)
    (hx : x.does (conclude q b.dir report) = (o, z)) : z.Ordered ∧ z.toScene = x.toScene ∧
      x.tree.Holds z.tree ∧ ∀ p n n', r <+: p → s.tree.get? p = some n →
        x.tree.get? p = some n' → z.tree.get? p = some n' := by
  obtain ⟨rfl, hroot, -, -, hstage, -, -, -⟩ := h
  obtain ⟨report', y, hchecked, hreport⟩ := does_bind_eq_iff.1 hx
  obtain ⟨hy, hscene, hholds, hbelow⟩ := checked_of_spares hstage hcheck hr hchecked
  obtain ⟨hz, hscene', hholds', hframe⟩ :=
    handIn_frame hstage (hroot ▸ hr) hy hscene hholds hbelow hreport
  refine ⟨hz, hscene'.trans hscene, hholds.trans hholds', fun p n n' hle hp hn' => ?_⟩
  exact hframe p n n' hp ((hbelow p hle).trans hn')

/-- **A run leaves everything among the backups as it is**, if none of its targets is there. -/
theorem kept_of_run {result : Except Failure Course} (hs : s.Ordered)
    (hnamed : q.dryRun = false → Named s home q) (hr : s.Leads q.backupRoot r)
    (hclear : Clear s home q) (hcheck : ∀ k, q.check = some k → Spares s q.backupRoot k)
    (hrun : s.does (course home q started) = (result, z)) :
    z.Ordered ∧ ∀ p n, r <+: p → s.tree.get? p = some n → z.tree.get? p = some n := by
  cases result with
  | error f =>
    cases course_eq_error hrun
    exact ⟨hs, fun _ _ _ hp => hp⟩
  | ok c =>
    cases hdry : q.dryRun with
    | true =>
      obtain ⟨rfl, -⟩ := dryRun_eq hdry hrun
      exact ⟨hs, fun _ _ _ hp => hp⟩
    | false =>
      have hdirect : s.Direct q.backupRoot := direct_of_find (find_directory_iff.2 hr)
      obtain ⟨S, x, taken, k, b, hw, hconclude⟩ :=
        exists_written hs (hnamed hdry) hdirect hdry hrun
      have hrx : x.Leads q.backupRoot r := by
        have hholds := hw.stage.holds
        have hscene := hw.stage.scene
        rw [hw.start] at hholds hscene
        exact hr.mono hscene hholds
      obtain ⟨hz, -, -, hframe⟩ := hw.conclude hcheck hrx hconclude
      exact ⟨hz, fun p n hle hp => hframe p n n hle hp (hw.backups hs hr hclear hle hp)⟩

/-! ### All later runs -/

theorem Later.kept (hx : x.Ordered) (h : Later r x y) :
    y.Ordered ∧ ∀ p n, r <+: p → x.tree.get? p = some n → y.tree.get? p = some n := by
  induction h with
  | refl => exact ⟨hx, fun _ _ _ hp => hp⟩
  | next _ hnamed hroot hclear hcheck hrun ih =>
    obtain ⟨hy, hbefore⟩ := ih
    obtain ⟨hz, hkept⟩ := kept_of_run hy hnamed hroot hclear hcheck hrun
    exact ⟨hz, fun p n hle hp => hkept p n hle (hbefore p n hle hp)⟩

/-- **The backups of a run stay as they are through all later runs.** The run has made a directory
of its own in the one for the backups, and whatever is in it then, copies and manifest alike, is in
it after any number of runs that keep their backups there and do not rename in it. -/
theorem backups_kept (hs : s.Ordered) (hnamed : Named s home q) (hdirect : s.Direct q.backupRoot)
    (hroot : q.backupRoot ≠ "") (hcheck : ∀ k, q.check = some k → Spares s q.backupRoot k)
    (hrun : s.does (course home q started) = (.ok c, x)) (hdir : c.report.backupDir = some dir) :
    ∃ r d, x.Leads q.backupRoot r ∧ x.Leads dir d ∧ r <+: d ∧ s.tree.get? d = none ∧
      ∀ y, Later r x y → ∀ p n, d <+: p → x.tree.get? p = some n → y.tree.get? p = some n := by
  cases hdry : q.dryRun with
  | true =>
    rw [(dryRun_eq hdry hrun).2] at hdir
    cases hdir
  | false =>
    obtain ⟨S, z, taken, k, b, hw, hconclude⟩ :=
      exists_written hs hnamed hdirect hdry hrun
    have hbackup := backupDir_of_conclude hconclude
    rw [hdir] at hbackup
    have hstage := hw.stage
    cases hstage with
    | before => cases hbackup
    | @within dir' name d _ _ along hname hjoin kept =>
      cases hbackup
      obtain ⟨r, name', hr, rfl⟩ := kept.leads_root along.scene (hw.root ▸ hroot) hname hjoin
      obtain ⟨hx, hscene, hholds, -⟩ := hw.conclude hcheck (hw.root ▸ hr) hconclude
      refine ⟨r, r ++ [name'], hw.root ▸ hr.mono hscene hholds,
        (kept.leads_of along.scene).mono hscene hholds, List.prefix_append _ _,
        hw.start ▸ kept.vacant, fun y hlater p n hle hp => ?_⟩
      exact (hlater.kept hx).2 p n ((List.prefix_append _ _).trans hle) hp

/-! ### A system with backups -/

/-- The first of the two systems after a run that keeps its backups in `b`. -/
def filed : Machine := (sample.does (course "" (sampleRequest "b") sampleStart)).2

/-- A request to rename the name that this run has written. -/
def shortRequest : Request :=
  { sampleRequest "b" with rules := { rules := [⟨"user_id", "uid", .identifier⟩] } }

/-- The place of the copy that this run has taken. -/
def copyPlace : Place := ["b", "20260506T070809Z", "src", "a.ts"]

theorem named_filing : Named sample "" (sampleRequest "b") :=
  named_of_all (by decide +kernel)

theorem filed_run : ∃ c, sample.does (course "" (sampleRequest "b") sampleStart) = (.ok c, filed) ∧
    c.report.backupDir = some "b/20260506T070809Z" ∧
    (filed.find "b/20260506T070809Z").toOption =
      some (["b", "20260506T070809Z"], .directory) ∧
    (filed.find "b").toOption = some (["b"], .directory) ∧
    (filed.find "src").toOption = some (["src"], .directory) ∧
    filed.tree.get? copyPlace = some (.file "let userId;\n".toUTF8) := by
  obtain ⟨c, s', hc, h⟩ := exists_of_check
    (sample.does (course "" (sampleRequest "b") sampleStart))
    (fun c x => c.report.backupDir = some "b/20260506T070809Z" ∧
      (x.find "b/20260506T070809Z").toOption = some (["b", "20260506T070809Z"], .directory) ∧
      (x.find "b").toOption = some (["b"], .directory) ∧
      (x.find "src").toOption = some (["src"], .directory) ∧
      x.tree.get? copyPlace = some (.file "let userId;\n".toUTF8)) (by decide +kernel)
  have hfiled : filed = s' := congrArg Prod.snd hc
  exact ⟨c, hfiled ▸ hc, hfiled ▸ h⟩

theorem spares_of_none {root : String} (h : q.check = none) :
    ∀ k, q.check = some k → Spares s root k := fun _ hk => nomatch h.symm.trans hk

theorem leads_of_toOption (h : (s.find dir).toOption = some (d, .directory)) : s.Leads dir d :=
  find_directory_iff.1 (eq_ok_of_toOption h)

/-- A second run renames in the same file once more and keeps the first copy of it. -/
theorem backups_kept_sample : ∃ y, Later ["b"] filed y ∧
    y.tree.get? ["src", "a.ts"] = some (.file "let uid;\n".toUTF8) ∧
    ∀ p n, ["b", "20260506T070809Z"] <+: p → filed.tree.get? p = some n →
      y.tree.get? p = some n := by
  obtain ⟨c, hc, hdir, hrun, hroot, hsrc, -⟩ := filed_run
  have hdirect : sample.Direct "b" := direct_of_not_mem (by decide +kernel)
  obtain ⟨r, d, hr, hd, -, -, hkept⟩ :=
    backups_kept ordered_sample named_filing hdirect (by decide) (spares_of_none rfl) hc hdir
  cases hr.unique (leads_of_toOption hroot)
  cases hd.unique (leads_of_toOption hrun)
  have hclear : Clear filed "" shortRequest := by
    intro r hr'
    refine ⟨by decide +kernel, fun D target htarget hD hle => ?_⟩
    cases hr'.unique (leads_of_toOption hroot)
    cases List.mem_singleton.1 htarget
    cases hD.unique (leads_of_toOption hsrc)
    exact absurd hle (by decide)
  have hlater : Later ["b"] filed (filed.does (course "" shortRequest ⟨0, 0⟩)).2 :=
    .next (q := shortRequest) .refl (fun _ => named_of_all (by decide +kernel)) hr hclear
      (spares_of_none rfl) (Prod.eta _).symm
  exact ⟨_, hlater, by decide +kernel, hkept _ hlater⟩

/-- **A run that renames in the directory of the backups changes the copies in it.** This directory
is passed over where it is met in another one, but not where it is a target itself. -/
theorem not_kept_target : sample.Ordered ∧ Named sample "" (sampleRequest "b") ∧
    sample.Direct "b" ∧ ∃ c,
    sample.does (course "" (sampleRequest "b") sampleStart) = (.ok c, filed) ∧
    c.report.backupDir = some "b/20260506T070809Z" ∧
    filed.tree.get? copyPlace = some (.file "let userId;\n".toUTF8) ∧
    (filed.does (course "" { sampleRequest "b" with targets := ["b"] } ⟨0, 0⟩)).2.tree.get?
      copyPlace = some (.file "let user_id;\n".toUTF8) := by
  obtain ⟨c, hc, hdir, -, -, -, hcopy⟩ := filed_run
  exact ⟨ordered_sample, named_filing, direct_of_not_mem (by decide +kernel), c, hc, hdir, hcopy,
    by decide +kernel⟩

end Run

end Renaming
