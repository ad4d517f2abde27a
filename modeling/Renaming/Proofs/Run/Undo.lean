import Renaming.Proofs.Backup.Restore
import Renaming.Proofs.Run.Course

/-!
Undoing runs. `Runs` is any number of runs that write, one after the other, with their directories
from the newest to the oldest; bringing the backups back in this order gives every file the content
it had before the first run (`restore_runs`).

A copy is found again by its path in the manifest, in which every backslash has become a slash; so
no file of a run may have a backslash on its way. In a tree without backslashes only the path of the
backups can bring one in, and no walk goes there (`slash_not_mem_copyPath`).
-/

namespace Renaming

open Renaming.Path (names)
open Machine
open Backup (Setting Saved Stage Kept Grown Calm)
open Walk (SourceFile)

namespace Run

variable {s x x' z : Machine} {root home dir : String} {q : Request} {started : Instant}
  {c : Course} {dirs : List String} {S : Setting} {taken : List Saved} {k : Nat}
  {b : Backup.Session} {p : Place} {f : SourceFile} {labels : List (Walk.Key × String)}

/-- The path to the backups leads neither to a target nor to a directory above one, and to what it
leads to there is a path without links. -/
def Clear (s : Machine) (home : String) (q : Request) : Prop :=
  ∀ r, s.Leads q.backupRoot r → s.realPath? q.backupRoot ≠ none ∧
    ∀ D target, target ∈ q.targets → s.Leads (Path.expandHome home target) D → ¬r <+: D

/-- Runs that write, without a check and without errors, from one system to another, and the
directories of their copies from the newest to the oldest. -/
inductive Runs (root : String) (s : Machine) : List String → Machine → Prop
  | none : Runs root s [] s
  | next {dirs : List String} {x x' : Machine} {home : String} {q : Request} {started : Instant}
    {c : Course} (before : Runs root s dirs x) (hnamed : Named x home q) (hdry : q.dryRun = false)
    (hcheck : q.check = none) (hroot : q.backupRoot = root) (hclear : Clear x home q)
    (hrun : x.does (course home q started) = (.ok c, x')) (herrors : c.report.errors = []) :
    Runs root s (c.report.backupDir.toList ++ dirs) x'

/-- What runs leave as it is, and where they can bring in a backslash. -/
structure Since (s : Machine) (root : String) (x : Machine) : Prop where
  ordered : x.Ordered
  scene : x.toScene = s.toScene
  holds : s.tree.Holds x.tree
  there : ∀ p, x.tree.get? p = none → s.tree.get? p = none
  slash : ∀ p b, x.tree.get? p = some (.file b) → (∃ name ∈ p, '\\' ∈ name.toList) →
    ∃ r, x.Leads root r ∧ r <+: p

theorem Since.refl (hs : s.Ordered)
    (hslash : ∀ p n, s.tree.get? p = some n → ∀ name ∈ p, '\\' ∉ name.toList) :
    Since s root s :=
  ⟨hs, rfl, .refl _, fun _ h => h, fun p _ hp ⟨name, hname, hc⟩ =>
    absurd hc (hslash p _ hp name hname)⟩

/-- No file of a walk is among the backups. -/
theorem Clear.not_prefix {r : Place} (hclear : Clear x home q) (hs : x.Ordered)
    (hr : x.Leads q.backupRoot r) (hnamed : x.realPath? f.path ≠ none)
    (hmet : Walk.Met x home q.targets (x.realPath? q.backupRoot).toList labels p f) :
    ¬r <+: p := by
  intro hle
  obtain ⟨hreal, hclear⟩ := hclear r hr
  obtain ⟨b, hfind⟩ := hmet.find hs hnamed
  have hget := get?_of_find hs hfind
  obtain @⟨w, target, label, D, us, hmem, hleads, hskipped, hchain, -, -⟩ := hmet
  have hskip : w.skipped = [pathOf r] := by
    rw [hskipped, realPath?_eq (find_opened (find_directory_iff.2 hr)) hreal]
    rfl
  rcases List.prefix_or_prefix_of_prefix hle (List.prefix_append D us) with hrD | ⟨vs, rfl⟩
  · exact hclear D target hmem hleads hrD
  · obtain ⟨ws, hws⟩ := hle
    rw [List.append_assoc, List.append_cancel_left_eq] at hws
    by_cases hvs : vs = []
    · subst hvs
      exact hclear D target hmem hleads (by simp)
    · have hne : ws ≠ [] := by
        rintro rfl
        rw [List.append_nil] at hws
        rw [← hws, hr.standing hs] at hget
        cases hget
      exact hchain.not_skipped hs hleads hnamed vs ws hws.symm hvs hne (by simp [hskip])

theorem slash_not_mem_copyPath (hx : Since s q.backupRoot x) (hclear : Clear x home q)
    (hnamed : x.realPath? f.path ≠ none)
    (hmet : Walk.Met x home q.targets (x.realPath? q.backupRoot).toList labels p f) :
    '\\' ∉ f.copyPath.toList := by
  intro hslash
  have hs := hx.ordered
  obtain ⟨b, hfind⟩ := hmet.find hs hnamed
  have hplace : ∃ name ∈ p, '\\' ∈ name.toList := by
    obtain ⟨name, hname, hc⟩ := Path.mem_names_of_mem hslash (by decide)
    obtain @⟨w, target, label, D, us, -, hleads, -, hchain, -, hlabel⟩ := hmet
    rw [(hchain.copyPath hs hlabel).2] at hname
    rcases List.mem_cons.1 hname with rfl | hname
    · obtain ⟨y, hy, hc⟩ := hlabel.backslash hc
      have hD := hleads.standing hs
      have hroot := realPath?_of_findBy (hleads.findBy_of_join (hchain.isWay hs)
        (findBy_of_realPath? (find_opened hfind) hnamed))
      rw [Walk.keyOf, Walk.realOf, hroot, Option.getD_some] at hy
      have hmem := Path.mem_names_of_mem_components hy
      rw [names_pathOf fun x hx => hs.tree.isPlain hD hx] at hmem
      exact ⟨y, List.mem_append_left _ hmem, hc⟩
    · exact ⟨name, List.mem_append_right _ hname, hc⟩
  obtain ⟨r, hr, hle⟩ := hx.slash _ b (get?_of_find hs hfind) hplace
  exact hclear.not_prefix hs hr hnamed hmet hle

/-- A run leaves what was there in place, and brings in backslashes only among the backups. -/
theorem Since.next (hx : Since s S.root S.start) (hroot : S.root ≠ "")
    (hstage : Stage S x' taken k b) : Since s S.root x' := by
  have hthere : ∀ p, x'.tree.get? p = none → S.start.tree.get? p = none := by
    intro p hp
    cases hstart : S.start.tree.get? p with
    | none => rfl
    | some n =>
      cases hstage with
      | before along =>
        rw [along.last.1.within p n hstart] at hp
        cases hp
      | within _ _ _ kept =>
        obtain ⟨n', hn'⟩ := kept.exists_of_start hstart
        rw [hn'] at hp
        cases hp
  refine ⟨hstage.ordered, hstage.scene.trans hx.scene, hx.holds.trans hstage.holds,
    fun p hp => hx.there p (hthere p hp), fun p b' hp hslash => ?_⟩
  cases hstart : S.start.tree.get? p with
  | some n =>
    cases n with
    | file b₀ =>
      obtain ⟨r, hr, hle⟩ := hx.slash p b₀ hstart hslash
      exact ⟨r, hr.mono hstage.scene hstage.holds, hle⟩
    | directory =>
      rw [hstage.holds.dir hstart] at hp
      cases hp
    | link target =>
      rw [hstage.holds p _ hstart nofun] at hp
      cases hp
  | none =>
    cases hstage with
    | before along => cases (along.last.1.fresh p _ hstart hp).1
    | @within dir name d _ _ along hname hdir kept =>
      rcases kept.fresh p _ hstart hp with ⟨hn, -⟩ | ⟨hle, -⟩
      · cases hn
      · obtain ⟨r, name', hr, rfl⟩ := kept.leads_root along.scene hroot hname hdir
        exact ⟨r, hr, (List.prefix_append _ _).trans hle⟩

/-- One run is undone: what was there before it is there again when its copies, if it took any, have
been brought back. -/
theorem undo (hx : Since s q.backupRoot x) (hnamed : Named x home q)
    (hdirect : s.Direct q.backupRoot) (hroot : q.backupRoot ≠ "") (hdry : q.dryRun = false) (hcheck : q.check = none)
    (hclear : Clear x home q) (hreadable : ∀ p, s.tree.get? p = none → s.sealed p = none)
    (hrun : x.does (course home q started) = (.ok c, x')) (herrors : c.report.errors = []) :
    Since s q.backupRoot x' ∧ ∀ z : Machine, x'.tree.Within z.tree → z.Ordered →
      z.toScene = s.toScene → z.mishaps = [] →
      ∃ rs z', z.does (c.report.backupDir.toList.mapM fun dir => Backup.restore dir false) =
          (rs, z') ∧ (∀ r ∈ rs, ∃ y, r = .ok y ∧ y.errors = []) ∧
        x.tree.Within z'.tree ∧ z'.Ordered ∧ z'.toScene = s.toScene ∧ z'.mishaps = [] := by
  obtain ⟨S, y, taken, k, b, hw, hconclude⟩ :=
    exists_written hx.ordered hnamed (hdirect.mono hx.scene hx.holds) hdry hrun
  obtain ⟨rfl, hSroot, hmet, hfiles, hstage, htreated, hframe, hlisted⟩ := hw
  rw [← hSroot] at hx hroot
  have hdir := backupDir_of_conclude hconclude
  rw [conclude_of_not_checked hcheck] at hconclude
  obtain ⟨hend, -, hreport⟩ := handIn_stage hstage hconclude
  have hdraft : (draft q started c.walked c.fates).errors = [] := by
    rw [hreport] at herrors
    cases hu : c.unreported with
    | none => rwa [hu] at herrors
    | some f =>
      rw [hu] at herrors
      simp [Report.addError] at herrors
  refine ⟨hSroot ▸ hx.next hroot hend, fun z hwithin hz hscene hmishaps => ?_⟩
  rw [hdir]
  cases hend with
  | before along =>
    exact ⟨[], z, rfl, by simp, fun p n hp => hwithin p n (along.last.1.within p n hp), hz, hscene,
      hmishaps⟩
  | @within dir name d _ _ _ _ _ kept =>
    have hpos : 0 < k := (hlisted (problem?_eq_none_of_draft hdraft)).resolve_left (by simp)
    have hcalm : Calm S z := ⟨hscene.trans hx.scene.symm, hmishaps, fun p hp => by
      rw [hx.scene]
      exact hreadable p (hx.there p hp)⟩
    have hslash : ∀ e ∈ taken, '\\' ∉ e.file.copyPath.toList := by
      intro e he
      obtain ⟨hplace, -⟩ := kept.genuine e he
      have hreal : S.start.realPath? e.file.path ≠ none := by simp [S.realPath? hplace]
      exact slash_not_mem_copyPath (hSroot ▸ hx) hclear hreal (hmet _ hplace)
    obtain ⟨r, z', hrestore, hok, hback, hz', hcalm'⟩ :=
      Backup.does_restore kept hpos hwithin hz hcalm hslash
    refine ⟨[.ok r], z', ?_, ?_, hback, hz', hcalm'.scene.trans hx.scene, hcalm'.mishaps⟩
    · rw [Option.toList_some, List.mapM_cons, does_bind, hrestore]
      rfl
    · intro r' hr'
      exact ⟨r, List.mem_singleton.1 hr', hok⟩

/-- **Bringing back the backups of any number of runs, the newest first, gives every file the
content it had before the first run**, and brings no errors. -/
theorem restore_runs (hs : s.Ordered) (hdirect : s.Direct root) (hroot : root ≠ "")
    (hslash : ∀ p n, s.tree.get? p = some n → ∀ name ∈ p, '\\' ∉ name.toList)
    (hreadable : ∀ p, s.tree.get? p = none → s.sealed p = none) (hruns : Runs root s dirs x)
    (hmishaps : x.mishaps = []) :
    ∃ rs z, x.does (dirs.mapM fun dir => Backup.restore dir false) = (rs, z) ∧
      (∀ r ∈ rs, ∃ y, r = .ok y ∧ y.errors = []) ∧
      ∀ p n, s.tree.get? p = some n → z.tree.get? p = some n := by
  suffices h : Since s root x ∧ ∀ z : Machine, x.tree.Within z.tree → z.Ordered →
      z.toScene = s.toScene → z.mishaps = [] →
      ∃ rs z', z.does (dirs.mapM fun dir => Backup.restore dir false) = (rs, z') ∧
        (∀ r ∈ rs, ∃ y, r = .ok y ∧ y.errors = []) ∧ s.tree.Within z'.tree by
    obtain ⟨hsince, h⟩ := h
    exact h x (.refl _) hsince.ordered hsince.scene hmishaps
  clear hmishaps
  induction hruns with
  | none => exact ⟨.refl hs hslash, fun z hz _ _ _ => ⟨[], z, rfl, nofun, hz⟩⟩
  | next before hnamed hdry hcheck hq hclear hrun herrors ih =>
    subst hq
    obtain ⟨hsince, hbefore⟩ := ih
    obtain ⟨hsince', hundo⟩ :=
      undo hsince hnamed hdirect hroot hdry hcheck hclear hreadable hrun herrors
    refine ⟨hsince', fun z hwithin hz hscene hmishaps => ?_⟩
    obtain ⟨rs, z₁, hrestore, hok, hback, hz₁, hscene₁, hmishaps₁⟩ :=
      hundo z hwithin hz hscene hmishaps
    obtain ⟨rs', z₂, hrestore', hok', hback'⟩ := hbefore z₁ hback hz₁ hscene₁ hmishaps₁
    refine ⟨rs ++ rs', z₂, ?_, fun r hr => ?_, hback'⟩
    · rw [List.mapM_append, does_bind, hrestore]
      dsimp only
      rw [does_bind, hrestore']
      rfl
    · rcases List.mem_append.1 hr with hr | hr
      · exact hok r hr
      · exact hok' r hr

theorem clear_of_find (h : (s.find q.backupRoot).isOk = false) : Clear s home q := by
  intro r hr
  rw [find_directory_iff.2 hr] at h
  cases h

theorem slash_not_mem_of_nodes (h : ∀ e ∈ s.tree.nodes, ∀ name ∈ e.1, '\\' ∉ name.toList) :
    ∀ p n, s.tree.get? p = some n → ∀ name ∈ p, '\\' ∉ name.toList := fun _ _ hp name hname =>
  h _ (Tree.mem_of_get? (List.ne_nil_of_mem hname) hp) name hname

/-- A run on the first of the two systems is undone. -/
theorem restore_runs_sample : ∃ x, Runs "backups" sample ["backups/20260506T070809Z"] x ∧
    ∃ rs z, x.does (["backups/20260506T070809Z"].mapM fun dir => Backup.restore dir false) =
        (rs, z) ∧
      (∀ r ∈ rs, ∃ y, r = .ok y ∧ y.errors = []) ∧
      ∀ p n, sample.tree.get? p = some n → z.tree.get? p = some n := by
  obtain ⟨c, x, hc, herrors, -, hdir, -, -, hmishaps⟩ := sample_run
  have hdirect : sample.Direct "backups" := direct_of_not_mem (by decide +kernel)
  have hruns : Runs "backups" sample ["backups/20260506T070809Z"] x := by
    have := Runs.next .none named_sample rfl rfl rfl (clear_of_find (by decide +kernel))
      hc herrors
    rwa [hdir] at this
  exact ⟨x, hruns, restore_runs ordered_sample hdirect (by decide)
    (slash_not_mem_of_nodes (by decide)) (fun _ _ => rfl) hruns (List.isEmpty_iff.1 hmishaps)⟩

/-- **A run whose path to the backups makes a detour cannot always be undone.** It has overwritten a
file of which it took no copy. -/
theorem not_restored_detour : detour.Ordered ∧
    (∀ p n, detour.tree.get? p = some n → ∀ name ∈ p, '\\' ∉ name.toList) ∧
    ∃ dirs x, Runs detourRoot detour dirs x ∧ x.mishaps = [] ∧
      (x.does (dirs.mapM fun dir => Backup.restore dir false)).2.tree.get? ["src", "b.ts"] ≠
        detour.tree.get? ["src", "b.ts"] := by
  obtain ⟨c, x, hc, herrors, -, -, -, hdir, -, -, hmishaps, -, -, hlost⟩ := detour_run
  have hruns := Runs.next .none named_detour rfl rfl rfl
    (clear_of_find (by decide +kernel)) hc herrors
  exact ⟨ordered_detour, slash_not_mem_of_nodes (by decide), _, x, hruns,
    List.isEmpty_iff.1 hmishaps, by rw [hdir]; exact hlost⟩

end Run

end Renaming
