import Renaming.Proofs.Run.Course
import Renaming.Proofs.Backup.Manifest

/-!
What a run that is cut short leaves behind. In every tree that a run passes through before its
check, a file whose content has changed has a copy of what it held before and an entry in the
manifest on disk, and the manifest on disk is a whole one (`safety`). This holds however many of the
requests of the run go wrong.
-/

namespace Renaming.Run

open Renaming.Path (names)
open Machine
open Backup (Setting Saved Stage Grown Kept Passing Between)
open Walk (SourceFile)

variable {s s' x : Machine} {q : Request} {home : String} {started : Instant} {c : Course}
  {S : Setting} {t : Tree} {p d : Place} {f : SourceFile} {dir : String} {taken : List Saved}
  {k : Nat} {b : ByteArray}

/-- The manifest that the content of a file describes. -/
def Describes (b : ByteArray) (m : Manifest) : Prop :=
  ∃ text, String.fromUTF8? b = some text ∧ Manifest.parse text.toList = .ok m

/-- A tree that a run can be cut short in without a loss. -/
structure Safe (s : Machine) (c : Course) (t : Tree) : Prop where
  /-- A file whose content has changed has a copy of what it held before, and an entry in the
  manifest. -/
  saved : ∀ f ∈ c.walked.files, ∀ p b, s.find f.path = .ok (p, .file b) →
    t.get? p ≠ some (.file b) → ∃ dir, c.report.backupDir = some dir ∧
      (∃ r, { s with tree := t }.find (Path.join dir f.copyPath) = .ok (r, .file b)) ∧
      ∃ r b' m, { s with tree := t }.find (Path.join dir Manifest.fileName) = .ok (r, .file b') ∧
        Describes b' m ∧ ⟨Backup.Session.slashed f.copyPath, pathOf p⟩ ∈ m.copies
  /-- The manifest is a whole one whenever there is one. -/
  whole : ∀ dir r b, c.report.backupDir = some dir →
    { s with tree := t }.find (Path.join dir Manifest.fileName) = .ok (r, .file b) →
      ∃ m, Describes b m

theorem describes_text (m : Manifest) : Describes m.text.toUTF8 m :=
  ⟨m.text, Manifest.fromUTF8?_toUTF8 m.text, m.parse_text⟩

/-- Before the directory of the run is made, no file has changed, and where the manifest will be
there is no file. -/
theorem safe_of_grown (hgrown : Grown S t) (hnew : ∀ dir, c.report.backupDir = some dir →
      Path.IsTidy dir ∧ ∀ d, (S.at t).Leads dir d → S.start.tree.get? d = none) :
    Safe S.start c t := by
  have hordered : (S.at t).Ordered := S.ordered.of_holds rfl hgrown.sound (.of_within hgrown.within)
  refine ⟨fun f _ p b hfind hchange => ?_, fun dir r b hdir hfind => ?_⟩
  · exact absurd (hgrown.within _ _ (get?_of_find S.ordered hfind)) hchange
  · obtain ⟨htidy, hnew⟩ := hnew dir hdir
    have hreach := find_eq_ok_iff.1 hfind
    obtain ⟨d, hd⟩ := exists_leads_of_reach_join htidy Manifest.isPlain_fileName.isWay hreach
    have hbelow : ∀ p n, d <+: p → t.get? p = some n → n = .directory := fun p n hle hn =>
      (hgrown.fresh p n (S.ordered.tree.none_below (hnew d hd) hle) hn).1
    rcases hd.of_reach_join hordered (fun p target hle hlink => nomatch hbelow p _ hle hlink)
      Manifest.isPlain_fileName.isWay hreach with ⟨n, hn, hget⟩ | ⟨hn, -⟩
    · cases hn
      cases hbelow _ _ (List.prefix_append _ _) hget
    · cases hn

theorem safe_of_kept (hkept : Kept S dir d taken k t)
    (hfiles : c.walked.files = S.places.map Prod.snd) (hdir : c.report.backupDir = some dir) :
    Safe S.start c t := by
  refine ⟨fun f hf p b hfind hchange => ?_, fun dir' r b hdir' hfind => ?_⟩
  · obtain ⟨b', hb', rfl | ⟨e, he, rfl⟩⟩ := hkept.files p b (get?_of_find S.ordered hfind)
    · exact absurd hb' hchange
    obtain ⟨hplace, hbytes⟩ := hkept.genuine e (List.mem_of_mem_take he)
    rw [get?_of_find S.ordered hfind] at hbytes
    cases hbytes
    -- the file of the walk is the one that was saved, as only one stands at the place
    rw [hfiles, List.mem_map] at hf
    obtain ⟨⟨p', g⟩, hg, rfl⟩ := hf
    obtain ⟨b₀, hfind'⟩ := S.found _ hg
    cases hfind.symm.trans hfind'
    cases Setting.file_unique hg hplace
    have hpos : 0 < k := Nat.pos_of_ne_zero fun hk => by simp [hk] at he
    obtain ⟨-, bm, hbm⟩ := hkept.listed hpos
    obtain ⟨-, hcopy⟩ := hkept.copies e (List.mem_of_mem_take he)
    have hfound : ∀ {rel n}, Path.IsWay rel → t.get? (d ++ names rel) = some n → n.kind ≠ .other →
        (S.at t).find (Path.join dir rel) = .ok (d ++ names rel, n) := fun hrel hn =>
      hkept.leads.find_join hkept.ordered hrel
        (S.admits_below (x := S.at t) hkept.ordered rfl hkept.vacant hn) hn
    refine ⟨dir, hdir, ⟨_, hfound (S.isWay _ hg) hcopy nofun⟩, _, bm,
      ⟨S.createdAt, (taken.take k).map Saved.copy⟩,
      hfound Manifest.isPlain_fileName.isWay ?_ nofun, ?_, List.mem_map_of_mem he⟩
    · rw [Manifest.isPlain_fileName.names]
      exact hbm
    · rw [hkept.manifest bm hbm]
      exact describes_text _
  · cases hdir.symm.trans hdir'
    have hreach := find_eq_ok_iff.1 hfind
    rcases hkept.leads.of_reach_join hkept.ordered (fun _ target hle => hkept.not_link hle target)
      Manifest.isPlain_fileName.isWay hreach with ⟨n, hn, hget⟩ | ⟨hn, -⟩
    · cases hn
      rw [hkept.manifest b hget]
      exact ⟨_, describes_text _⟩
    · cases hn

/-- **A run that writes can be cut short at any moment before its check**: each changed file has a
copy of what it held before and an entry in the manifest, which is a whole one. A run that fails
passes through the first tree alone. -/
theorem safety {r : Except Failure Course} (hs : s.Ordered) (hnamed : Named s home q)
    (hdirect : s.Direct q.backupRoot) (hdry : q.dryRun = false)
    (hx : s.does (course home q started) = (r, s')) :
    (∀ f, r = .error f → s.passed s' = [s.tree]) ∧
      ∀ c, r = .ok c → ∀ t ∈ s.passed s', Safe s c t := by
  refine ⟨fun f hf => ?_, fun c hc t ht => ?_⟩
  · cases course_eq_error (hf ▸ hx)
    simp [passed, Tree.trail]
  · obtain ⟨S, x, taken, k, b, hw, hconclude⟩ := exists_written hs hnamed hdirect hdry (hc ▸ hx)
    obtain ⟨rfl, -, -, hfiles, hstage, -, -, -⟩ := hw
    have hbetween := conclude_passed hstage hconclude t ht
    have hdir := backupDir_of_conclude hconclude
    cases hstage with
    | before => exact safe_of_grown hbetween fun dir h => by cases hdir.symm.trans h
    | @within dir name d _ _ _ hname hjoin _ =>
      cases (hbetween : Passing S dir t) with
      | early hgrown hnew =>
        refine safe_of_grown hgrown fun dir' h => ?_
        cases hdir.symm.trans h
        exact ⟨hjoin ▸ Path.isTidy_join _ hname, hnew⟩
      | kept hkept => exact safe_of_kept hkept hfiles hdir

/-- A run on the first of the two systems. -/
theorem safety_sample : ∃ c s', sample.does (course "" (sampleRequest "backups") sampleStart) =
    (.ok c, s') ∧ c.report.files.map FileRecord.path = ["src/a.ts"] ∧
      ∀ t ∈ sample.passed s', Safe sample c t := by
  obtain ⟨c, s', hc, -, hpaths, -⟩ := sample_run
  have hdirect : sample.Direct "backups" := direct_of_not_mem (by decide +kernel)
  exact ⟨c, s', hc, hpaths, (safety ordered_sample named_sample hdirect rfl hc).2 c rfl⟩

/-- **A run whose path to the backups makes a detour can lose a file.** The draft of the manifest is
written through a link over a file that has no copy. -/
theorem not_safe_detour : detour.Ordered ∧ Named detour "" (sampleRequest detourRoot) ∧
    (sampleRequest detourRoot).dryRun = false ∧ ∃ c s',
      detour.does (course "" (sampleRequest detourRoot) sampleStart) = (.ok c, s') ∧
      ∃ t ∈ detour.passed s', ¬Safe detour c t := by
  obtain ⟨c, s', hc, -, hfiles, -, -, hdir, -, -, -, -, ⟨t, ht, hchange, hcopy⟩, -⟩ := detour_run
  refine ⟨ordered_detour, named_detour, rfl, c, s', hc, t, ht, fun hsafe => ?_⟩
  have hfound : (detour.find "src/b.ts").toOption =
      some (["src", "b.ts"], .file "return userId;\n".toUTF8) := by decide +kernel
  have hfind := eq_ok_of_toOption hfound
  have hget := get?_of_find ordered_detour hfind
  rw [hget] at hchange
  obtain ⟨dir, hdir', ⟨r, hcopy'⟩, -⟩ :=
    hsafe.saved ⟨"src/b.ts", "src/b.ts"⟩ (by simp [hfiles]) _ _ hfind hchange
  cases hdir.symm.trans hdir'
  rw [hcopy'] at hcopy
  cases hcopy

end Renaming.Run
