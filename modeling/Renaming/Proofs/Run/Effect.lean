import Renaming.Proofs.Run.Course

/-!
What a run that writes does to the files. A file in the report ends with the text that renaming
gives; a file that cannot be read, is no text, has nothing to rename or could not be saved stays as
it was; and nothing else changes but the directory of the run and what is made on the way there
(`effect`).

The directory of the run is new only if the path of the backups is direct. With a `..` behind a name
that is missing, the run takes a directory for new that has been there all the time, and writes
where the links in it lead (`not_effect_detour`).
-/

namespace Renaming

open Renaming.Path (names)
open Machine
open Walk (SourceFile)

namespace Run

variable {s s' x : Machine} {q : Request} {home : String} {started : Instant} {c : Course}
  {p : Place} {f : SourceFile} {fate : Fate} {bytes left : ByteArray}

/-- A file that is to be left alone, by its content or because no copy of it could be taken. -/
inductive Spared (s : Machine) (q : Request) (f : SourceFile) : Fate → Prop
  | unreadable {fate : Fate} {e : SystemError} (hread : s.read f.path = .error e) :
    Spared s q f fate
  | noText {fate : Fate} {b : ByteArray} (hread : s.read f.path = .ok b)
    (htext : String.fromUTF8? b = none) : Spared s q f fate
  | unchanged {fate : Fate} {b : ByteArray} {source : String} (hread : s.read f.path = .ok b)
    (htext : String.fromUTF8? b = some source)
    (hrename : (rename q.rules.rules q.rules.guarded source).changed = false) : Spared s q f fate
  | unsaved (skipped : List Skip) (problem : Failure) : Spared s q f (.unsaved skipped problem)

/-- What a run has done to the files. -/
structure Effect (s : Machine) (q : Request) (c : Course) (s' : Machine) : Prop where
  /-- Every file of the walk has a fate. -/
  treated : c.fates.map Prod.fst = c.walked.files
  /-- A file that is in the report ends with the text that renaming its text gives. -/
  renamed : ∀ f ∈ c.walked.files, ∀ record ∈ c.report.files, record.path = f.path →
    ∃ p b source, s.find f.path = .ok (p, .file b) ∧ String.fromUTF8? b = some source ∧
      s'.find f.path =
        .ok (p, .file (rename q.rules.rules q.rules.guarded source).text.toUTF8)
  /-- A file that is to be left alone keeps its content. -/
  spared : ∀ f fate, (f, fate) ∈ c.fates → Spared s q f fate →
    ∃ p b, s.find f.path = .ok (p, .file b) ∧ s'.find f.path = .ok (p, .file b)
  /-- What changes are files that were written, what lies in the new directory of the run, and
  directories that are made on the way to the backups. -/
  frame : ∀ p, s'.tree.get? p ≠ s.tree.get? p →
    (∃ f fate b, (f, fate) ∈ c.fates ∧ fate.wrote = true ∧ s.find f.path = .ok (p, .file b)) ∨
    (∃ dir d, c.report.backupDir = some dir ∧ s.tree.get? d = none ∧
      s'.find dir = .ok (d, .directory) ∧ d <+: p) ∨
    (s.tree.get? p = none ∧ s'.tree.get? p = some .directory ∧ ∃ us, us <+: names q.backupRoot ∧
      s'.tree.follow s'.look true maxLinks false (startOf s.here q.backupRoot) us =
        .ok (.node p .directory))

theorem foretold_eq_renamed {path : String} {r : Except SystemError ByteArray}
    {skipped : List Skip} {record : FileRecord} (h : foretold q path r = .renamed skipped record) :
    record.path = path ∧ ∃ b source, r = .ok b ∧ String.fromUTF8? b = some source ∧
      (rename q.rules.rules q.rules.guarded source).changed = true := by
  unfold foretold at h
  split at h
  · cases h
  next b =>
    split at h
    · cases h
    next source hsource =>
      dsimp only at h
      split at h
      next hchanged =>
        cases h
        exact ⟨rfl, b, source, rfl, hsource, hchanged⟩
      · cases h

theorem Treated.eq_of_not_wrote (h : Treated q s f bytes fate left) (hw : fate.wrote = false) :
    left = bytes := by
  cases h with
  | asForetold | unsaved => rfl
  | unwritten | renamed => cases hw

theorem Treated.eq_of_spared (h : Treated q s f bytes fate left) (hspared : Spared s q f fate) :
    left = bytes := by
  refine Decidable.byContradiction fun hne => ?_
  have hforetold :
      ∃ skipped record, foretold q f.path (s.read f.path) = .renamed skipped record := by
    cases h with
    | asForetold | unsaved => exact absurd rfl hne
    | unwritten h | renamed h => exact ⟨_, _, h⟩
  obtain ⟨skipped, record, hforetold⟩ := hforetold
  obtain ⟨-, b, source, hread, htext, hchanged⟩ := foretold_eq_renamed hforetold
  cases hspared with
  | unreadable hread' => simp_all
  | noText hread' htext' => simp_all
  | unchanged hread' htext' hrename => simp_all
  | unsaved => exact hne (h.eq_of_not_wrote rfl)

theorem Treated.renamed_of_record {record : FileRecord} (h : Treated q s f bytes fate left)
    (hrecord : fate.record? = some record) : record.path = f.path ∧
      ∃ source, String.fromUTF8? bytes = some source ∧
        left = (rename q.rules.rules q.rules.guarded source).text.toUTF8 := by
  cases h with
  | asForetold h =>
    rw [h] at hrecord
    cases hrecord
  | unsaved | unwritten => cases hrecord
  | renamed h copy hsource =>
    cases hrecord
    exact ⟨(foretold_eq_renamed h).1, _, hsource, rfl⟩

/-- **A run that writes renames the files in its report, leaves the others alone, and changes
nothing else** but the directory of the run and what is made on the way there. -/
theorem effect (hs : s.Ordered) (hnamed : Named s home q) (hdirect : s.Direct q.backupRoot)
    (hdry : q.dryRun = false) (hcheck : q.check = none)
    (hx : s.does (course home q started) = (.ok c, s')) :
    Effect s q c s' := by
  obtain ⟨S, x, taken, k, b, hw, hconclude⟩ := exists_written hs hnamed hdirect hdry hx
  obtain ⟨rfl, hroot, -, hfiles, hstage, htreated, hframe, -⟩ := hw
  rw [conclude_of_not_checked hcheck] at hconclude
  obtain ⟨hend, hsteady, hreport⟩ := handIn_stage hstage hconclude
  have hrecords : c.report.files = c.fates.filterMap fun e => e.2.record? := by
    rw [hreport, ← files_draft q started c.walked]
    cases c.unreported <;> rfl
  have hdir : c.report.backupDir = b.dir := by
    rw [hreport]
    cases c.unreported <;> rfl
  -- what is left of each file when the run has ended
  have hleft : ∀ f fate, (f, fate) ∈ c.fates → ∃ p bytes left, (p, f) ∈ S.places ∧
      S.start.find f.path = .ok (p, .file bytes) ∧ s'.tree.get? p = some (.file left) ∧
        s'.find f.path = .ok (p, .file left) ∧ Treated q S.start f bytes fate left := by
    intro f fate hf
    obtain ⟨p, bytes, left, hmem, hfind, hget, htreated⟩ := htreated.of_mem_fates hf
    have hget' := (hsteady p _ (get?_of_find hs hfind)).trans hget
    exact ⟨p, bytes, left, hmem, hfind, hget',
      find_file_of_holds hend.scene hend.holds hfind hget', htreated⟩
  refine ⟨htreated.map_fst.trans hfiles.symm, fun f hf record hrecord hpath => ?_,
    fun f fate hf hspared => ?_, fun p hp => ?_⟩
  · rw [hrecords, List.mem_filterMap] at hrecord
    obtain ⟨⟨g, fate⟩, hg, hrecord⟩ := hrecord
    obtain ⟨p, bytes, left, -, hfind, -, hfind', htreated⟩ := hleft g fate hg
    obtain ⟨hpath', source, hsource, rfl⟩ := htreated.renamed_of_record hrecord
    rw [← hpath', hpath] at hfind hfind'
    exact ⟨p, bytes, source, hfind, hsource, hfind'⟩
  · obtain ⟨p, bytes, left, -, hfind, -, hfind', htreated⟩ := hleft f fate hf
    rw [htreated.eq_of_spared hspared] at hfind'
    exact ⟨p, bytes, hfind, hfind'⟩
  · cases hp' : S.start.tree.get? p with
    | some n =>
      left
      by_cases hmem : ∃ e ∈ S.places, e.1 = p
      · obtain ⟨⟨_, f⟩, he, rfl⟩ := hmem
        obtain ⟨fate, hf⟩ := htreated.exists_fate he
        obtain ⟨b₀, hfound⟩ := S.found _ he
        obtain ⟨p, bytes, left, -, hfind, hget, -, htreated⟩ := hleft f fate hf
        cases hfound.symm.trans hfind
        refine ⟨f, fate, _, hf, Bool.of_not_eq_false fun hw => hp ?_, hfound⟩
        rw [hget, htreated.eq_of_not_wrote hw]
        exact (get?_of_find hs hfound).symm
      · rw [hsteady p n hp', hframe p n hp' fun e he heq => hmem ⟨e, he, heq⟩, hp'] at hp
        exact absurd rfl hp
    | none =>
      right
      obtain ⟨n, hn⟩ := Option.ne_none_iff_exists'.1 (hp' ▸ hp)
      rcases hend.fresh_cases hp' hn with
        ⟨dir, d, hb, hnone, hfind, hle⟩ | ⟨rfl, us, L, m, hus, hgo⟩
      · exact .inl ⟨dir, d, hdir.trans hb, hnone, hfind, hle⟩
      · rw [hroot] at hus hgo
        rw [← hend.scene] at hgo
        exact .inr ⟨rfl, hn, us, hus, hend.scene ▸ hgo.follow.trans Tree.follow_nil⟩

/-- A run on the first of the two systems. -/
theorem effect_sample : ∃ c s', sample.does (course "" (sampleRequest "backups") sampleStart) =
    (.ok c, s') ∧ c.report.files.map FileRecord.path = ["src/a.ts"] ∧
      Effect sample (sampleRequest "backups") c s' := by
  obtain ⟨c, s', hc, -, hpaths, -⟩ := sample_run
  have hdirect : sample.Direct "backups" := direct_of_not_mem (by decide +kernel)
  exact ⟨c, s', hc, hpaths, effect ordered_sample named_sample hdirect rfl rfl hc⟩

/-- **A run whose path to the backups makes a detour can overwrite a file that it does not rename.**
The draft of the manifest is written through a link in the directory that was taken for new. -/
theorem not_effect_detour : detour.Ordered ∧ Named detour "" (sampleRequest detourRoot) ∧
    (sampleRequest detourRoot).dryRun = false ∧ (sampleRequest detourRoot).check = none ∧
    ∃ c s', detour.does (course "" (sampleRequest detourRoot) sampleStart) = (.ok c, s') ∧
      ¬Effect detour (sampleRequest detourRoot) c s' := by
  obtain ⟨c, s', hc, -, -, hfates, -, -, -, -, -, hchange, -⟩ := detour_run
  refine ⟨ordered_detour, named_detour, rfl, rfl, c, s', hc, fun heffect => ?_⟩
  have hthere : detour.tree.get? ["src", "b.ts"] ≠ none := by decide
  rcases heffect.frame _ hchange with
    ⟨f, fate, b, hf, hwrote, hfind⟩ | ⟨_, d, -, hd, -, hle⟩ | ⟨hnone, -⟩
  · have hmem := List.mem_map_of_mem (f := fun e : SourceFile × Fate => (e.1, e.2.wrote)) hf
    simp only [hfates, hwrote, List.mem_cons, Prod.mk.injEq, List.not_mem_nil, or_false, and_true,
      Bool.true_eq_false, and_false] at hmem
    have hother : (detour.find "src/a.ts").toOption.map Prod.fst = some ["src", "a.ts"] := by
      decide +kernel
    rw [hmem] at hfind
    rw [hfind] at hother
    have hsame : ["src", "b.ts"] = ["src", "a.ts"] := Option.some.inj hother
    exact absurd hsame (by decide)
  · exact hthere (ordered_detour.tree.none_below hd hle)
  · exact hthere hnone

end Run

end Renaming
