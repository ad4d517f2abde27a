import Renaming.Proofs.CommandLine.Apply
import Renaming.Proofs.Run.Idle

/-!
What the command that looks for conflicts says about the command that renames. The exit code tells
whether a run was refused (`exitCode_apply_eq_refused_iff`). A rules file in which no conflict is
found is not refused, unless it has no rules or gives no extensions that can be used: at these two
things the command that looks for conflicts does not look (`refused_iff_of_clean`).
-/

namespace Renaming

open Machine

/-! ### Causes of failures -/

namespace Run

variable {s : Machine} {home path : String} {q : Request} {started : Instant} {f : Failure}
  {r : Report}

theorem isConfiguration_of_refusal? {cause : Cause} (h : q.refusal? = some cause) :
    cause.isConfiguration = true := by
  unfold Request.refusal? at h
  dsimp only at h
  repeat' split at h
  all_goals
    cases h
    try rfl

theorem isConfiguration_of_course (h : (s.does (course home q started)).1 = .error f) :
    f.cause.isConfiguration = true := by
  rw [does_course] at h
  split at h
  next cause _ hrefusal =>
    cases h
    exact isConfiguration_of_refusal? hrefusal
  next f' hwalk =>
    cases h
    exact Walk.isConfiguration_of_collect hwalk
  next => cases h

theorem isConfiguration_of_writeReport (h : (s.does (writeReport r path)).1 = .error f) :
    f.cause.isConfiguration = false := by
  have hcause : ∀ {operation : String} {r : Except SystemError Unit},
      r.mapError (Files.failure operation) = .error f → f.cause.isConfiguration = false := by
    intro operation r hr
    cases r with
    | ok => cases hr
    | error e =>
      cases hr
      rfl
  unfold writeReport at h
  rw [does_bind] at h
  cases hfolder : s.does (Files.makeFolder path ("create " ++ ·)) with
  | mk r₁ x =>
  rw [hfolder] at h
  cases r₁ with
  | error f' =>
    cases h
    unfold Files.makeFolder at hfolder
    split at hfolder
    next parent _ =>
      obtain ⟨r', -, hr⟩ := createDir_eq hfolder
      exact hcause hr.symm
    next => cases hfolder
  | ok =>
    obtain ⟨r', -, hr⟩ := writeText_eq (Prod.eta (x.does _)).symm
    exact hcause (hr.symm.trans h)

end Run

namespace CommandLine

variable {s : Machine} {home file : String} {started : Instant} {a : Apply} {q : Request}
  {rules : RuleSet} {words : List String} {c : Command}

/-! ### Exit codes -/

theorem Answer.exitCode_failure_eq_refused_iff (f : Failure) :
    (Answer.failure f).exitCode = refused ↔ f.cause.isConfiguration = true := by
  unfold Answer.failure
  dsimp only
  split
  next h => simp [h]
  next h => simp [h, refused, failed]

theorem does_answer (h : Command.read words = .ok c) :
    s.does (answer home started words) = s.does (c.answer home started) := by
  unfold answer
  rw [h]

/-- The command that looks for conflicts succeeds if the rules can be read and it finds none that
keeps them from being applied. -/
theorem exists_clean_of_check
    (h : (s.does ((Command.check file).answer home started)).1.exitCode = 0) :
    ∃ rules, (s.does (Run.loadRules (Path.expandHome home file))).1 = .ok rules ∧
      isClean rules = true := by
  unfold Command.answer at h
  dsimp only at h
  rw [does_bind] at h
  cases hload : (s.does (Run.loadRules (Path.expandHome home file))).1 with
  | error f =>
    rw [hload] at h
    exact absurd h (Answer.exitCode_failure f)
  | ok rules =>
    rw [hload] at h
    refine ⟨rules, rfl, ?_⟩
    by_contra hclean
    rw [Bool.not_eq_true] at hclean
    simp [hclean, Answer.success, refused] at h

section

variable (hload : (s.does (Run.loadRules (Path.expandHome home a.rulesFile))).1 = .ok rules)
  (hq : a.request home (rules.protect a.protect) = .ok q)

include hload hq

theorem answer_apply_of_error {f : Failure}
    (hcourse : (s.does (Run.course home q started)).1 = .error f) :
    (s.does ((Command.apply a).answer home started)).1 = Answer.failure f := by
  have hrun : (s.does (a.run home started)).1 = .error f := by
    unfold Apply.run
    dsimp only
    rw [does_bind, Run.reads_loadRules, hload]
    dsimp only
    rw [hq]
    dsimp only
    rw [does_bind, Run.does_run, hcourse]
    rfl
  unfold Command.answer
  dsimp only
  rw [does_bind, hrun]
  rfl

theorem exitCode_apply_of_ok {x : Run.Course}
    (hcourse : (s.does (Run.course home q started)).1 = .ok x) :
    (s.does ((Command.apply a).answer home started)).1.exitCode ≠ refused := by
  have hfails : ∀ f, (s.does (a.run home started)).1 = .error f →
      f.cause.isConfiguration = false := by
    intro f h
    unfold Apply.run at h
    dsimp only at h
    rw [does_bind, Run.reads_loadRules, hload] at h
    dsimp only at h
    rw [hq] at h
    dsimp only at h
    rw [does_bind, Run.does_run, hcourse] at h
    dsimp only [Except.map] at h
    split at h
    next => cases h
    next =>
      rw [does_bind] at h
      split at h
      next hwrite =>
        cases h
        exact Run.isConfiguration_of_writeReport hwrite
      next => cases h
  unfold Command.answer
  dsimp only
  rw [does_bind]
  cases hrun : (s.does (a.run home started)).1 with
  | error f =>
    refine mt (Answer.exitCode_failure_eq_refused_iff f).1 ?_
    simp [hfails f hrun]
  | ok => exact nofun

theorem exitCode_apply_eq_refused_iff :
    (s.does ((Command.apply a).answer home started)).1.exitCode = refused ↔
      Run.Refused s home q := by
  rw [← Run.course_error_iff]
  cases hcourse : (s.does (Run.course home q started)).1 with
  | error f =>
    rw [answer_apply_of_error hload hq hcourse, Answer.exitCode_failure_eq_refused_iff]
    exact ⟨fun _ => ⟨f, rfl⟩, fun _ => Run.isConfiguration_of_course hcourse⟩
  | ok x =>
    exact ⟨fun h => absurd h (exitCode_apply_of_ok hload hq hcourse), fun ⟨_, h⟩ => nomatch h⟩

end

/-! ### Clean rules files -/

/-- A rule set that no run can use: it has no rules, or it gives extensions, and either none or an
empty one among them. -/
def Unusable (rules : RuleSet) : Prop :=
  rules.rules = [] ∨ ∃ extensions, rules.extensions = some extensions ∧
    (extensions = [] ∨ ∃ e ∈ extensions, Walk.bareExtension e = "")

theorem bareExtension_default_ne : ∀ e ∈ Walk.defaultExtensions, Walk.bareExtension e ≠ "" := by
  decide +kernel

theorem unusable_iff : Unusable rules ↔ rules.rules = [] ∨
    rules.extensions.getD Walk.defaultExtensions = [] ∨
      ∃ e ∈ rules.extensions.getD Walk.defaultExtensions, Walk.bareExtension e = "" := by
  unfold Unusable
  cases rules.extensions with
  | none =>
    have hdefault : ¬(Walk.defaultExtensions = [] ∨
        ∃ e ∈ Walk.defaultExtensions, Walk.bareExtension e = "") := by
      rintro (h | ⟨e, he, hempty⟩)
      · exact absurd h (List.cons_ne_nil _ _)
      · exact bareExtension_default_ne e he hempty
    simp only [Option.getD_none, hdefault, reduceCtorEq, false_and, exists_false]
  | some extensions => simp

theorem refused_iff_unusable (hclean : isClean rules = true) (hrules : q.rules = rules)
    (htargets : q.targets ≠ [])
    (hextensions : q.extensions = rules.extensions.getD Walk.defaultExtensions)
    (hroots : ∀ target ∈ q.targets, Walk.Resolves s home target) :
    Run.Refused s home q ↔ Unusable rules := by
  rw [unusable_iff, ← hextensions, ← hrules]
  constructor
  · intro h
    cases h with
    | noRules h => exact .inl h
    | noTargets h => exact absurd h htargets
    | conflict mem h =>
      have hany : q.rules.conflicts.any Conflict.blocks = true := List.any_eq_true.2 ⟨_, mem, h⟩
      rw [isClean, ← hrules, hany] at hclean
      cases hclean
    | noExtensions h => exact .inr (.inl h)
    | emptyExtension mem h => exact .inr (.inr ⟨_, mem, h⟩)
    | noDirectory mem h => exact absurd (hroots _ mem) h
  · rintro (h | h | ⟨e, he, hempty⟩)
    · exact .noRules h
    · exact .noExtensions h
    · exact .emptyExtension he hempty

theorem resolves_dot (home : String) (hhere : s.here ∉ s.shut) : Walk.Resolves s home "." := by
  have hlook : s.look s.here "." = none := (if_neg hhere).trans (if_neg (by decide))
  have hleads : s.Leads "." s.here :=
    ⟨by decide, by decide, maxLinks, false, .dot hlook (.refl _)⟩
  exact kind?_eq_directory_iff.2 ⟨(by decide : Fits "."), s.here, hleads⟩

theorem exists_request (home : String) (rules : RuleSet) (hextensions : a.extensions = none)
    (hverify : a.verify = none) :
    ∃ q, a.request home rules = .ok q ∧ q.rules = rules ∧
      q.targets = (if a.targets.isEmpty then ["."] else a.targets.map (Path.expandHome home)) ∧
      q.extensions = rules.extensions.getD Walk.defaultExtensions := by
  unfold Apply.request
  rw [hverify, hextensions]
  exact ⟨_, rfl, rfl, rfl, rfl⟩

/-- The targets of a command line lead to directories if those that it names do: the one that it
stands for when it names none is the working directory. -/
theorem resolves_targets (hhere : a.targets = [] → s.here ∉ s.shut)
    (h : ∀ target ∈ a.targets, Walk.Resolves s home (Path.expandHome home target)) :
    ∀ target ∈ if a.targets.isEmpty then ["."] else a.targets.map (Path.expandHome home),
      Walk.Resolves s home target := by
  intro target mem
  split at mem
  next hnone =>
    cases List.mem_singleton.1 mem
    exact resolves_dot home (hhere (List.isEmpty_iff.1 hnone))
  next =>
    obtain ⟨raw, hraw, rfl⟩ := List.mem_map.1 mem
    exact h raw hraw

/-- **A rules file that is found to be clean is not refused**, unless no run can use it. The file is
applied in directories that are there, or in the working directory if this can be searched, without
other protected names, extensions or checks than those that it asks for itself, as a dry run or not;
whatever else the command line says about the run, it is refused exactly if there are no rules in
the file, or if it gives a list of extensions that is empty or has an empty one in it. -/
theorem refused_iff_of_clean (s : Machine) (home : String) (started : Instant)
    {checkWords applyWords : List String}
    (hcheck : Command.read checkWords = .ok (.check a.rulesFile))
    (happly : Command.read applyWords = .ok (.apply a)) (hprotect : a.protect = [])
    (hextensions : a.extensions = none) (hverify : a.verify = none)
    (hhere : a.targets = [] → s.here ∉ s.shut)
    (htargets : ∀ target ∈ a.targets, Walk.Resolves s home (Path.expandHome home target))
    (hclean : (s.does (answer home started checkWords)).1.exitCode = 0) :
    ∃ rules, (s.does (Run.loadRules (Path.expandHome home a.rulesFile))).1 = .ok rules ∧
      ((s.does (answer home started applyWords)).1.exitCode = refused ↔ Unusable rules) := by
  rw [does_answer hcheck] at hclean
  obtain ⟨rules, hload, hclean⟩ := exists_clean_of_check hclean
  have hprotected : rules.protect a.protect = rules := by simp [hprotect, RuleSet.protect]
  obtain ⟨q, hq, hrules, hnamed, hgiven⟩ := exists_request home rules hextensions hverify
  have hsome : q.targets ≠ [] := by
    rw [hnamed]
    split
    next => exact List.cons_ne_nil _ _
    next h => simpa using h
  refine ⟨rules, hload, ?_⟩
  rw [does_answer happly, exitCode_apply_eq_refused_iff hload (hprotected.symm ▸ hq)]
  exact refused_iff_unusable hclean hrules hsome hgiven (hnamed ▸ resolves_targets hhere htargets)

/-- The rules file on the desk is found to be clean, and its one rule can be applied to the
directory there, in a dry run. -/
theorem refused_iff_of_clean_desk :
    (desk.does (answer "" Run.sampleStart
      ["check", "--rules-file", "rules.json"])).1.exitCode = 0 ∧
    (desk.does (answer "" Run.sampleStart
      ["apply", "--rules-file", "rules.json", "--target", "src", "--dry-run"])).1.exitCode ≠
      refused := by
  have hclean : (desk.does (answer "" Run.sampleStart
      ["check", "--rules-file", "rules.json"])).1.exitCode = 0 := by decide +kernel
  refine ⟨hclean, fun hrefused => ?_⟩
  have htargets : ∀ target ∈ ["src"], Walk.Resolves desk "" (Path.expandHome "" target) := by
    decide +kernel
  have hcheck : Command.read ["check", "--rules-file", "rules.json"] =
      .ok (.check "rules.json") := by decide +kernel
  have happly : Command.read ["apply", "--rules-file", "rules.json", "--target", "src",
      "--dry-run"] = .ok (.apply {
        rulesFile := "rules.json", targets := ["src"], dryRun := true }) := by
    decide +kernel
  obtain ⟨rules, hload, hverdict⟩ := refused_iff_of_clean desk "" Run.sampleStart hcheck happly
    rfl rfl rfl nofun htargets hclean
  have hread : (desk.does (Run.loadRules "rules.json")).1.toOption.map
      (fun rules => (rules.rules.length, rules.extensions)) = some (1, none) := by decide +kernel
  have hfile : Path.expandHome "" "rules.json" = "rules.json" := by decide +kernel
  rw [hfile] at hload
  rw [hload] at hread
  obtain ⟨hone, hnone⟩ := Prod.mk.inj (Option.some.inj hread)
  rcases hverdict.1 hrefused with h | ⟨extensions, h, -⟩
  · simp [h] at hone
  · simp [h] at hnone

/-- A system whose rules file has no rules. -/
def bareDesk : Machine where
  tree := ⟨[(["rules.json"], .file "[]".toUTF8), (["src"], .directory),
    (["src", "a.ts"], .file "let userId;\n".toUTF8)]⟩
  here := []
  programs := .none

/-- **A rules file in which no conflict is found can be refused**: one without rules, whether it is
a dry run or not. -/
theorem refused_of_clean_bareDesk :
    (bareDesk.does (answer "" Run.sampleStart
      ["check", "--rules-file", "rules.json"])).1.exitCode = 0 ∧
    (bareDesk.does (answer "" Run.sampleStart
      ["apply", "--rules-file", "rules.json", "--target", "src"])).1.exitCode = refused ∧
    (bareDesk.does (answer "" Run.sampleStart
      ["apply", "--rules-file", "rules.json", "--target", "src", "--dry-run"])).1.exitCode =
      refused := by
  decide +kernel

end CommandLine

end Renaming
