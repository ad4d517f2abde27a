import Renaming.CommandLine.Answer
import Renaming.Proofs.Run.Account

/-!
The command that renames. `Apply.Ends` lists all ways in which it can end; it fails either before
its run has written anything, or because the report could not be written to the file that the
command line names (`failed_apply`).
-/

namespace Renaming

open Machine

/-! ### Reading the rules -/

theorem Run.reads_loadRules (path : String) : Reads (Run.loadRules path : StateM Machine _) := by
  unfold Run.loadRules
  split
  · exact reads_pure _
  · refine (reads_readText path).bind fun r => ?_
    split <;> exact reads_pure _

namespace CommandLine

open Run (Course)

variable {s s' : Machine} {home : String} {started : Instant} {a : Apply} {ans : Answer}
  {rest : List String}

/-! ### Ways to end -/

/-- The command line asks for a run, with the rules that it names. -/
def Apply.Asks (home : String) (a : Apply) (s : Machine) (q : Request) : Prop :=
  ∃ rules, (s.does (Run.loadRules (Path.expandHome home a.rulesFile))).1 = .ok rules ∧
    a.request home (rules.protect a.protect) = .ok q

/-- How the command that renames ends: with a failure before anything is written, or after a run,
whose report may have to be written to one more file. -/
inductive Apply.Ends (home : String) (a : Apply) (started : Instant) (s : Machine) :
    Except Failure Apply.Applied → Machine → Prop
  | early (f : Failure) : Ends home a started s (.error f) s
  | plain {q : Request} {c : Course} {y : Machine} (asks : a.Asks home s q)
    (hrun : s.does (Run.course home q started) = (.ok c, y)) (noReport : a.report = none) :
    Ends home a started s (.ok ⟨Path.expandHome home a.rulesFile, none, c.report⟩) y
  | reported {q : Request} {c : Course} {y z : Machine} {raw : String} (asks : a.Asks home s q)
    (hrun : s.does (Run.course home q started) = (.ok c, y)) (report : a.report = some raw)
    (hwrite : y.does (Run.writeReport c.report (Path.expandHome home raw)) = (.ok (), z)) :
    Ends home a started s (.ok ⟨Path.expandHome home a.rulesFile,
      some (Path.expandHome home raw), c.report⟩) z
  | unreported {q : Request} {c : Course} {y z : Machine} {raw : String} {f : Failure}
    (asks : a.Asks home s q) (hrun : s.does (Run.course home q started) = (.ok c, y))
    (report : a.report = some raw)
    (hwrite : y.does (Run.writeReport c.report (Path.expandHome home raw)) = (.error f, z)) :
    Ends home a started s (.error f) z

theorem Apply.ends {result : Except Failure Apply.Applied}
    (hx : s.does (a.run home started) = (result, s')) : Apply.Ends home a started s result s' := by
  obtain ⟨loaded, y, hload, hx₁⟩ := does_bind_eq_iff.1 hx
  obtain rfl : y = s := by
    rw [← Run.reads_loadRules (Path.expandHome home a.rulesFile) s, hload]
  clear hx
  split at hx₁
  next f =>
    cases hx₁
    exact .early f
  next rules =>
  split at hx₁
  next f _ =>
    cases hx₁
    exact .early f
  next q hq =>
  have asks : a.Asks home y q := ⟨rules, by rw [hload], hq⟩
  obtain ⟨r, z, hrun, hx₂⟩ := does_bind_eq_iff.1 hx₁
  rw [Run.does_run] at hrun
  cases hcourse : y.does (Run.course home q started) with
  | mk r₁ z₁ =>
  rw [hcourse] at hrun
  cases hrun
  cases r₁ with
  | error f =>
    cases hx₂
    cases Run.course_eq_error hcourse
    exact .early f
  | ok c =>
  cases hreport : a.report with
  | none =>
    simp only [Except.map, hreport] at hx₂
    cases hx₂
    exact .plain asks hcourse hreport
  | some raw =>
    simp only [Except.map, hreport, Option.map_some] at hx₂
    obtain ⟨r₂, z₂, hwrite, hx₃⟩ := does_bind_eq_iff.1 hx₂
    cases r₂ with
    | error f =>
      cases hx₃
      exact .unreported asks hcourse hreport hwrite
    | ok =>
      cases hx₃
      exact .reported asks hcourse hreport hwrite

/-! ### Failures -/

theorem exists_apply_of_readApply {words : List String} {c : Command}
    (h : Command.readApply words = .ok c) : ∃ a, c = .apply a := by
  unfold Command.readApply at h
  simp only [bind, Except.bind] at h
  repeat' split at h
  all_goals cases h
  exact ⟨_, rfl⟩

theorem Answer.exitCode_failure (f : Failure) : (Answer.failure f).exitCode ≠ 0 := by
  unfold Answer.failure
  dsimp only
  split <;> decide

/-- The run of a command line was carried out, and all that went wrong in it stands in its report,
but the report could not be written to the file that the command line names. -/
inductive Apply.Unreported (home : String) (a : Apply) (started : Instant) (s : Machine) :
    Failure → Machine → Prop
  | intro {q : Request} {c : Course} {y z : Machine} {raw : String} {f : Failure}
    (asks : a.Asks home s q) (hrun : s.does (Run.course home q started) = (.ok c, y))
    (recorded : Run.Recorded q c) (report : a.report = some raw)
    (hwrite : y.does (Run.writeReport c.report (Path.expandHome home raw)) = (.error f, z)) :
    Unreported home a started s f z

/-- **The command that renames fails without having changed anything**, unless a file for the report
is named and cannot be written. Everything else that goes wrong once files are being written is
recorded in the report, and the command does not fail for it. -/
theorem answer_apply (hx : s.does (answer home started ("apply" :: rest)) = (ans, s')) :
    (ans.exitCode ≠ 0 → s' = s ∨
      ∃ a f, Command.read ("apply" :: rest) = .ok (.apply a) ∧ ans = Answer.failure f ∧
        Apply.Unreported home a started s f s') ∧
    (ans.exitCode = 0 → ∃ a q c y x, Command.read ("apply" :: rest) = .ok (.apply a) ∧
      a.Asks home s q ∧ s.does (Run.course home q started) = (.ok c, y) ∧ Run.Recorded q c ∧
        ans = Answer.success (Apply.Applied.toJson x) 0 ∧ x.report = c.report) := by
  unfold answer at hx
  split at hx
  next e _ =>
    rw [does_pure, Prod.mk.injEq] at hx
    obtain ⟨rfl, rfl⟩ := hx
    exact ⟨fun _ => .inl rfl, nofun⟩
  next c hread =>
  obtain ⟨a, rfl⟩ := exists_apply_of_readApply hread
  obtain ⟨result, y, hrun, hx⟩ := does_bind_eq_iff.1 hx
  cases Apply.ends hrun with
  | early f =>
    rw [does_pure, Prod.mk.injEq] at hx
    obtain ⟨rfl, rfl⟩ := hx
    exact ⟨fun _ => .inl rfl, fun h => absurd h (Answer.exitCode_failure f)⟩
  | plain asks hcourse | reported asks hcourse =>
    rw [does_pure, Prod.mk.injEq] at hx
    obtain ⟨rfl, rfl⟩ := hx
    exact ⟨fun h => absurd rfl h, fun _ =>
      ⟨a, _, _, _, _, hread, asks, hcourse, Run.recorded hcourse, rfl, rfl⟩⟩
  | @unreported _ _ _ _ _ f asks hcourse report hwrite =>
    rw [does_pure, Prod.mk.injEq] at hx
    obtain ⟨rfl, rfl⟩ := hx
    exact ⟨fun _ => .inr ⟨a, f, hread, rfl,
      .intro asks hcourse (Run.recorded hcourse) report hwrite⟩,
      fun h => absurd h (Answer.exitCode_failure f)⟩

/-- A system with a rules file and a file to rename in. -/
def desk : Machine where
  tree := ⟨[(["rules.json"], .file "[\x7b\"old\":\"userId\",\"new\":\"user_id\"\x7d]".toUTF8),
    (["src"], .directory), (["src", "a.ts"], .file "let userId;\n".toUTF8)]⟩
  here := []
  programs := .none

/-- The command fails there without a change if it is given another rules file. -/
theorem answer_apply_desk : ∃ ans,
    desk.does (answer "" Run.sampleStart ["apply", "--rules-file", "rules.yaml"]) = (ans, desk) ∧
      ans.exitCode = refused := by
  have hcode : (desk.does (answer "" Run.sampleStart
      ["apply", "--rules-file", "rules.yaml"])).1.exitCode = refused := by decide +kernel
  have hread : Command.read ["apply", "--rules-file", "rules.yaml"] =
      .ok (.apply { rulesFile := "rules.yaml" }) := by decide +kernel
  refine ⟨_, (Prod.eta _).symm.trans (congrArg _ ?_), hcode⟩
  rcases (answer_apply (Prod.eta _).symm).1 (hcode.trans_ne (by decide)) with
    h | ⟨a, f, hread', -, hunreported⟩
  · exact h
  · -- without a file for the report there is no other way to fail
    cases hread.symm.trans hread'
    obtain ⟨-, -, -, hreport, -⟩ := hunreported
    cases hreport

/-- **The command that renames can fail after it has written files.** The path for the report leads
to a directory here. -/
theorem not_unchanged_desk : ∃ ans s', desk.does (answer "" Run.sampleStart
      ["apply", "--rules-file", "rules.json", "--target", "src", "--report", "src"]) = (ans, s') ∧
    ans.exitCode = failed ∧
    desk.tree.get? ["src", "a.ts"] = some (.file "let userId;\n".toUTF8) ∧
    s'.tree.get? ["src", "a.ts"] = some (.file "let user_id;\n".toUTF8) :=
  ⟨_, _, (Prod.eta _).symm, by decide +kernel⟩

end CommandLine

end Renaming
