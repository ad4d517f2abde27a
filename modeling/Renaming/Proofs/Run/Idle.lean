import Renaming.Proofs.Run.Preview

/-!
Runs that change nothing. A run is refused for one of the reasons in `Refused`, all of which are
found before anything is written; a dry run has nothing to write and carries out no check. Either
leaves the system as it is (`idle`).
-/

namespace Renaming

open Machine

namespace Run

variable {s s' : Machine} {q : Request} {home : String} {started : Instant}

/-! ### Refusals -/

/-- What is wrong with a run that is refused. -/
inductive Refused (s : Machine) (home : String) (q : Request) : Prop
  | noRules (h : q.rules.rules = [])
  | noTargets (h : q.targets = [])
  | conflict {x : Conflict} (mem : x ∈ q.rules.conflicts) (h : x.blocks = true)
    (hdry : q.dryRun = false) (hforce : q.force = false)
  | noExtensions (h : q.extensions = [])
  | emptyExtension {e : String} (mem : e ∈ q.extensions) (h : Walk.bareExtension e = "")
  | noDirectory {target : String} (mem : target ∈ q.targets)
    (h : ¬Walk.Resolves s home target)

theorem refusal?_eq_none_iff : q.refusal? = none ↔ q.rules.rules ≠ [] ∧ q.targets ≠ [] ∧
    (q.dryRun = false → q.force = false → ∀ x ∈ q.rules.conflicts, x.blocks = false) := by
  unfold Request.refusal?
  dsimp only
  split
  next h => simp [List.isEmpty_iff.1 h]
  next hrules =>
  split
  next h => simp [List.isEmpty_iff.1 h]
  next htargets =>
  rw [List.isEmpty_iff] at hrules htargets
  simp only [ne_eq, hrules, htargets, not_false_eq_true, true_and]
  cases q.dryRun
  · cases q.force
    · simp [List.filter_eq_nil_iff]
    · simp
  · simp

theorem not_refused_iff :
    ¬Refused s home q ↔ q.refusal? = none ∧ ∃ walked, walkOf s home q = .ok walked := by
  rw [refusal?_eq_none_iff, walkOf, Walk.collect_ok_iff]
  constructor
  · intro h
    refine ⟨⟨fun hrules => h (.noRules hrules), fun htargets => h (.noTargets htargets),
      fun hdry hforce x hx => ?_⟩, ⟨fun hnone => h (.noExtensions hnone),
      fun e he hempty => h (.emptyExtension he hempty)⟩, fun target ht => ?_⟩
    · cases hb : x.blocks with
      | false => rfl
      | true => exact absurd (.conflict hx hb hdry hforce) h
    · exact Decidable.byContradiction fun hno => h (.noDirectory ht hno)
  · rintro ⟨⟨hrules, htargets, hconflicts⟩, ⟨hsome, hempty⟩, hroots⟩ h
    cases h with
    | noRules h => exact hrules h
    | noTargets h => exact htargets h
    | conflict mem h hdry hforce => exact nomatch h.symm.trans (hconflicts hdry hforce _ mem)
    | noExtensions h => exact hsome h
    | emptyExtension mem h => exact hempty _ mem h
    | noDirectory mem h => exact h (hroots _ mem)

/-- A run is refused for one of the reasons and for no other. -/
theorem course_error_iff : (∃ f, (s.does (course home q started)).1 = .error f) ↔
    Refused s home q := by
  constructor
  · rintro ⟨f, hf⟩
    refine Classical.byContradiction fun hnot => ?_
    obtain ⟨hrefusal, walked, hwalk⟩ := not_refused_iff.1 hnot
    obtain ⟨c, s', hc⟩ := exists_course hrefusal hwalk started
    rw [hc] at hf
    cases hf
  · intro h
    cases hr : (s.does (course home q started)).1 with
    | error f => exact ⟨f, rfl⟩
    | ok c =>
      obtain ⟨hrefusal, hwalk, -⟩ := course_eq_ok (Prod.ext hr rfl)
      exact absurd h (not_refused_iff.2 ⟨hrefusal, _, hwalk⟩)

/-! ### Dry runs -/

/-- A dry run takes no copies. -/
theorem dryRun_eq {c : Course} (hdry : q.dryRun = true)
    (hx : s.does (course home q started) = (.ok c, s')) : s' = s ∧ c.report.backupDir = none := by
  obtain ⟨hrefusal, hwalk, -⟩ := course_eq_ok hx
  rw [does_course_of_dryRun hdry hrefusal hwalk] at hx
  obtain ⟨hc, rfl⟩ := Prod.mk.inj hx
  rw [← Except.ok.inj hc]
  exact ⟨rfl, rfl⟩

theorem does_course_of_dryRun_congr (hdry : q.dryRun = true) (check : Option Check)
    (force : Bool) : s.does (course home { q with check, force } started) =
      s.does (course home q started) := by
  have hrefusal : { q with check, force }.refusal? = q.refusal? := by
    simp [Request.refusal?, hdry]
  have hwalk : walkOf s home { q with check, force } = walkOf s home q := rfl
  cases hr : q.refusal? with
  | some cause => simp only [does_course, hrefusal, hr]
  | none =>
    cases hw : walkOf s home q with
    | error f => simp only [does_course, hrefusal, hr, hwalk, hw]
    | ok walked =>
      rw [does_course_of_dryRun hdry hr hw,
        does_course_of_dryRun (q := { q with check, force }) hdry (hrefusal.trans hr) hw]
      rfl

/-- **A run that is refused and a dry run leave the system as it is**, its files and its list of
changes, in which every command that is started would stand. A run fails exactly if it is refused,
and a dry run does not even try to start its check. -/
theorem idle (s : Machine) (home : String) (q : Request) (started : Instant) :
    ((∃ f, (s.does (run home q started)).1 = .error f) ↔ Refused s home q) ∧
      (Refused s home q ∨ q.dryRun = true → (s.does (run home q started)).2 = s) ∧
      (q.dryRun = true → ∀ check force, s.does (run home { q with check, force } started) =
        s.does (run home q started)) := by
  refine ⟨?_, ?_, fun hdry check force => ?_⟩
  · have hcourse := @course_error_iff s q home started
    rw [← hcourse, does_run]
    constructor
    · rintro ⟨f, hf⟩
      cases hr : (s.does (course home q started)).1 with
      | error f => exact ⟨f, rfl⟩
      | ok c =>
        rw [hr] at hf
        cases hf
    · rintro ⟨f, hf⟩
      exact ⟨f, by rw [hf]; rfl⟩
  · intro h
    rw [does_run]
    by_cases hrefused : Refused s home q
    · obtain ⟨f, hf⟩ := course_error_iff.2 hrefused
      exact course_eq_error (Prod.ext hf rfl)
    · obtain ⟨hrefusal, walked, hwalk⟩ := not_refused_iff.1 hrefused
      exact congrArg Prod.snd
        (does_course_of_dryRun (h.resolve_left hrefused) hrefusal hwalk)
  · rw [does_run, does_run, does_course_of_dryRun_congr hdry]

/-- A forced run in two directories. -/
def forcedRequest : Request :=
  { sampleRequest "backups" with targets := ["src", "lib"], force := true }

/-- A dry run with a check. -/
def dryRequest : Request :=
  { sampleRequest "backups" with
    dryRun := true, check := some { command := ["make", "check"], timeout := 120000 } }

/-- On the first of the two systems the forced run is refused for the second of its targets, which
is missing. The dry run is not refused. -/
theorem idle_sample :
    (Refused sample "" forcedRequest ∧
      (sample.does (run "" forcedRequest sampleStart)).2 = sample) ∧
    ¬Refused sample "" dryRequest ∧
      (sample.does (run "" dryRequest sampleStart)).2 = sample := by
  have hrefused : Refused sample "" forcedRequest :=
    .noDirectory (by decide : "lib" ∈ forcedRequest.targets) (by decide +kernel)
  refine ⟨⟨hrefused, (idle _ _ _ _).2.1 (.inl hrefused)⟩, fun hdry => ?_,
    (idle _ _ _ _).2.1 (.inr rfl)⟩
  obtain ⟨f, hf⟩ := (idle sample "" dryRequest sampleStart).1.2 hdry
  have hok : (sample.does (run "" dryRequest sampleStart)).1.isOk = true := by decide +kernel
  rw [hf] at hok
  cases hok

end Run

end Renaming
