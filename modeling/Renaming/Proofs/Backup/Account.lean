import Mathlib.Data.List.Forall2
import Renaming.Proofs.Backup.Restore
import Renaming.Proofs.Machine.Growth
import Renaming.Proofs.Walk.Below

/-!
What bringing a backup back accounts for. Every copy in the manifest has its turn (`Turns`), whatever
came of the turns before it, and stands either with the files that were brought back or with the
errors. While copies are brought back the tree only grows, and nothing is written but the files that
the manifest names and directories on the way to them (`Underway`). A dry run promises no less than
what is then done (`restore_accounts`), as long as what is written stays out of the way of the copies.
-/

namespace Renaming

namespace Backup

open Machine

variable {s s' x y : Machine} {runDir : String} {c : Copy} {copies : List Copy}
  {r : Except Failure Unit}

/-! ### Turns -/

/-- A copy, with what came of bringing it back. -/
structure Turn where
  copy : Copy
  result : Except Failure Unit

/-- The file, if it was brought back. -/
def Turn.restored? (t : Turn) : Option String :=
  match t.result with
  | .ok _ => some t.copy.file
  | .error _ => none

/-- The error, if the file was not brought back. -/
def Turn.error? (t : Turn) : Option FileError :=
  match t.result with
  | .ok _ => none
  | .error f => some ⟨t.copy.file, f.oneLine⟩

@[simp] theorem Turn.restored?_ok (c : Copy) (u : Unit) :
    (⟨c, .ok u⟩ : Turn).restored? = some c.file := rfl

@[simp] theorem Turn.restored?_error (c : Copy) (f : Failure) :
    (⟨c, .error f⟩ : Turn).restored? = none := rfl

@[simp] theorem Turn.error?_ok (c : Copy) (u : Unit) : (⟨c, .ok u⟩ : Turn).error? = none := rfl

@[simp] theorem Turn.error?_error (c : Copy) (f : Failure) :
    (⟨c, .error f⟩ : Turn).error? = some ⟨c.file, f.oneLine⟩ := rfl

/-- What came of bringing a backup back in some turns. -/
def Restored.ofTurns (runDir : String) (dryRun : Bool) (turns : List Turn) : Restored where
  runDir
  dryRun
  files := turns.filterMap Turn.restored?
  errors := turns.filterMap Turn.error?

/-- Copies are brought back one after the other, each in the state that the ones before it have
left. -/
inductive Turns (runDir : String) (dryRun : Bool) : Machine → List Turn → Machine → Prop
  | nil (s : Machine) : Turns runDir dryRun s [] s
  | cons {s y z : Machine} {c : Copy} {r : Except Failure Unit} {rest : List Turn}
    (turn : s.does (restoreCopy runDir dryRun c) = (r, y)) (next : Turns runDir dryRun y rest z) :
    Turns runDir dryRun s (⟨c, r⟩ :: rest) z

theorem exists_turns (copies : List Copy) (x : Restored) (s : Machine) :
    ∃ turns s', Turns x.runDir x.dryRun s turns s' ∧ turns.map Turn.copy = copies ∧
      s.does (restoreAll copies x) =
        ({ x with files := x.files ++ turns.filterMap Turn.restored?
                  errors := x.errors ++ turns.filterMap Turn.error? }, s') := by
  induction copies generalizing x s with
  | nil => exact ⟨[], s, .nil s, rfl, by simp [restoreAll]⟩
  | cons c copies ih =>
    cases hturn : s.does (restoreCopy x.runDir x.dryRun c) with
    | mk r y =>
    cases r with
    | error f =>
      obtain ⟨turns, s', hturns, hcopies, hrest⟩ :=
        ih { x with errors := x.errors ++ [⟨c.file, f.oneLine⟩] } y
      refine ⟨⟨c, .error f⟩ :: turns, s', .cons hturn hturns, by rw [List.map_cons, hcopies], ?_⟩
      rw [restoreAll, does_bind, hturn]
      refine hrest.trans ?_
      simp [List.filterMap_cons]
    | ok =>
      obtain ⟨turns, s', hturns, hcopies, hrest⟩ :=
        ih { x with files := x.files ++ [c.file] } y
      refine ⟨⟨c, .ok ()⟩ :: turns, s', .cons hturn hturns, by rw [List.map_cons, hcopies], ?_⟩
      rw [restoreAll, does_bind, hturn]
      refine hrest.trans ?_
      simp [List.filterMap_cons]

theorem reads_loadManifest (runDir : String) :
    Reads (loadManifest runDir : StateM Machine _) := by
  unfold loadManifest
  refine (reads_readText _).bind fun r => ?_
  split
  · exact reads_pure _
  · split <;> exact reads_pure _

/-- Where the manifest can be loaded, what comes of bringing the backup back is what came of the
turns of its copies. -/
theorem exists_turns_of_restore {m : Manifest}
    (hload : (s.does (loadManifest runDir)).1 = .ok m) (dryRun : Bool) :
    ∃ turns s', Turns runDir dryRun s turns s' ∧ turns.map Turn.copy = m.copies ∧
      s.does (restore runDir dryRun) = (.ok (.ofTurns runDir dryRun turns), s') := by
  obtain ⟨turns, s', hturns, hcopies, hall⟩ := exists_turns m.copies { runDir, dryRun } s
  refine ⟨turns, s', hturns, hcopies, ?_⟩
  rw [restore, does_bind, reads_loadManifest, hload]
  dsimp only
  rw [does_bind, hall]
  simp [Restored.ofTurns]

/-! ### One turn -/

theorem restoreCopy_of_dryRun (h : s.does (restoreCopy runDir true c) = (r, y)) :
    y = s ∧ ((∃ f, r = .error f) ↔ ∃ e, s.read (Path.join runDir c.backup) = .error e) := by
  unfold restoreCopy at h
  dsimp only at h
  rw [does_bind, Files.readBytes, does_bind, does_read] at h
  cases hread : s.read (Path.join runDir c.backup) with
  | error e =>
    rw [hread] at h
    cases h
    exact ⟨rfl, fun _ => ⟨e, rfl⟩, fun _ => ⟨_, rfl⟩⟩
  | ok b =>
    rw [hread] at h
    cases h
    refine ⟨rfl, ?_, ?_⟩
    · rintro ⟨f, hf⟩
      cases hf
    · rintro ⟨e, he⟩
      cases he

theorem restoreCopy_cases (h : s.does (restoreCopy runDir false c) = (r, y)) :
    (y = s ∧ ∃ f, r = .error f) ∨
      ∃ b, s.read (Path.join runDir c.backup) = .ok b ∧ Creates s c.file b r y := by
  unfold restoreCopy at h
  dsimp only at h
  rw [does_bind, Files.readBytes, does_bind, does_read] at h
  cases hread : s.read (Path.join runDir c.backup) with
  | error e =>
    rw [hread] at h
    cases h
    exact .inl ⟨rfl, _, rfl⟩
  | ok b =>
    rw [hread] at h
    exact .inr ⟨b, rfl, creates_of_writeCreating h⟩

/-! ### What is written -/

/-- A state in which some copies may have been brought back: the tree has only grown, and what has
changed in it is the file of one of the copies, or a directory on the way to it. -/
structure Underway (copies : List Copy) (s x : Machine) : Prop where
  ordered : x.Ordered
  scene : x.toScene = s.toScene
  grows : s.tree.Grows x.tree
  written : ∀ p, x.tree.get? p ≠ s.tree.get? p → ∃ c ∈ copies, Written s x c.file p

namespace Underway

theorem start (hs : s.Ordered) (copies : List Copy) : Underway copies s s :=
  ⟨hs, rfl, .refl _, fun _ h => absurd rfl h⟩

/-- One more file is written. -/
theorem create {b : ByteArray} (h : Underway copies s x) (hc : c ∈ copies)
    (hcreate : Creates x c.file b r y) : Underway copies s y := by
  obtain ⟨hy, hgrows, hchange⟩ := hcreate.grows h.ordered
  refine ⟨hy, hcreate.scene.trans h.scene, h.grows.trans hgrows, fun p hp => ?_⟩
  by_cases hold : x.tree.get? p = s.tree.get? p
  · refine ⟨c, hc, ?_⟩
    rw [← hold] at hp
    cases hchange p hp with
    | file h => exact .file h
    | above hus hnone hdir hgo => exact .above hus (hold ▸ hnone) hdir hgo
  · obtain ⟨c', hc', hwritten⟩ := h.written p hold
    exact ⟨c', hc', hwritten.mono h.ordered hgrows hcreate.scene⟩

theorem turn (h : Underway copies s x) (hc : c ∈ copies)
    (hturn : x.does (restoreCopy runDir false c) = (r, y)) : Underway copies s y := by
  rcases restoreCopy_cases hturn with ⟨rfl, -⟩ | ⟨b, -, hcreate⟩
  · exact h
  · exact h.create hc hcreate

theorem turns {turns : List Turn} (h : Underway copies s x) (hc : ∀ t ∈ turns, t.copy ∈ copies)
    (hturns : Turns runDir false x turns y) : Underway copies s y := by
  induction hturns with
  | nil => exact h
  | cons hturn _ ih =>
    exact ih (h.turn (hc _ List.mem_cons_self) hturn)
      fun t ht => hc t (List.mem_cons_of_mem _ ht)

theorem none_of_stops {p : Place} (h : Underway copies s x) (hs : s.Ordered)
    (hstops : ∀ c ∈ copies, p ∉ s.stops c.file) (hnone : s.tree.get? p = none) :
    x.tree.get? p = none := by
  cases hp : x.tree.get? p with
  | none => rfl
  | some n =>
    obtain ⟨c, hc, hwritten⟩ := h.written p (by simp [hnone, hp])
    exact absurd (hwritten.mem_stops hs h.grows h.scene) (hstops c hc)

end Underway

/-! ### Dry runs -/

theorem Turns.of_dryRun {turns : List Turn} (h : Turns runDir true s turns y) :
    y = s ∧ ∀ t ∈ turns, (∃ f, t.result = .error f) ↔
      ∃ e, s.read (Path.join runDir t.copy.backup) = .error e := by
  induction h with
  | nil => exact ⟨rfl, nofun⟩
  | cons hturn _ ih =>
    obtain ⟨rfl, hresult⟩ := restoreCopy_of_dryRun hturn
    obtain ⟨rfl, hrest⟩ := ih
    refine ⟨rfl, fun t ht => ?_⟩
    rcases List.mem_cons.1 ht with rfl | ht
    · exact hresult
    · exact hrest t ht

/-- A turn of a dry run promises what is done in a turn for the same copy. -/
def Promises (real dry : Turn) : Prop :=
  dry.copy = real.copy ∧ ((∃ f, dry.result = .error f) → ∃ f, real.result = .error f)

theorem sublist_of_promises {real dry : List Turn} (h : List.Forall₂ Promises real dry) :
    (real.filterMap Turn.restored?).Sublist (dry.filterMap Turn.restored?) := by
  induction h with
  | nil => exact List.Sublist.refl _
  | @cons t d _ _ hpromise _ ih =>
    obtain ⟨c, r⟩ := t
    obtain ⟨c', r'⟩ := d
    obtain ⟨hcopy, hresult⟩ := hpromise
    cases hcopy
    cases r' with
    | error f' =>
      obtain ⟨f, rfl⟩ := hresult ⟨f', rfl⟩
      simpa [List.filterMap_cons] using ih
    | ok u' =>
      cases r with
      | ok u => simpa [List.filterMap_cons] using ih
      | error f => simpa [List.filterMap_cons] using ih.cons _

/-- What is written keeps out of the way of the copies that are missing: no path to a file comes by
a place that is missing first on the way to a copy. -/
def KeepsOut (s : Machine) (runDir : String) (copies : List Copy) : Prop :=
  ∀ c ∈ copies, ∀ c' ∈ copies, ∀ p ∈ (s.stops (Path.join runDir c.backup)).head?,
    s.tree.get? p = none → p ∉ s.stops c'.file

theorem Underway.error_of_read {e : SystemError} (h : Underway copies s x) (hs : s.Ordered)
    (hout : KeepsOut s runDir copies) (hc : c ∈ copies)
    (hread : s.read (Path.join runDir c.backup) = .error e)
    (hturn : x.does (restoreCopy runDir false c) = (r, y)) : ∃ f, r = .error f := by
  rcases restoreCopy_cases hturn with ⟨-, hf⟩ | ⟨b, hb, -⟩
  · exact hf
  · obtain ⟨b', hb'⟩ := exists_read_of_grows h.grows h.scene hb fun p hp hnone =>
      h.none_of_stops hs (fun c' hc' => hout c hc c' hc' p hp hnone) hnone
    rw [hb'] at hread
    cases hread

theorem Underway.promises {real dry : List Turn} (h : Underway copies s x) (hs : s.Ordered)
    (hout : KeepsOut s runDir copies) (hreal : Turns runDir false x real y)
    (hcopies : ∀ t ∈ real, t.copy ∈ copies) (hsame : dry.map Turn.copy = real.map Turn.copy)
    (hdry : ∀ t ∈ dry, (∃ f, t.result = .error f) →
      ∃ e, s.read (Path.join runDir t.copy.backup) = .error e) :
    List.Forall₂ Promises real dry := by
  induction hreal generalizing dry with
  | nil =>
    cases List.map_eq_nil_iff.1 hsame
    exact .nil
  | @cons x y z c r rest hturn _ ih =>
    obtain ⟨d, ds, rfl, hd, hds⟩ := List.map_eq_cons_iff.1 hsame
    have hc : c ∈ copies := hcopies _ List.mem_cons_self
    refine .cons ⟨hd, fun herror => ?_⟩ (ih (h.turn hc hturn)
      (fun t ht => hcopies t (List.mem_cons_of_mem _ ht)) hds
      fun t ht => hdry t (List.mem_cons_of_mem _ ht))
    obtain ⟨e, hread⟩ := hdry d List.mem_cons_self herror
    rw [hd] at hread
    exact h.error_of_read hs hout hc hread hturn

/-! ### The account -/

/-- What a dry run and bringing a backup back account for: `dry` and `real` are the turns of the
copies in both, and `s'` is the state in the end. -/
structure Account (s : Machine) (runDir : String) (copies : List Copy) (dry real : List Turn)
    (s' : Machine) : Prop where
  /-- A dry run changes nothing. -/
  dryRun : s.does (restore runDir true) = (.ok (.ofTurns runDir true dry), s)
  realRun : s.does (restore runDir false) = (.ok (.ofTurns runDir false real), s')
  /-- Every copy has its turn in a dry run, in the order of the manifest. -/
  dryTurns : Turns runDir true s dry s ∧ dry.map Turn.copy = copies
  /-- Every copy has its turn when the backup is brought back, in the order of the manifest. -/
  realTurns : Turns runDir false s real s' ∧ real.map Turn.copy = copies
  /-- Nothing changes but the files of the copies and missing directories above them. -/
  written : ∀ p, s'.tree.get? p ≠ s.tree.get? p → ∃ c ∈ copies, Written s s' c.file p
  /-- A dry run goes wrong for the copies that cannot be read. -/
  unread : ∀ t ∈ dry, (∃ f, t.result = .error f) ↔
    ∃ e, s.read (Path.join runDir t.copy.backup) = .error e
  /-- What is brought back was promised, if there is a directory, such as that of the run, in which
  neither the files nor missing directories above them lie, but all copies that are missing. -/
  promised : ∀ d : Place, (∀ c ∈ copies, ∀ p ∈ s.stops c.file, ¬d <+: p) →
    (∀ c ∈ copies, ∀ p ∈ (s.stops (Path.join runDir c.backup)).head?,
      s.tree.get? p = none → d <+: p) →
    (Restored.ofTurns runDir false real).files.Sublist (Restored.ofTurns runDir true dry).files

/-- **Bringing a backup back accounts for every copy.** Wherever the manifest can be loaded, every
copy has its turn and stands either with the files that were brought back or with the errors; a dry
run changes nothing, and otherwise only the files of the manifest and missing directories above them
are written. A dry run goes wrong for the copies that cannot be read, and it promises all that is
then brought back, if the files lie outside of a directory in which the missing copies lie. -/
theorem restore_accounts {m : Manifest} (hs : s.Ordered)
    (hload : (s.does (loadManifest runDir)).1 = .ok m) :
    ∃ dry real s', Account s runDir m.copies dry real s' := by
  obtain ⟨dry, y, hdry, hdrySame, hdryRun⟩ := exists_turns_of_restore hload true
  obtain ⟨real, s', hreal, hrealSame, hrealRun⟩ := exists_turns_of_restore hload false
  obtain ⟨rfl, hunread⟩ := hdry.of_dryRun
  have hcopies : ∀ t ∈ real, t.copy ∈ m.copies := fun t ht =>
    hrealSame ▸ List.mem_map_of_mem ht
  refine ⟨dry, real, s', hdryRun, hrealRun, ⟨hdry, hdrySame⟩, ⟨hreal, hrealSame⟩,
    ((Underway.start hs m.copies).turns hcopies hreal).written, hunread, fun d hfile hcopy => ?_⟩
  have hout : KeepsOut y runDir m.copies := fun c hc c' hc' p hp hnone hmem =>
    hfile c' hc' p hmem (hcopy c hc p hp hnone)
  exact sublist_of_promises ((Underway.start hs m.copies).promises hs hout hreal hcopies
    (hdrySame.trans hrealSame.symm) fun t ht => (hunread t ht).1)

/-- A system with the backup of a run, which holds one copy, and with a file of its own. -/
def shed (copies : List Copy) : Machine where
  tree := ⟨[(["b"], .directory), (["b", "1"], .directory), (["f"], .file "f".toUTF8),
    (["b", "1", "manifest.json"], .file (⟨"now", copies⟩ : Manifest).text.toUTF8),
    (["b", "1", "a"], .file "a".toUTF8)]⟩
  here := []
  programs := .none

/-- The files that are brought back there. -/
def shedFiles (copies : List Copy) (dryRun : Bool) : Option (List String) :=
  ((shed copies).does (restore "b/1" dryRun)).1.toOption.map Restored.files

theorem does_loadManifest_shed (copies : List Copy) :
    (shed copies).does (loadManifest "b/1") = (.ok ⟨"now", copies⟩, shed copies) :=
  does_loadManifest_of_read (by with_unfolding_all rfl)

theorem shedFiles_eq (copies : List Copy) (dryRun : Bool) : shedFiles copies dryRun =
    some ((shed copies).does (restoreAll copies { runDir := "b/1", dryRun })).1.files := by
  rw [shedFiles, restore, does_bind, does_loadManifest_shed]
  rfl

/-- Copies of four files: one in directories that are missing, one whose copy is missing, one below
another file, and this other file. -/
def shedCopies : List Copy :=
  [⟨"a", "/out/new/x"⟩, ⟨"gone", "/y"⟩, ⟨"a", "/f/z"⟩, ⟨"a", "/f"⟩]

/-- There the dry run promises three files, and two of them are brought back. -/
theorem restore_accounts_shed :
    ∃ dry real s', Account (shed shedCopies) "b/1" shedCopies dry real s' ∧
      (Restored.ofTurns "b/1" true dry).files = ["/out/new/x", "/f/z", "/f"] ∧
      (Restored.ofTurns "b/1" false real).files = ["/out/new/x", "/f"] ∧
      (Restored.ofTurns "b/1" false real).files.Sublist
        (Restored.ofTurns "b/1" true dry).files := by
  have hordered : (shed shedCopies).Ordered := by decide +kernel
  obtain ⟨dry, real, s', h⟩ := restore_accounts hordered
    (congrArg Prod.fst (does_loadManifest_shed shedCopies))
  have hdry : shedFiles shedCopies true = some ["/out/new/x", "/f/z", "/f"] := by
    rw [shedFiles_eq]
    decide +kernel
  have hreal : shedFiles shedCopies false = some ["/out/new/x", "/f"] := by
    rw [shedFiles_eq]
    decide +kernel
  rw [shedFiles, h.dryRun] at hdry
  rw [shedFiles, h.realRun] at hreal
  refine ⟨dry, real, s', h, Option.some.inj hdry, Option.some.inj hreal,
    h.promised ["b", "1"] ?_ ?_⟩
  · decide +kernel
  · decide +kernel

/-- **What is brought back need not have been promised**, although no file of the manifest lies in
the directory of the run: a copy can be missing outside of it, where an earlier file is brought
back, and directories that are made above an earlier file can complete the way to a copy. -/
theorem not_sublist_shed :
    let beside : List Copy := [⟨"a", "/out/b"⟩, ⟨"../../out/b", "/out/c"⟩]
    let above : List Copy := [⟨"a", "/b/1/sub/../../../x"⟩, ⟨"sub/../a", "/y"⟩]
    ((∀ c ∈ beside, ∀ p ∈ (shed beside).stops c.file, ¬["b", "1"] <+: p) ∧
      shedFiles beside true = some ["/out/b"] ∧
      shedFiles beside false = some ["/out/b", "/out/c"]) ∧
    (∀ c ∈ above, ∀ p ∈ ((shed above).stops c.file).getLast?, ¬["b", "1"] <+: p) ∧
      (∀ c ∈ above, ∀ p ∈ ((shed above).stops (Path.join "b/1" c.backup)).head?,
        (shed above).tree.get? p = none → ["b", "1"] <+: p) ∧
      shedFiles above true = some ["/b/1/sub/../../../x"] ∧
      shedFiles above false = some ["/b/1/sub/../../../x", "/y"] := by
  simp only [shedFiles_eq]
  decide +kernel

end Backup

end Renaming
