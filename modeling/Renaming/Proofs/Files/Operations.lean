import Renaming.Files.Operations
import Renaming.Proofs.Machine.Along

/-!
The operations that take several requests. `Paved` says that directories were made where the first
names of a path led to nothing yet; `founds_of_makeDirs` says that making a directory with those
above it does this and makes the directory, unless it is there. The other lemmas say the same of
writing into a directory that may be missing, and which two requests make up a write that leaves no
half-written file.
-/

namespace Renaming

open Renaming.Path (names)

namespace Machine

variable {s x y x' : Machine} {path dir : String} {p d : Place} {us vs : List String}
  {start : Place} {n : Node}

/-! ### Making directories -/

/-- From one state to another by making directories at vacant places to which the first of some
names lead. -/
inductive Paved (us : List String) (start : Place) (x : Machine) : Machine → Prop
  | refl : Paved us start x x
  | later {y : Machine} (h : Paved us start x y) : Paved us start x y.later
  | makeDir {y : Machine} {vs : List String} {p : Place} (h : Paved us start x y) (hvs : vs <+: us)
    (hseg : ∀ v ∈ vs, Path.IsSegment v)
    (hv : y.tree.follow y.look false maxLinks false start vs = .ok (.vacant p)) :
    Paved us start x (y.perform (.makeDir p))

namespace Paved

theorem trans (h : Paved us start x y) (h' : Paved us start y x') : Paved us start x x' := by
  induction h' with
  | refl => exact h
  | later _ ih => exact ih.later
  | makeDir _ hvs hseg hv ih => exact ih.makeDir hvs hseg hv

theorem mono (hus : us <+: vs) (h : Paved us start x y) : Paved vs start x y := by
  induction h with
  | refl => exact .refl
  | later _ ih => exact ih.later
  | makeDir _ hvs hseg hv ih => exact ih.makeDir (hvs.trans hus) hseg hv

theorem scene (h : Paved us start x y) : y.toScene = x.toScene := by
  induction h with
  | refl => rfl
  | later _ ih | makeDir _ _ _ _ ih => exact ih

theorem changes (h : Paved us start x y) : ∃ cs, y.changes = x.changes ++ cs := by
  induction h with
  | refl => exact ⟨[], (List.append_nil _).symm⟩
  | later _ ih => exact ih
  | makeDir _ _ _ _ ih =>
    obtain ⟨cs, hcs⟩ := ih
    exact ⟨cs ++ [_], by rw [changes_perform, hcs, List.append_assoc]⟩

/-- What making directories leaves: a system in order, all that was there, and besides it
directories to which first names of the path lead. -/
theorem result (hs : x.Ordered) (hstart : x.tree.get? start = some .directory)
    (h : Paved us start x y) : y.Ordered ∧ x.tree.Within y.tree ∧
      ∀ p n, x.tree.get? p = none → y.tree.get? p = some n → n = .directory ∧
        ∃ vs L m, vs <+: us ∧
          y.tree.Goes y.look ⟨maxLinks, false, start, vs⟩ ⟨L, m, p, []⟩ := by
  induction h with
  | refl => exact ⟨hs, .refl _, fun p n hp hn => by rw [hp] at hn; cases hn⟩
  | later _ ih => exact ⟨ih.1.later, ih.2⟩
  | @makeDir y vs p _ hvs hseg hv ih =>
    obtain ⟨hy, hwithin, hnew⟩ := ih
    obtain ⟨hroom, hnone⟩ := Tree.vacant_of_follow hy.tree (fun _ _ => size_le_of_look)
      (hwithin _ _ hstart) hseg hv
    have hput : y.tree.Within (y.tree.put p .directory) := .put hroom.ne_nil hnone
    refine ⟨hy.makeDir hroom hnone, hwithin.trans hput, fun q n hq hn => ?_⟩
    rw [tree_perform, Change.apply, Tree.get?_put _ _ _ _ hroom.ne_nil] at hn
    split at hn
    next heq =>
      obtain ⟨L, m, hgo⟩ := Tree.goes_put hroom.ne_nil hv
      exact ⟨(Option.some.inj hn).symm, vs, L, m, hvs, heq ▸ hgo⟩
    next =>
      obtain ⟨hdir, ws, L, m, hws, hgo⟩ := hnew q n hq hn
      exact ⟨hdir, ws, L, m, hws, hgo.mono (.of_within hput)⟩

end Paved

theorem paved_of_makeDir (hus : names path <+: us) (hstart : startOf x.here path = start)
    (h : x.reach false false path = .ok (.vacant p)) :
    Paved us start x (x.later.perform (.makeDir p)) := by
  obtain ⟨hnul, -, h⟩ := reach_eq_ok h
  exact .makeDir (.later .refl) hus (fun _ => Path.isSegment_of_mem_names hnul) (hstart ▸ h)

theorem does_isDir {b : Bool} (h : x.does (Files.isDir path) = (b, x')) :
    x' = x ∧ (b = true ↔ Fits path ∧ ∃ d, x.Leads path d) := by
  simp only [Files.isDir, bind_pure_comp, does_map, does_kind?, Prod.mk.injEq] at h
  exact ⟨h.2.symm, by rw [← h.1, beq_iff_eq, kind?_eq_directory_iff]⟩

/-- What is no error only because a directory is there already. -/
theorem does_unless_isDir {e : SystemError} {r : Except SystemError Unit}
    (h : x.does (do if ← Files.isDir path then return .ok () else return .error e) = (r, x')) :
    x' = x ∧ (r = .ok () → Fits path ∧ ∃ d, x.Leads path d) := by
  obtain ⟨b, x₁, hdir, h⟩ := does_bind_eq_iff.1 h
  obtain ⟨rfl, hb⟩ := does_isDir hdir
  cases b with
  | true =>
    cases h
    exact ⟨rfl, fun _ => hb.1 rfl⟩
  | false =>
    cases h
    exact ⟨rfl, fun h => nomatch h⟩

theorem startOf_parent {parent : String} (h : Path.parent? path = some parent) (here : Place) :
    startOf here parent = startOf here path := by
  obtain ⟨-, hsame, hempty⟩ := Path.names_parent? h
  rw [startOf_eq, startOf_eq]
  by_cases he : parent = ""
  · rw [hempty he, he]
    rfl
  · rw [hsame he]

/-- Directories are made on the way of a path, and then the last one; or the last one is not made,
and it is there if nothing has gone wrong. -/
inductive Founds (x : Machine) (path : String) : Except SystemError Unit → Machine → Prop
  | made {y : Machine} {p : Place} (paved : Paved (names path).dropLast (startOf x.here path) x y)
    (vacant : y.reach false false path = .ok (.vacant p)) :
    Founds x path (.ok ()) (y.later.perform (.makeDir p))
  | unmade {r : Except SystemError Unit} {y : Machine}
    (paved : Paved (names path).dropLast (startOf x.here path) x y)
    (there : r = .ok () → path = "" ∨ Fits path ∧ ∃ d, y.Leads path d) : Founds x path r y

/-- The parent of a path lies on the way of the path. -/
theorem Founds.paved_of_parent {parent : String} {r : Except SystemError Unit}
    (hparent : Path.parent? path = some parent) (h : Founds x parent r x') :
    Paved (names path).dropLast (startOf x.here path) x x' := by
  have hnames := (Path.names_parent? hparent).1
  have hinit := (List.dropLast_prefix (names parent)).trans hnames
  cases h with
  | made paved vacant =>
    rw [startOf_parent hparent] at paved
    refine (paved.mono hinit).trans (paved_of_makeDir hnames ?_ vacant)
    rw [paved.scene, startOf_parent hparent]
  | unmade paved _ =>
    rw [startOf_parent hparent] at paved
    exact paved.mono hinit

/-- What making a directory with those above it does. -/
theorem founds_of_makeDirs {fuel : Nat} {r : Except SystemError Unit}
    (h : x.does (Files.makeDirs fuel path) = (r, x')) : Founds x path r x' := by
  induction fuel generalizing path x x' r with
  | zero =>
    cases h
    exact .unmade .refl nofun
  | succ fuel ih =>
    rw [Files.makeDirs] at h
    split at h
    next hempty =>
      cases h
      exact .unmade .refl fun _ => .inl (String.isEmpty_iff.1 hempty)
    obtain ⟨r₁, x₁, hmake, h⟩ := does_bind_eq_iff.1 h
    split at h
    next =>
      cases h
      obtain ⟨p, hp, rfl⟩ := makeDir_ok hmake
      exact .made .refl hp
    next =>
      cases makeDir_error hmake
      split at h
      next =>
        cases h
        exact .unmade (.later .refl) nofun
      next parent hparent =>
        obtain ⟨r₂, x₂, hparents, h⟩ := does_bind_eq_iff.1 h
        have hpaved := Paved.trans (.later .refl) ((ih hparents).paved_of_parent hparent)
        split at h
        next =>
          cases h
          exact .unmade hpaved nofun
        next =>
          obtain ⟨r₃, x₃, hmake, h⟩ := does_bind_eq_iff.1 h
          split at h
          next =>
            cases h
            obtain ⟨p, hp, rfl⟩ := makeDir_ok hmake
            exact .made hpaved hp
          next =>
            cases makeDir_error hmake
            obtain ⟨rfl, hdir⟩ := does_unless_isDir h
            exact .unmade hpaved.later fun hr => .inr (hdir hr)
    next =>
      cases makeDir_error hmake
      obtain ⟨rfl, hdir⟩ := does_unless_isDir h
      exact .unmade (.later .refl) fun hr => .inr (hdir hr)

/-! ### Writing -/

theorem mapError_ok {ε ε' α : Type} (f : ε → ε') (a : α) :
    (Except.ok a).mapError f = .ok a := rfl

theorem mapError_error {ε ε' α : Type} (f : ε → ε') (e : ε) :
    (Except.error e : Except ε α).mapError f = .error (f e) := rfl

theorem mapError_eq_ok_iff {ε ε' α : Type} {f : ε → ε'} {r : Except ε α} {a : α} :
    r.mapError f = .ok a ↔ r = .ok a := by
  cases r <;> simp [mapError_ok, mapError_error]

theorem createDir_eq {operation : String} {r : Except Failure Unit}
    (h : x.does (Files.createDir path operation) = (r, x')) :
    ∃ r', x.does (Files.makeDirs (path.length + 1) path) = (r', x') ∧
      r = r'.mapError (Files.failure operation) := by
  simp only [Files.createDir, bind_pure_comp, does_map, Prod.mk.injEq] at h
  exact ⟨_, Prod.ext rfl h.2, h.1.symm⟩

theorem writeText_eq {text operation : String} {r : Except Failure Unit}
    (h : x.does (Files.writeText path text operation) = (r, x')) :
    ∃ r', x.write path text.toUTF8 = (r', x') ∧ r = r'.mapError (Files.failure operation) := by
  simp only [Files.writeText, bind_pure_comp, does_map, does_write, Prod.mk.injEq] at h
  exact ⟨_, Prod.ext rfl h.2, h.1.symm⟩

/-- Making the folder of a path makes directories on the way of the path. -/
theorem paved_of_makeFolder {operation : String → String} {r : Except Failure Unit}
    (h : x.does (Files.makeFolder path operation) = (r, x')) :
    Paved (names path).dropLast (startOf x.here path) x x' := by
  unfold Files.makeFolder at h
  split at h
  next parent hfolder =>
    obtain ⟨r', h, -⟩ := createDir_eq h
    exact (founds_of_makeDirs h).paved_of_parent (Option.filter_eq_some_iff.1 hfolder).1
  next =>
    cases h
    exact .refl

/-- Directories are made on the way of a path, and then a file is written there, unless something
goes wrong before. -/
inductive Creates (x : Machine) (path : String) (bytes : ByteArray) :
    Except Failure Unit → Machine → Prop
  | unwritten {y : Machine} {f : Failure}
    (paved : Paved (names path).dropLast (startOf x.here path) x y) :
    Creates x path bytes (.error f) y
  | written {y x' : Machine} {r : Except SystemError Unit} {operation : String}
    (paved : Paved (names path).dropLast (startOf x.here path) x y)
    (write : y.write path bytes = (r, x')) :
    Creates x path bytes (r.mapError (Files.failure operation)) x'

/-- What writing a file into a directory that may be missing does. -/
theorem creates_of_writeCreating {bytes : ByteArray} {operation : String} {r : Except Failure Unit}
    (h : x.does (Files.writeCreating path bytes operation) = (r, x')) :
    Creates x path bytes r x' := by
  obtain ⟨r₁, y, hfolder, h⟩ := does_bind_eq_iff.1 h
  have hpaved := paved_of_makeFolder hfolder
  split at h
  next f =>
    cases h
    exact .unwritten hpaved
  next =>
    simp only [bind_pure_comp, does_map, does_write, Prod.mk.injEq] at h
    obtain ⟨rfl, hwrite⟩ := h
    exact .written hpaved (Prod.ext rfl hwrite)

theorem Creates.changes {bytes : ByteArray} {r : Except Failure Unit}
    (h : Creates x path bytes r x') : ∃ cs, x'.changes = x.changes ++ cs := by
  cases h with
  | unwritten paved => exact paved.changes
  | written paved write =>
    obtain ⟨cs, hcs⟩ := paved.changes
    obtain ⟨cs', hcs'⟩ := changes_write write
    exact ⟨cs ++ cs', by rw [hcs', hcs, List.append_assoc]⟩

theorem toScene_write {bytes : ByteArray} {r : Except SystemError Unit}
    (h : x.write path bytes = (r, x')) : x'.toScene = x.toScene := by
  rcases write_cases h with ⟨rfl, -⟩ | ⟨v, b, -, -, -, rfl⟩
  · rfl
  · rfl

theorem Creates.scene {bytes : ByteArray} {r : Except Failure Unit}
    (h : Creates x path bytes r x') : x'.toScene = x.toScene := by
  cases h with
  | unwritten paved => exact paved.scene
  | written paved write => exact (toScene_write write).trans paved.scene

/-- Writing a file into a directory below which there are no links changes nothing else. -/
theorem Creates.frame {name : String} {bytes : ByteArray} {r : Except Failure Unit}
    (hx : x.Ordered) (hd : x.Leads dir d)
    (hlink : ∀ p target, d <+: p → x.tree.get? p ≠ some (.link target)) (hname : Path.IsPlain name)
    (h : Creates x (Path.join dir name) bytes r x') : x'.Ordered ∧ x.tree.Holds x'.tree ∧
      ∀ p n, p ≠ d ++ [name] → x.tree.get? p = some n → x'.tree.get? p = some n := by
  have hpaved : ∀ {y}, Paved (names (Path.join dir name)).dropLast
      (startOf x.here (Path.join dir name)) x y → y.Ordered ∧ x.tree.Within y.tree ∧
        ∀ p target, d <+: p → y.tree.get? p ≠ some (.link target) := by
    intro y hpaved
    obtain ⟨hy, hwithin, hnew⟩ := hpaved.result hx (hx.start _)
    refine ⟨hy, hwithin, fun p target hle hp => ?_⟩
    cases hold : x.tree.get? p with
    | none => cases (hnew p _ hold hp).1
    | some n =>
      cases (hwithin p n hold).symm.trans hp
      exact hlink p target hle hold
  cases h with
  | unwritten paved =>
    obtain ⟨hy, hwithin, -⟩ := hpaved paved
    exact ⟨hy, .of_within hwithin, fun p n _ hp => hwithin p n hp⟩
  | @written y x' r operation paved write =>
    obtain ⟨hy, hwithin, hlink⟩ := hpaved paved
    rcases write_cases write with ⟨rfl, -⟩ | ⟨v, b, -, hv, -, rfl⟩
    · exact ⟨hy.later, .of_within hwithin, fun p n _ hp => hwithin p n hp⟩
    · obtain ⟨hroom, hfile⟩ := room_of_aim hy hv
      have hplace := (hd.mono paved.scene (.of_within hwithin)).aim_join hy hlink hname.isWay hv
      rw [hname.names] at hplace
      refine ⟨hy.later.write hroom hfile, (Tree.Holds.of_within hwithin).trans
        (.put hroom.ne_nil hfile), fun p n hne hp => ?_⟩
      refine (Tree.get?_put y.tree v p _ hroom.ne_nil).trans ?_
      rw [if_neg (hplace ▸ hne)]
      exact hwithin p n hp

/-- Writing a file as a whole is writing a draft beside its place and then moving the draft. -/
theorem writeWhole_cases {name text operation : String} {r : Except Failure Unit}
    (hdir : Path.IsTidy dir) (hname : Path.IsPlain name)
    (h : x.does (Files.writeWhole (Path.join dir name) text operation) = (r, x')) :
    ∃ r₁ y, x.write (Path.join dir (name ++ ".tmp")) text.toUTF8 = (r₁, y) ∧
      ((x' = y ∧ ∃ f, r = .error f) ∨ (r₁ = .ok () ∧ ∃ r₂,
        y.rename (Path.join dir (name ++ ".tmp")) (Path.join dir name) = (r₂, x') ∧
          (r = .ok () ↔ r₂ = .ok ()))) := by
  rw [Files.writeWhole, Path.parent?_join hdir hname, Path.fileName?_join hdir hname] at h
  obtain ⟨r₁, y, hwrite, h⟩ := does_bind_eq_iff.1 h
  refine ⟨r₁, y, hwrite, ?_⟩
  split at h
  next =>
    cases h
    exact .inl ⟨rfl, _, rfl⟩
  next =>
    simp only [bind_pure_comp, does_map, does_rename, Prod.mk.injEq] at h
    exact .inr ⟨rfl, _, Prod.ext rfl h.2, by rw [← h.1, mapError_eq_ok_iff]⟩

end Machine

end Renaming
