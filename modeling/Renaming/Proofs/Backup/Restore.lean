import Renaming.Backup.Restore
import Renaming.Proofs.Backup.Kept
import Renaming.Proofs.Backup.Manifest

/-!
Bringing a backup back, when no request goes wrong. `Back` describes the trees on the way, with the
copies that are still to be brought back; bringing back one copy takes it off the list (`Back.put`),
and where the list is empty, all is as it was when the run started (`Back.within`).
-/

namespace Renaming

open Renaming.Path (names)

namespace Machine

variable {s : Machine} {path : String} {p d : Place} {n : Node} {b : ByteArray}

theorem later_eq (h : s.mishaps = []) : s.later = s := by
  cases s
  cases h
  rfl

theorem does_createDir (hm : s.mishaps = []) (hfits : Fits path) (hd : s.Leads path d)
    (operation : String) : s.does (Files.createDir path operation) = (.ok (), s) := by
  have hmake : s.makeDir path = (.error .alreadyExists, s) := by
    obtain ⟨hnul, hne, L, m, hgo⟩ := hd
    obtain ⟨p, n, hnode⟩ := hgo.exists_node rfl false
    have hreach : s.reach false false path = .ok (.node p n) := (reach_eq hnul hne _ _).trans hnode
    simp only [makeDir, mishap?, hm, List.head?_nil, Option.join_none, given_of_fits hfits, hreach,
      later_eq hm]
  have hdir : s.kind? path = some .directory := kind?_eq_directory_iff.2 ⟨hfits, d, hd⟩
  have hempty : ¬path.isEmpty = true := by
    rw [String.isEmpty_iff]
    exact hd.2.1
  have hmakes : s.does (Files.makeDirs (path.length + 1) path) = (.ok (), s) := by
    rw [Files.makeDirs, if_neg hempty, does_bind, does_makeDir, hmake]
    dsimp only
    rw [Files.isDir, bind_assoc, does_bind, does_kind?, hdir]
    rfl
  rw [Files.createDir, does_bind, hmakes]
  rfl

theorem does_makeFolder_pathOf {name : String} (hs : s.Ordered)
    (hadmits : s.look.Admits [] (p ++ [name])) (hm : s.mishaps = [])
    (hp : s.tree.get? (p ++ [name]) = some n) (hfits : Fits (pathOf (p ++ [name])))
    (operation : String → String) :
    s.does (Files.makeFolder (pathOf (p ++ [name])) operation) = (.ok (), s) := by
  have hparent := parent?_pathOf fun _ => hs.tree.isPlain hp
  have hfolder : Files.folder? (pathOf (p ++ [name])) = some (pathOf p) := by
    rw [Files.folder?, hparent]
    simp [pathOf]
  have hleads : s.Leads (pathOf p) p := find_directory_iff.1
    (find_pathOf hs (hadmits.above (List.prefix_append _ _)) (hs.tree.parent hp) (by decide))
  rw [Files.makeFolder, hfolder]
  exact does_createDir hm (Nat.le_trans (size_pathOf_le p name) hfits) hleads _

theorem write_of_find (bytes : ByteArray) (hm : s.mishaps = []) (hfits : Fits path)
    (hp : s.find path = .ok (p, .file b)) :
    s.write path bytes = (.ok (), s.perform (.write p bytes)) := by
  simp only [write, given_of_fits hfits, aim_of_find hp, mishap?, hm, List.head?_nil,
    Option.join_none, later_eq hm]

end Machine

namespace Backup

open Machine

/-- A tree on the way back: all that was there at the start is there, a file with its content from
the start unless it is still to be brought back, and the copies that are to be brought back are as
they were taken. -/
structure Back (S : Setting) (dir : String) (d : Place) (left : List Saved) (t : Tree) : Prop where
  sound : t.Sound
  holds : S.start.tree.Holds t
  vacant : S.start.tree.get? d = none
  leads : (S.at t).Leads dir d
  files : ∀ p b, S.start.tree.get? p = some (.file b) → ∃ b', t.get? p = some (.file b') ∧
    (b' = b ∨ ∃ e ∈ left, e.place = p)
  genuine : ∀ e ∈ left, (e.place, e.file) ∈ S.places ∧
    S.start.tree.get? e.place = some (.file e.bytes)
  copies : ∀ e ∈ left, Fits (Path.join dir e.file.copyPath) ∧
    t.get? (d ++ names e.file.copyPath) = some (.file e.bytes)

namespace Back

variable {S : Setting} {t : Tree} {dir : String} {d : Place} {left : List Saved} {e : Saved}

/-- Where nothing is left to be brought back, all that was there is there again. -/
theorem within (h : Back S dir d [] t) : S.start.tree.Within t := by
  intro p n hp
  cases n with
  | directory => exact h.holds.dir hp
  | link => exact h.holds p _ hp nofun
  | file b =>
    obtain ⟨b', hb', rfl | ⟨e, he, -⟩⟩ := h.files p b hp
    · exact hb'
    · cases he

/-- One copy is brought back. -/
theorem put (h : Back S dir d (e :: left) t) :
    Back S dir d left (t.put e.place (.file e.bytes)) := by
  obtain ⟨-, hstart⟩ := h.genuine e List.mem_cons_self
  obtain ⟨b, hb, -⟩ := h.files _ _ hstart
  have hne := Tree.ne_nil_of_file hb
  have hget := fun q => Tree.get?_put t e.place q (.file e.bytes) hne
  have hfile : ∀ n, t.get? e.place = some n → n.kind = .file := fun _ => Tree.kind_of_file hb
  have hholds : t.Holds (t.put e.place (.file e.bytes)) := .put hne hfile
  have hsound := h.sound.put (n := .file e.bytes) (h.sound.room hne hb) trivial fun hd =>
    nomatch hfile _ hd
  refine ⟨hsound, h.holds.trans hholds, h.vacant,
    Leads.mono (s := S.at t) (x := S.at _) rfl hholds h.leads, fun p b' hp => ?_,
    fun e' he' => h.genuine e' (List.mem_cons_of_mem _ he'), fun e' he' => ?_⟩
  · rw [hget]
    split
    next heq =>
      rw [heq, hstart] at hp
      exact ⟨_, rfl, .inl (Node.file.inj (Option.some.inj hp))⟩
    next hnot =>
      obtain ⟨b'', hb'', hsame | ⟨e', he', heq⟩⟩ := h.files p b' hp
      · exact ⟨b'', hb'', .inl hsame⟩
      · rcases List.mem_cons.1 he' with rfl | he'
        · exact absurd heq.symm hnot
        · exact ⟨b'', hb'', .inr ⟨e', he', heq⟩⟩
  · obtain ⟨hshort, hcopy⟩ := h.copies e' (List.mem_cons_of_mem _ he')
    rw [hget, if_neg]
    · exact ⟨hshort, hcopy⟩
    · intro heq
      rw [← heq, S.ordered.tree.none_below h.vacant (List.prefix_append _ _)] at hstart
      cases hstart

end Back

/-! ### Bringing back -/

variable {S : Setting} {s : Machine} {dir : String} {d : Place} {left taken : List Saved}
  {e : Saved} {k : Nat}

theorem slashed_eq {path : String} (h : '\\' ∉ path.toList) : Session.slashed path = path := by
  have hmap : path.toList.map (fun c => if c = '\\' then '/' else c) = path.toList := by
    conv => rhs; rw [← List.map_id path.toList]
    refine List.map_congr_left fun c hc => if_neg ?_
    rintro rfl
    exact h hc
  rw [Session.slashed, hmap, String.ofList_toList]

/-- A system in which what a run has made can be read and nothing goes wrong. -/
structure Calm (S : Setting) (s : Machine) : Prop where
  scene : s.toScene = S.start.toScene
  mishaps : s.mishaps = []
  sealed : ∀ p, S.start.tree.get? p = none → S.start.sealed p = none

theorem Calm.perform (h : Calm S s) (c : Change) : Calm S (s.perform c) :=
  ⟨h.scene, h.mishaps, h.sealed⟩

theorem Back.ordered_of (h : Back S dir d left s.tree) (hcalm : Calm S s) : s.Ordered :=
  S.ordered.of_holds hcalm.scene h.sound h.holds

theorem Back.leads_of (h : Back S dir d left s.tree) (hcalm : Calm S s) : s.Leads dir d := by
  have := h.leads
  simpa only [Leads, spotOf, Setting.at, hcalm.scene] using this

theorem does_restoreCopy (h : Back S dir d (e :: left) s.tree) (hcalm : Calm S s)
    (hslash : '\\' ∉ e.file.copyPath.toList) : s.does (restoreCopy dir false e.copy) =
      (.ok (), s.perform (.write e.place e.bytes)) := by
  have hs := h.ordered_of hcalm
  have hsealed := hcalm.sealed (d ++ names e.file.copyPath)
    (S.ordered.tree.none_below h.vacant (List.prefix_append _ _))
  obtain ⟨hplace, hstart⟩ := h.genuine e List.mem_cons_self
  obtain ⟨hshort, hcopy⟩ := h.copies e List.mem_cons_self
  have hread : s.read (Path.join dir e.copy.backup) = .ok e.bytes := by
    rw [Saved.copy, slashed_eq hslash]
    exact (h.leads_of hcalm).read_join hs (S.isWay _ hplace) hshort
      (S.admits_below hs hcalm.scene h.vacant hcopy) hcopy (hcalm.scene ▸ hsealed)
  obtain ⟨b, hb, -⟩ := h.files _ _ hstart
  obtain ⟨hfits, hadmits⟩ := S.admits_place hs hcalm.scene hplace hb
  have hfolder : s.does (Files.makeFolder (pathOf e.place) fun _ => "restore " ++ pathOf e.place) =
      (.ok (), s) := by
    rcases List.eq_nil_or_concat e.place with hnil | ⟨p, name, hconcat⟩
    · exact absurd hnil (Tree.ne_nil_of_file hb)
    · rw [hconcat, List.concat_eq_append] at hb hfits hadmits ⊢
      exact does_makeFolder_pathOf hs hadmits hcalm.mishaps hb hfits _
  have hwrite := write_of_find e.bytes hcalm.mishaps hfits (find_pathOf hs hadmits hb nofun)
  unfold restoreCopy
  dsimp only
  rw [does_bind, Files.readBytes, does_bind, does_read, hread]
  simp only [does_pure, mapError_ok]
  rw [Saved.copy, if_neg Bool.false_ne_true, Files.writeCreating, does_bind, hfolder]
  dsimp only
  rw [does_bind, does_write, hwrite]
  rfl

theorem does_restoreAll (h : Back S dir d left s.tree) (hcalm : Calm S s)
    (hslash : ∀ e ∈ left, '\\' ∉ e.file.copyPath.toList) (r : Restored) (hdir : r.runDir = dir)
    (hdry : r.dryRun = false) : ∃ r' s', s.does (restoreAll (left.map Saved.copy) r) = (r', s') ∧
      r'.errors = r.errors ∧ Back S dir d [] s'.tree ∧ Calm S s' := by
  induction left generalizing s r with
  | nil => exact ⟨r, s, rfl, rfl, h, hcalm⟩
  | cons e left ih =>
    obtain ⟨r', s', hrest, herrors, hback, hcalm'⟩ :=
      ih (s := s.perform (.write e.place e.bytes)) h.put (hcalm.perform _)
        (fun e' he' => hslash e' (List.mem_cons_of_mem _ he'))
        { r with files := r.files ++ [e.copy.file] } hdir hdry
    have hcopy : s.does (restoreCopy r.runDir r.dryRun e.copy) =
        (.ok (), s.perform (.write e.place e.bytes)) := by
      rw [hdir, hdry]
      exact does_restoreCopy h hcalm (hslash e List.mem_cons_self)
    refine ⟨r', s', ?_, herrors, hback, hcalm'⟩
    rw [List.map_cons, restoreAll, does_bind, hcopy]
    exact hrest

/-- What is loaded where the text of a manifest is read. -/
theorem does_loadManifest_of_read {m : Manifest}
    (h : s.read (Path.join dir Manifest.fileName) = .ok m.text.toUTF8) :
    s.does (loadManifest dir) = (.ok m, s) := by
  unfold loadManifest
  dsimp only
  rw [does_bind, Files.readText, does_bind, does_read, h]
  dsimp only
  rw [Manifest.fromUTF8?_toUTF8]
  simp only [does_pure, Manifest.parse_text]

/-- The manifest on disk is read as it was written. -/
theorem does_loadManifest {t : Tree} (h : Kept S dir d taken k t) (hpos : 0 < k)
    (hwithin : t.Within s.tree) (hs : s.Ordered) (hscene : s.toScene = S.start.toScene)
    (hsealed : ∀ p, S.start.tree.get? p = none → S.start.sealed p = none) :
    s.does (loadManifest dir) = (.ok ⟨S.createdAt, (taken.take k).map Saved.copy⟩, s) := by
  have hplain := Manifest.isPlain_fileName
  have hleads : s.Leads dir d := Leads.mono (s := S.at t) hscene (.of_within hwithin) h.leads
  obtain ⟨hfits, b, hb⟩ := h.listed hpos
  have hb' : s.tree.get? (d ++ names Manifest.fileName) = some (.file b) := by
    rw [hplain.names]
    exact hwithin _ _ hb
  refine does_loadManifest_of_read (h.manifest b hb ▸ hleads.read_join hs hplain.isWay hfits
    (S.admits_below hs hscene h.vacant hb') hb' ?_)
  exact hscene ▸ hsealed _ (h.none_below (List.prefix_append _ _))

/-- **A backup whose manifest lists its copies is brought back without errors**, and then all that
was there when the run started is there again. -/
theorem does_restore {t : Tree} (h : Kept S dir d taken k t) (hpos : 0 < k)
    (hwithin : t.Within s.tree) (hs : s.Ordered) (hcalm : Calm S s)
    (hslash : ∀ e ∈ taken, '\\' ∉ e.file.copyPath.toList) :
    ∃ r s', s.does (restore dir false) = (.ok r, s') ∧ r.errors = [] ∧
      S.start.tree.Within s'.tree ∧ s'.Ordered ∧ Calm S s' := by
  have hback : Back S dir d (taken.take k) s.tree :=
    { sound := hs.tree
      holds := h.holds.trans (.of_within hwithin)
      vacant := h.vacant
      leads := Leads.mono (s := S.at t) (x := S.at s.tree) rfl (.of_within hwithin) h.leads
      files := fun p b hp => by
        obtain ⟨b', hb', hsame⟩ := h.files p b hp
        exact ⟨b', hwithin _ _ hb', hsame⟩
      genuine := fun e he => h.genuine e (List.mem_of_mem_take he)
      copies := fun e he =>
        (h.copies e (List.mem_of_mem_take he)).imp_right (hwithin _ _) }
  obtain ⟨r, s', hall, herrors, hdone, hcalm'⟩ := does_restoreAll hback hcalm
    (fun e he => hslash e (List.mem_of_mem_take he)) { runDir := dir, dryRun := false } rfl rfl
  refine ⟨r, s', ?_, herrors, hdone.within, hdone.ordered_of hcalm', hcalm'⟩
  rw [restore, does_bind, does_loadManifest h hpos hwithin hs hcalm.scene hcalm.sealed]
  dsimp only
  rw [does_bind, hall]
  rfl

end Backup

end Renaming
