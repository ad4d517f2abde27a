import Renaming.Proofs.Backup.Restore

/-!
Loading a manifest that was written. A file that is written as a whole into a directory below which
there are no links is read there (`Leads.read_writeWhole`), so what is loaded has the time and the
copies of the backup that wrote it, in their order (`Session.does_loadManifest_text`).
-/

namespace Renaming

namespace Machine

variable {x y : Machine} {dir name text : String} {d : Place} {bytes : ByteArray}

/-- A file that is written into a directory below which there are no links stands there. -/
theorem Leads.write_join (hx : x.Ordered) (hd : x.Leads dir d)
    (hlink : ∀ p target, d <+: p → x.tree.get? p ≠ some (.link target)) (hname : Path.IsPlain name)
    (h : x.write (Path.join dir name) bytes = (.ok (), y)) :
    y.Ordered ∧ y.Leads dir d ∧ (∀ p target, d <+: p → y.tree.get? p ≠ some (.link target)) ∧
      y.tree.get? (d ++ [name]) = some (.file bytes) ∧ y.toScene = x.toScene := by
  rcases write_cases h with ⟨-, e, he⟩ | ⟨p, b, -, haim, hb, rfl⟩
  · cases he
  obtain ⟨hroom, hfile⟩ := room_of_aim hx haim
  have hplace := hd.aim_join hx hlink hname.isWay haim
  rw [hname.names] at hplace
  subst hplace
  cases hb rfl
  have hput := fun q => Tree.get?_put x.tree (d ++ [name]) q (.file bytes) hroom.ne_nil
  have hholds : x.tree.Holds (x.tree.put (d ++ [name]) (.file bytes)) := .put hroom.ne_nil hfile
  refine ⟨hx.later.write hroom hfile, Leads.mono (s := x) rfl hholds hd,
    fun q target hle hq => ?_, (hput _).trans (if_pos rfl), rfl⟩
  rw [tree_perform, Change.apply, tree_later, hput] at hq
  split at hq
  · cases hq
  · exact hlink q target hle hq

/-- A file that is moved to another name in a directory below which there are no links is read
there. -/
theorem Leads.read_rename {draft : String} (hx : x.Ordered) (hd : x.Leads dir d)
    (hlink : ∀ p target, d <+: p → x.tree.get? p ≠ some (.link target))
    (hdraft : Path.IsPlain draft) (hname : Path.IsPlain name) (hne : draft ≠ name)
    (hfile : x.tree.get? (d ++ [draft]) = some (.file bytes))
    (hsealed : x.sealed (d ++ [name]) = none)
    (h : x.rename (Path.join dir draft) (Path.join dir name) = (.ok (), y)) :
    y.read (Path.join dir name) = .ok bytes := by
  have hshift := fun o ho => hd.shift_join (o := o) hx hlink hdraft hname hne ho
  rcases rename_cases h with ⟨-, hnone⟩ | ⟨p, q, hfits, ho, -, rfl⟩
  · cases (hshift _ (hnone rfl)).1
  obtain ⟨heq, hlook, hroom, hold⟩ := hshift _ ho
  cases heq
  have hholds := Tree.Holds.move hx.tree hfile hroom.ne_nil hold
  have hsound : (x.later.perform (.move (d ++ [draft]) (d ++ [name]))).Ordered :=
    hx.later.perform (hx.tree.move hfile nofun hroom fun hdir => nomatch hold _ hdir) hholds
  have hleads := Leads.mono (s := x) (x := x.later.perform (.move (d ++ [draft]) (d ++ [name]))) rfl
    hholds hd
  refine hleads.read_join hsound hname.isWay hfits ?_ ?_ ?_
  · rw [hname.names]
    exact Look.admits_singleton hlook
  · rw [hname.names]
    exact (Tree.get?_move (by simp) (by simp) hfile).trans (if_pos rfl)
  · rwa [hname.names]

/-- A file that is written as a whole into a directory below which there are no links is read
there. -/
theorem Leads.read_writeWhole {operation : String} (hx : x.Ordered) (hd : x.Leads dir d)
    (hdir : Path.IsTidy dir)
    (hlink : ∀ p target, d <+: p → x.tree.get? p ≠ some (.link target)) (hname : Path.IsPlain name)
    (hdraft : Path.IsPlain (name ++ ".tmp")) (hsealed : x.sealed (d ++ [name]) = none)
    (h : x.does (Files.writeWhole (Path.join dir name) text operation) = (.ok (), y)) :
    y.read (Path.join dir name) = .ok text.toUTF8 := by
  obtain ⟨r, z, hwrite, hend⟩ := writeWhole_cases hdir hname h
  rcases hend with ⟨-, f, hf⟩ | ⟨rfl, r', hrename, hok⟩
  · cases hf
  obtain ⟨hz, hzd, hzlink, hfile, hscene⟩ := hd.write_join hx hlink hdraft hwrite
  cases hok.1 rfl
  have hne : name ++ ".tmp" ≠ name := by
    intro heq
    have hlength := congrArg String.length heq
    rw [String.length_append] at hlength
    exact absurd (Nat.add_eq_left.1 hlength) (by decide)
  exact hzd.read_rename hz hzlink hdraft hname hne hfile
    (hscene ▸ hsealed) hrename

end Machine

namespace Backup

open Machine

/-- **What is loaded is what was written.** Where the text of a backup's manifest is read, it is
loaded as the time and the copies of the backup, whatever characters stand in them; and once it has
been written into a directory below which there are no links, it is loaded from there. -/
theorem Session.does_loadManifest_text (b : Session) (dir : String) :
    (∀ x : Machine, x.read (Path.join dir Manifest.fileName) = .ok b.manifest.text.toUTF8 →
      x.does (loadManifest dir) = (.ok ⟨b.createdAt, b.copies⟩, x)) ∧
    ∀ (x y : Machine) (d : Place), x.Ordered → x.Leads dir d → Path.IsTidy dir →
      (∀ p target, d <+: p → x.tree.get? p ≠ some (.link target)) →
      x.sealed (d ++ [Manifest.fileName]) = none →
      x.does (Files.writeWhole (Path.join dir Manifest.fileName) b.manifest.text
        "write backup manifest") = (.ok (), y) →
      y.does (loadManifest dir) = (.ok ⟨b.createdAt, b.copies⟩, y) :=
  ⟨fun _ h => does_loadManifest_of_read h, fun _ _ _ hx hd hdir hlink hsealed h =>
    does_loadManifest_of_read (hd.read_writeWhole hx hdir hlink (by decide) (by decide) hsealed h)⟩

/-- A backup with quotes, backslashes and control characters in its manifest. -/
def quotingSession : Session :=
  { root := "b", name := "1", createdAt := "\"now\" \x00\n"
    copies := [⟨"src/\"a\".ts", "/src/\"a\".ts"⟩, ⟨"\\/\x7f\u2028", "/\t\\"⟩] }

/-- A system with the directory of that backup, and with its manifest if it has been written. -/
def quotingSystem (written : Bool) : Machine where
  tree := ⟨[(["b"], .directory), (["b", "1"], .directory)] ++
    if written then [(["b", "1", "manifest.json"], .file quotingSession.manifest.text.toUTF8)]
    else []⟩
  here := []
  programs := .none

theorem not_link_of_nodes {x : Machine} (h : ∀ e ∈ x.tree.nodes, ∀ target, e.2 ≠ .link target)
    {p : Place} (hp : p ≠ []) (target : String) : x.tree.get? p ≠ some (.link target) :=
  fun hget => h _ (Tree.mem_of_get? hp hget) target rfl

theorem exists_of_fst {α β : Type} {r : α × β} {a : α} (h : r.1 = a) : ∃ b, r = (a, b) :=
  ⟨r.2, Prod.ext h rfl⟩

theorem does_loadManifest_quotingSession :
    (quotingSystem true).does (loadManifest "b/1") =
      (.ok ⟨quotingSession.createdAt, quotingSession.copies⟩, quotingSystem true) ∧
    ∃ y, (quotingSystem false).does (Files.writeWhole (Path.join "b/1" Manifest.fileName)
        quotingSession.manifest.text "write backup manifest") = (.ok (), y) ∧
      y.does (loadManifest "b/1") = (.ok ⟨quotingSession.createdAt, quotingSession.copies⟩, y) := by
  have hsound : (quotingSystem true).Ordered ∧ (quotingSystem false).Ordered := by decide +kernel
  have hleads : ∀ written, (quotingSystem written).Leads "b/1" ["b", "1"] := by
    have hfind : ∀ written, ((quotingSystem written).find "b/1").toOption =
        some (["b", "1"], .directory) := by decide +kernel
    exact fun written => find_directory_iff.1 (eq_ok_of_toOption (hfind written))
  have hread : (quotingSystem true).read (Path.join "b/1" Manifest.fileName) =
      .ok quotingSession.manifest.text.toUTF8 :=
    (hleads true).read_join hsound.1 Manifest.isPlain_fileName.isWay (by decide)
      (hsound.1.admits (n := .file quotingSession.manifest.text.toUTF8) rfl
        fun _ _ _ => List.not_mem_nil) rfl rfl
  have hwrite : ((quotingSystem false).does (Files.writeWhole (Path.join "b/1" Manifest.fileName)
      quotingSession.manifest.text "write backup manifest")).1.toOption = some () := by
    decide +kernel
  obtain ⟨y, hwritten⟩ := exists_of_fst (eq_ok_of_toOption hwrite)
  obtain ⟨hload, hback⟩ := quotingSession.does_loadManifest_text "b/1"
  refine ⟨hload _ hread, y, hwritten, hback (quotingSystem false) _ ["b", "1"] hsound.2
    (hleads false) ⟨["b".toList], "1", by decide +kernel, by decide +kernel⟩ ?_ rfl hwritten⟩
  intro p target hp
  refine not_link_of_nodes ?_ (List.ne_nil_of_mem (hp.subset List.mem_cons_self)) target
  simp [quotingSystem]

end Backup

end Renaming
