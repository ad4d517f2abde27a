import Renaming.Backup.Session
import Renaming.Proofs.Backup.Fresh

/-!
What stays while a run takes copies and writes files. `Grown` describes the trees before the
directory of the run is made, `Kept` those from then on: all that was there is still there, files
whose content has changed are in the manifest on disk, the copies are as they were taken, and what
is new are directories on the way to the backups or lies in the directory of the run. The lemmas
below say so change by change.
-/

namespace Renaming

theorem Manifest.isPlain_fileName : Path.IsPlain Manifest.fileName := by
  decide

namespace Backup

open Renaming.Path (names)
open Machine
open Walk (SourceFile)

/-- What a run has to do with: the system it starts from, the directory that holds the backups, the
name for its own directory and the time in its manifest, and the files with their places. Each file
has a path without links. -/
structure Setting where
  start : Machine
  root : String
  name : String
  createdAt : String
  places : List (Place × SourceFile)
  ordered : start.Ordered
  plain : Path.IsPlain name
  direct : start.Direct root
  nodup : (places.map Prod.fst).Nodup
  found : ∀ e ∈ places, ∃ b, start.find e.2.path = .ok (e.1, .file b)
  named : ∀ e ∈ places, ∃ b, start.findBy start.lookFromRoot e.2.path = .ok (e.1, .file b)
  isWay : ∀ e ∈ places, Path.IsWay e.2.copyPath
  deep : ∀ e ∈ places, 2 ≤ (names e.2.copyPath).length

/-- A file of which a copy was taken: the file, its place and the content that was copied. -/
structure Saved where
  file : SourceFile
  place : Place
  bytes : ByteArray

/-- The entry of a saved file in the manifest. -/
def Saved.copy (e : Saved) : Copy := ⟨Session.slashed e.file.copyPath, pathOf e.place⟩

variable {S : Setting} {x : Machine} {f : SourceFile} {t t' : Tree} {dir : String}
  {p q d v : Place} {n : Node} {b : ByteArray} {taken : List Saved} {e : Saved} {k : Nat}

namespace Setting

/-- A place to which the first names of the path of the backups lead. -/
def OnWay (S : Setting) (t : Tree) (p : Place) : Prop :=
  ∃ us L m, us <+: names S.root ∧
    t.Goes S.start.look ⟨maxLinks, false, startOf S.start.here S.root, us⟩ ⟨L, m, p, []⟩

theorem OnWay.mono (ht : t.Holds t') (h : S.OnWay t p) : S.OnWay t' p := by
  obtain ⟨us, L, m, hus, hgo⟩ := h
  exact ⟨us, L, m, hus, hgo.mono ht⟩

/-- A place to which the path of the backups leads. -/
def AtRoot (S : Setting) (t : Tree) (r : Place) : Prop :=
  ∃ L m, t.Goes S.start.look ⟨maxLinks, false, startOf S.start.here S.root, names S.root⟩
    ⟨L, m, r, []⟩

theorem AtRoot.mono (ht : t.Holds t') (h : S.AtRoot t p) : S.AtRoot t' p := by
  obtain ⟨L, m, hgo⟩ := h
  exact ⟨L, m, hgo.mono ht⟩

/-- Only one file of the run stands at a place. -/
theorem file_unique {f g : SourceFile} (hf : (p, f) ∈ S.places) (hg : (p, g) ∈ S.places) :
    f = g := by
  have hnodup := S.nodup
  generalize S.places = places at hf hg hnodup
  induction places with
  | nil => cases hf
  | cons e places ih =>
    obtain ⟨hnot, hnodup⟩ := List.nodup_cons.1 hnodup
    rcases List.mem_cons.1 hf with rfl | hf'
    · rcases List.mem_cons.1 hg with heq | hg'
      · exact (Prod.mk.inj heq).2.symm
      · exact absurd (List.mem_map_of_mem hg') hnot
    · rcases List.mem_cons.1 hg with rfl | hg'
      · exact absurd (List.mem_map_of_mem hf') hnot
      · exact ih hf' hg' hnodup

/-- What stands below a place that was vacant at the start can be looked up from there: what is shut
was there before. -/
theorem admits_below (hx : x.Ordered) (hscene : x.toScene = S.start.toScene)
    (hd : S.start.tree.get? d = none) {xs : List String} (hn : x.tree.get? (d ++ xs) = some n) :
    x.look.Admits d xs := by
  refine hx.admits hn fun ys y _ hshut => ?_
  rw [hscene] at hshut
  cases (S.ordered.tree.none_below hd (List.prefix_append d ys)).symm.trans
    (S.ordered.shut _ hshut)

theorem realPath? (he : (p, f) ∈ S.places) : S.start.realPath? f.path = some (pathOf p) :=
  (S.named _ he).elim fun _ hb => realPath?_of_findBy hb

/-- The place of a file of the run can be looked up from the root. -/
theorem admits_place (hx : x.Ordered) (hscene : x.toScene = S.start.toScene)
    (he : (p, f) ∈ S.places) (hn : x.tree.get? p = some n) :
    Fits (pathOf p) ∧ x.look.Admits [] p := by
  obtain ⟨b, hb⟩ := S.named _ he
  obtain ⟨hfits, hclear⟩ := clear_of_findBy_fromRoot hb
  refine ⟨hfits, hx.admits hn fun ys y hle => ?_⟩
  rw [hscene]
  refine hclear ys ((List.prefix_append _ _).trans hle) ?_
  rintro rfl
  exact absurd hle.length_le (by simp)

/-- The system of the start with another tree. -/
def «at» (S : Setting) (t : Tree) : Machine := { S.start with tree := t }

end Setting

/-- A tree in which directories on the way to the backups have been made, and nothing else. -/
structure Grown (S : Setting) (t : Tree) : Prop where
  sound : t.Sound
  within : S.start.tree.Within t
  fresh : ∀ p n, S.start.tree.get? p = none → t.get? p = some n → n = .directory ∧ S.OnWay t p

/-- A tree in which the directory of the run has been made, and copies of files have been taken; the
manifest on disk lists the first `k` of them. -/
structure Kept (S : Setting) (dir : String) (d : Place) (taken : List Saved) (k : Nat) (t : Tree) :
    Prop where
  sound : t.Sound
  holds : S.start.tree.Holds t
  vacant : S.start.tree.get? d = none
  leads : (S.at t).Leads dir d
  top : ∃ r name, S.AtRoot t r ∧ d = r ++ [name]
  files : ∀ p b, S.start.tree.get? p = some (.file b) → ∃ b', t.get? p = some (.file b') ∧
    (b' = b ∨ ∃ e ∈ taken.take k, e.place = p)
  fresh : ∀ p n, S.start.tree.get? p = none → t.get? p = some n →
    (n = .directory ∧ S.OnWay t p) ∨ (d <+: p ∧ n.kind ≠ .other)
  count : k ≤ taken.length
  genuine : ∀ e ∈ taken, (e.place, e.file) ∈ S.places ∧
    S.start.tree.get? e.place = some (.file e.bytes)
  copies : ∀ e ∈ taken, Fits (Path.join dir e.file.copyPath) ∧
    t.get? (d ++ names e.file.copyPath) = some (.file e.bytes)
  manifest : ∀ b, t.get? (d ++ [Manifest.fileName]) = some (.file b) →
    b = (⟨S.createdAt, (taken.take k).map Saved.copy⟩ : Manifest).text.toUTF8
  listed : 0 < k → Fits (Path.join dir Manifest.fileName) ∧
    ∃ b, t.get? (d ++ [Manifest.fileName]) = some (.file b)

namespace Kept

/-- In the directory of the run there is nothing from before. -/
theorem none_below (h : Kept S dir d taken k t) (hle : d <+: p) : S.start.tree.get? p = none :=
  S.ordered.tree.none_below h.vacant hle

theorem not_below (h : Kept S dir d taken k t) (hp : S.start.tree.get? p = some n) : ¬d <+: p := by
  intro hle
  rw [h.none_below hle] at hp
  cases hp

theorem not_link (h : Kept S dir d taken k t) (hle : d <+: p) (target : String) :
    t.get? p ≠ some (.link target) := by
  intro hlink
  rcases h.fresh p _ (h.none_below hle) hlink with ⟨hdir, -⟩ | ⟨-, hkind⟩
  · cases hdir
  · exact hkind rfl

theorem ordered (h : Kept S dir d taken k t) : (S.at t).Ordered :=
  S.ordered.of_holds rfl h.sound h.holds

theorem standing (h : Kept S dir d taken k t) : t.get? d = some .directory :=
  h.leads.standing h.ordered

theorem copy_ne (h : Kept S dir d taken k t) (he : e ∈ taken) (name : String) :
    d ++ [name] ≠ d ++ names e.file.copyPath := by
  intro heq
  have hdeep := S.deep _ (h.genuine e he).1
  rw [List.append_cancel_left_eq] at heq
  rw [← heq] at hdeep
  simp at hdeep

/-- What was there stays, and the way to the directory of the run with it, when directories and
links stay. -/
theorem holds_of (h : Kept S dir d taken k t) (ht : t.Holds t') :
    S.start.tree.Holds t' ∧ (S.at t').Leads dir d ∧ ∃ r name, S.AtRoot t' r ∧ d = r ++ [name] := by
  obtain ⟨r, name, hr, hd⟩ := h.top
  exact ⟨h.holds.trans ht, Leads.mono (s := S.at t) (x := S.at t') rfl ht h.leads, r, name,
    hr.mono ht, hd⟩

/-- Something is put into the directory of the run, at a vacant place or in place of a file, but not
of a copy and not of the manifest. -/
theorem put (h : Kept S dir d taken k t) (hroom : t.Room v) (hle : d <+: v)
    (hv : ∀ n', t.get? v = some n' → n'.kind = .file) (hn : n.kind ≠ .other)
    (hcopy : ∀ e ∈ taken, v ≠ d ++ names e.file.copyPath)
    (hmanifest : v = d ++ [Manifest.fileName] → t.get? v = none ∧ n = .directory) :
    Kept S dir d taken k (t.put v n) := by
  have hget := fun q => Tree.get?_put t v q n hroom.ne_nil
  have hholds : t.Holds (t.put v n) := .put hroom.ne_nil hv
  obtain ⟨hstart, hleads, htop⟩ := h.holds_of hholds
  have hclean : n.Clean := by
    cases n <;> trivial
  have hsound : (t.put v n).Sound := h.sound.put hroom hclean fun hd => nomatch hv _ hd
  have hold : ∀ q n', S.start.tree.get? q = some n' → (t.put v n).get? q = t.get? q := by
    intro q n' hq
    rw [hget, if_neg]
    rintro rfl
    exact h.not_below hq hle
  have hnot : ∀ b, (t.put v n).get? (d ++ [Manifest.fileName]) = some (.file b) →
      t.get? (d ++ [Manifest.fileName]) = some (.file b) := by
    intro b hb
    rw [hget] at hb
    split at hb
    next heq =>
      cases (hmanifest heq.symm).2
      cases hb
    next => exact hb
  refine ⟨hsound, hstart, h.vacant, hleads, htop, fun q b hq => ?_, fun q n' hq hn' => ?_, h.count,
    h.genuine, fun e he => ?_, fun b hb => h.manifest b (hnot b hb), fun hk => ?_⟩
  · rw [hold q _ hq]
    exact h.files q b hq
  · rw [hget] at hn'
    split at hn'
    next heq =>
      cases hn'
      exact .inr ⟨heq ▸ hle, hn⟩
    next => exact (h.fresh q n' hq hn').imp_left fun ⟨hdir, hway⟩ => ⟨hdir, hway.mono hholds⟩
  · rw [hget, if_neg (hcopy e he).symm]
    exact h.copies e he
  · obtain ⟨hfits, b, hb⟩ := h.listed hk
    refine ⟨hfits, b, ?_⟩
    rw [hget, if_neg]
    · exact hb
    · intro heq
      rw [heq, (hmanifest heq.symm).1] at hb
      cases hb

/-- A copy that was taken is as it was taken. -/
theorem take (h : Kept S dir d taken k t) (hplace : (e.place, e.file) ∈ S.places)
    (hbytes : S.start.tree.get? e.place = some (.file e.bytes))
    (hfits : Fits (Path.join dir e.file.copyPath))
    (hcopy : t.get? (d ++ names e.file.copyPath) = some (.file e.bytes)) :
    Kept S dir d (taken ++ [e]) k t := by
  have htake : (taken ++ [e]).take k = taken.take k := List.take_append_of_le_length h.count
  refine ⟨h.sound, h.holds, h.vacant, h.leads, h.top, htake ▸ h.files, h.fresh, ?_, ?_, ?_,
    htake ▸ h.manifest, h.listed⟩
  · rw [List.length_append]
    exact Nat.le_add_right_of_le h.count
  all_goals
    intro e' he'
    rcases List.mem_append.1 he' with he' | he'
  · exact h.genuine e' he'
  · cases List.mem_singleton.1 he'
    exact ⟨hplace, hbytes⟩
  · exact h.copies e' he'
  · cases List.mem_singleton.1 he'
    exact ⟨hfits, hcopy⟩

/-- A file that the manifest lists gets another content. -/
theorem overwrite (h : Kept S dir d taken k t) (he : e ∈ taken.take k) (b : ByteArray) :
    Kept S dir d taken k (t.put e.place (.file b)) := by
  obtain ⟨hplace, hbytes⟩ := h.genuine e (List.mem_of_mem_take he)
  obtain ⟨b', hb', -⟩ := h.files _ _ hbytes
  have hne := Tree.ne_nil_of_file hb'
  have hget := fun q => Tree.get?_put t e.place q (.file b) hne
  have hv : ∀ n', t.get? e.place = some n' → n'.kind = .file := fun _ => Tree.kind_of_file hb'
  have hholds : t.Holds (t.put e.place (.file b)) := .put hne hv
  obtain ⟨hstart, hleads, htop⟩ := h.holds_of hholds
  have hbelow : ∀ q, d <+: q → (t.put e.place (.file b)).get? q = t.get? q := by
    intro q hq
    rw [hget, if_neg]
    rintro rfl
    exact h.not_below hbytes hq
  have hsound : (t.put e.place (.file b)).Sound :=
    h.sound.put (h.sound.room hne hb') trivial fun hd => nomatch hv _ hd
  refine ⟨hsound, hstart, h.vacant, hleads, htop, fun q b' hq => ?_, fun q n' hq hn' => ?_, h.count,
    h.genuine, fun e' he' => ?_, ?_, ?_⟩
  · rw [hget]
    split
    next heq => exact ⟨b, rfl, .inr ⟨e, he, heq.symm⟩⟩
    next => exact h.files q b' hq
  · rw [hget, if_neg] at hn'
    · exact (h.fresh q n' hq hn').imp_left fun ⟨hdir, hway⟩ => ⟨hdir, hway.mono hholds⟩
    · rintro rfl
      rw [hq] at hbytes
      cases hbytes
  · rw [hbelow _ (List.prefix_append _ _)]
    exact h.copies e' he'
  · rw [hbelow _ (List.prefix_append _ _)]
    exact h.manifest
  · rw [hbelow _ (List.prefix_append _ _)]
    exact h.listed

/-- The draft of a manifest that lists all copies takes the place of the manifest. -/
theorem move {draft : String} (h : Kept S dir d taken k t)
    (hfits : Fits (Path.join dir Manifest.fileName))
    (hdraft : t.get? (d ++ [draft]) = some (.file
      (⟨S.createdAt, taken.map Saved.copy⟩ : Manifest).text.toUTF8))
    (hroom : t.Room (d ++ [Manifest.fileName]))
    (hfile : ∀ n, t.get? (d ++ [Manifest.fileName]) = some n → n.kind = .file) :
    Kept S dir d taken taken.length (t.move (d ++ [draft]) (d ++ [Manifest.fileName])) := by
  have hget := fun q =>
    Tree.get?_move (q := d ++ [Manifest.fileName]) (r := q) (by simp) (by simp) hdraft
  have htake : taken.take taken.length = taken := List.take_length
  have hcopied : ∀ q b, t.get? q = some (.file b) → q ≠ d ++ [draft] → ¬d ++ [draft] <+: q := by
    rintro q b hq hne ⟨r, rfl⟩
    have habove := h.sound.above (fun hr => hne (by simp [hr])) hq
    rw [hdraft] at habove
    cases habove
  have hholds : t.Holds (t.move (d ++ [draft]) (d ++ [Manifest.fileName])) :=
    .move h.sound hdraft hroom.ne_nil hfile
  have hold : ∀ q n, S.start.tree.get? q = some n →
      (t.move (d ++ [draft]) (d ++ [Manifest.fileName])).get? q = t.get? q := by
    intro q n hq
    rw [hget, if_neg, if_neg]
    · exact fun hle => h.not_below hq ((List.prefix_append _ _).trans hle)
    · rintro rfl
      exact h.not_below hq (List.prefix_append _ _)
  obtain ⟨hstart, hleads, htop⟩ := h.holds_of hholds
  refine ⟨h.sound.move hdraft nofun hroom fun hdir => (nomatch hfile _ hdir), hstart, h.vacant,
    hleads, htop, fun q b hq => ?_, fun q n hq hn => ?_, Nat.le_refl _, h.genuine, fun e he => ?_,
    fun b hb => ?_, fun _ => ⟨hfits, _, by rw [hget, if_pos rfl]⟩⟩
  · rw [hold q _ hq, htake]
    obtain ⟨b', hb', hsame⟩ := h.files q b hq
    refine ⟨b', hb', hsame.imp_right ?_⟩
    rintro ⟨e, he, hp⟩
    exact ⟨e, List.mem_of_mem_take he, hp⟩
  · rw [hget] at hn
    split at hn
    next heq =>
      cases hn
      exact .inr ⟨heq ▸ List.prefix_append _ _, by simp [Node.kind]⟩
    next =>
      split at hn
      · cases hn
      · exact (h.fresh q n hq hn).imp_left (And.imp_right fun hway => hway.mono hholds)
  · obtain ⟨hshort, hcopy⟩ := h.copies e he
    rw [hget, if_neg (h.copy_ne he _).symm, if_neg (hcopied _ _ hcopy (h.copy_ne he _).symm)]
    exact ⟨hshort, hcopy⟩
  · rw [hget, if_pos rfl, Option.some.injEq, Node.file.injEq] at hb
    rw [← hb, htake]

end Kept

end Backup

end Renaming
