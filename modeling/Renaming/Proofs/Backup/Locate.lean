import Renaming.Proofs.Backup.Restore
import Renaming.Proofs.Backup.Session
import Renaming.Proofs.Calendar.Name
import Renaming.Proofs.Walk.Collect

/-!
Which copies the entries of a manifest name. In an entry the way to the copy has slashes for its
backslashes. So the entry names the copy exactly if there was no backslash in it
(`names_join_slashed_ne`), and then the copies of different files of a walk have different entries
(`saveAll_locates`). `Session.saveAll` takes copies of some files one after the other;
`save_entered` and `Stage.save` say what one of its steps does, `saveAll_entered` and
`Stage.saveAll` what all of them do.
-/

namespace Renaming

open Renaming.Path (names)
open Machine

/-! ### The name of the directory of a run -/

theorem Instant.isPlain_compact (t : Instant) : Path.IsPlain t.compact := by
  have hmem : ∀ c ∈ t.compact.toList, c.isDigit = true ∨ c ∈ ['-', '+', 'T', 'Z'] :=
    fun _ => mem_compact
  have hT : 'T' ∈ t.compact.toList := by simp [compact]
  refine ⟨⟨?_, fun hc => ?_, fun hc => ?_⟩, ?_, ?_⟩
  · intro he
    rw [he] at hT
    cases hT
  · exact absurd (hmem _ hc) (by decide)
  · exact absurd (hmem _ hc) (by decide)
  all_goals
    intro he
    rw [he] at hT
    exact absurd hT (by decide)

namespace Backup

open Walk (SourceFile)

variable {S : Setting} {s x x' : Machine} {b b' : Session} {f : SourceFile} {bytes : ByteArray}
  {path root home dir : String} {d : Place} {targets extensions excluded skipped : List String}
  {taken : List Saved} {k : Nat} {e : Saved}

/-! ### The ways to copies -/

theorem toList_slashed (path : String) : (Session.slashed path).toList =
    path.toList.map fun c => if c = '\\' then '/' else c := by
  simp [Session.slashed]

theorem backslash_not_mem_slashed (path : String) : '\\' ∉ (Session.slashed path).toList := by
  rw [toList_slashed, List.mem_map]
  rintro ⟨c, -, hc⟩
  split at hc
  next => cases hc
  next hne => exact hne hc

theorem names_join_slashed_ne (hway : Path.IsWay path) (h : '\\' ∈ path.toList) (dir : String) :
    names (Path.join dir (Session.slashed path)) ≠ names (Path.join dir path) := by
  intro heq
  obtain ⟨name, hname, hc⟩ := Path.mem_names_of_mem h (by decide)
  have hmem : name ∉ names (Session.slashed path) := fun hmem =>
    backslash_not_mem_slashed path (Path.mem_of_mem_names hmem hc)
  rw [Path.names_join dir hway.isAbsolute] at heq
  cases habs : Path.isAbsolute (Session.slashed path) with
  | false =>
    rw [Path.names_join dir habs, List.append_cancel_left_eq] at heq
    exact hmem (by rwa [heq])
  | true =>
    rw [Path.join, habs, Bool.true_or, if_pos rfl] at heq
    exact hmem (heq ▸ List.mem_append_right _ hname)

/-! ### Saving one file -/

/-- What saving a file gives and adds to the copies: it fails and adds nothing, or it adds an entry
with the way to the copy, and the path that it gives, if it does, is that of the copy. -/
inductive Entered (dir? : Option String) (f : SourceFile) :
    Except Failure String → List Copy → Prop
  | refused (e : Failure) : Entered dir? f (.error e) []
  | entered {dir file : String} {r : Except Failure String} (hdir : dir? = some dir)
    (hr : ∀ p, r = .ok p → p = Path.join dir f.copyPath) :
    Entered dir? f r [⟨Session.slashed f.copyPath, file⟩]

theorem Entered.mono {dir? dir?' : Option String} {r : Except Failure String} {added : List Copy}
    (hdir : ∀ dir, dir? = some dir → dir?' = some dir) (h : Entered dir? f r added) :
    Entered dir?' f r added := by
  cases h with
  | refused e => exact .refused e
  | entered hsome hr => exact .entered (hdir _ hsome) hr

theorem does_open? {r : Except Failure String} (h : x.does b.open? = ((r, b'), x')) :
    b'.copies = b.copies ∧ (∀ dir, b.dir = some dir → b'.dir = some dir) ∧
      ∀ dir, r = .ok dir → b'.dir = some dir := by
  unfold Session.open? at h
  split at h
  next dir hdir =>
    cases h
    exact ⟨rfl, fun _ => id, fun _ hr => by cases hr; exact hdir⟩
  next hnone =>
    obtain ⟨r₁, x₁, -, h⟩ := does_bind_eq_iff.1 h
    cases r₁ with
    | error f =>
      cases h
      exact ⟨rfl, fun _ => id, nofun⟩
    | ok dir =>
    obtain ⟨r₂, x₂, -, h⟩ := does_bind_eq_iff.1 h
    cases r₂ with
    | error f =>
      cases h
      exact ⟨rfl, fun _ => id, nofun⟩
    | ok =>
      cases h
      refine ⟨rfl, fun dir' hdir => ?_, fun _ hr => congrArg some (Except.ok.inj hr)⟩
      rw [hnone] at hdir
      cases hdir

/-- Saving a file keeps the directory of the run, once there is one, and the entries of other
files. -/
theorem save_entered {r : Except Failure String} (h : x.does (b.save f bytes) = ((r, b'), x')) :
    (∀ dir, b.dir = some dir → b'.dir = some dir) ∧
      ∃ added, b'.copies = b.copies ++ added ∧ Entered b'.dir f r added := by
  obtain ⟨⟨r₁, b₁⟩, x₁, hopen, h⟩ := does_bind_eq_iff.1 h
  obtain ⟨hcopies, hkeeps, hdir⟩ := does_open? hopen
  have hrefused : ∀ e, (∀ dir, b.dir = some dir → b₁.dir = some dir) ∧ ∃ added,
      b₁.copies = b.copies ++ added ∧ Entered b₁.dir f (.error e) added :=
    fun e => ⟨hkeeps, [], by rw [hcopies, List.append_nil], .refused e⟩
  cases r₁ with
  | error e =>
    cases h
    exact hrefused e
  | ok dir =>
  dsimp only at h
  obtain ⟨found, x₂, -, h⟩ := does_bind_eq_iff.1 h
  cases found with
  | true =>
    cases h
    exact hrefused _
  | false =>
  obtain ⟨r₂, x₃, -, h⟩ := does_bind_eq_iff.1 h
  cases r₂ with
  | error e =>
    cases h
    exact hrefused e
  | ok =>
  obtain ⟨real, x₄, -, h⟩ := does_bind_eq_iff.1 h
  obtain ⟨r₃, x₅, -, h⟩ := does_bind_eq_iff.1 h
  cases r₃ with
  | error e =>
    cases h
    exact ⟨hkeeps, _, by rw [hcopies], .entered (hdir dir rfl) nofun⟩
  | ok =>
    cases h
    exact ⟨hkeeps, _, by rw [hcopies], .entered (hdir dir rfl) fun p hp => by cases hp; rfl⟩

/-! ### Saving some files -/

section

variable {m : Type → Type} [Monad m] [Files m]

/-- Saves some files with what is in them, one after the other: for each of them, what came of it
and what it added to the copies. -/
def Session.saveAll : List (SourceFile × ByteArray) → Session →
    m (List (Except Failure String × List Copy) × Session)
  | [], b => return ([], b)
  | (f, bytes) :: rest, b => do
    let (r, b') ← b.save f bytes
    let (rs, last) ← saveAll rest b'
    return ((r, b'.copies.drop b.copies.length) :: rs, last)

end

variable {files : List (SourceFile × ByteArray)}
  {results : List (Except Failure String × List Copy)}

theorem does_saveAll_cons {rest : List (SourceFile × ByteArray)}
    (h : x.does (Session.saveAll ((f, bytes) :: rest) b) = ((results, b'), x')) :
    ∃ r b₁ x₁ rs, x.does (b.save f bytes) = ((r, b₁), x₁) ∧
      x₁.does (Session.saveAll rest b₁) = ((rs, b'), x') ∧
      results = (r, b₁.copies.drop b.copies.length) :: rs := by
  obtain ⟨⟨r, b₁⟩, x₁, hsave, h⟩ := does_bind_eq_iff.1 h
  obtain ⟨⟨rs, last⟩, x₂, hrest, h⟩ := does_bind_eq_iff.1 h
  cases h
  exact ⟨r, b₁, x₁, rs, hsave, hrest, rfl⟩

theorem saveAll_entered (h : x.does (Session.saveAll files b) = ((results, b'), x')) :
    (∀ dir, b.dir = some dir → b'.dir = some dir) ∧
      b'.copies = b.copies ++ results.flatMap Prod.snd ∧
      List.Forall₂ (fun e o => Entered b'.dir e.1 o.1 o.2) files results := by
  induction files generalizing x b results with
  | nil =>
    cases h
    exact ⟨fun _ => id, by simp, .nil⟩
  | cons e rest ih =>
    obtain ⟨r, b₁, x₁, rs, hsave, hrest, rfl⟩ := does_saveAll_cons h
    obtain ⟨hkeeps, added, hadded, hentered⟩ := save_entered hsave
    obtain ⟨hkeeps', hcopies, hall⟩ := ih hrest
    have hdrop : b₁.copies.drop b.copies.length = added := by rw [hadded, List.drop_left]
    rw [hdrop]
    refine ⟨fun dir hdir => hkeeps' dir (hkeeps dir hdir), ?_, .cons (hentered.mono hkeeps') hall⟩
    rw [hcopies, hadded, List.append_assoc]
    rfl

/-! ### The backup of the files of a walk -/

/-- The setting of a backup of the files of a walk that have paths without links. -/
theorem exists_setting (started : Instant) {walked : Walk.Walked} (hs : s.Ordered)
    (hdirect : s.Direct root)
    (hwalk : (s.does (Walk.collect home targets extensions excluded skipped)).1 = .ok walked) :
    ∃ S : Setting, S.start = s ∧ S.root = root ∧
      S.places.map Prod.snd = walked.files.filter (fun f => (s.realPath? f.path).isSome) ∧
      (∀ e ∈ S.places, Walk.Met s home targets skipped
        (Walk.labelsOf (Walk.rootsOf s home targets)) e.1 e.2) ∧
      Stage S s [] 0 (.start root started) := by
  obtain ⟨places, hfiles, hnodup, hmet⟩ := Walk.exists_places_of_collect hs hwalk
  have hreal : ∀ e ∈ places, s.realPath? e.2.path ≠ none := by
    intro e he
    have hmem := List.mem_map_of_mem (f := Prod.snd) he
    rw [hfiles, List.mem_filter] at hmem
    exact Option.isSome_iff_ne_none.1 hmem.2
  let S : Setting := {
    start := s
    root
    name := started.compact
    createdAt := started.toFull
    places
    ordered := hs
    plain := started.isPlain_compact
    direct := hdirect
    nodup := hnodup
    found := fun e he => (hmet e he).find hs (hreal e he)
    named := fun e he => ((hmet e he).find_opened hs).imp fun _ hb =>
      findBy_of_realPath? hb (hreal e he)
    isWay := fun e he => ((hmet e he).isWay hs).1
    deep := fun e he => ((hmet e he).isWay hs).2 }
  have hgrown : Grown S s.tree :=
    ⟨hs.tree, .refl _, fun p n hp hn => nomatch hp.symm.trans hn⟩
  exact ⟨S, rfl, rfl, hfiles, hmet, .before (.refl ⟨hgrown, .refl _⟩)⟩

theorem Stage.copies (h : Stage S x taken k b) : b.copies = taken.map Saved.copy := by
  cases h <;> rfl

/-- Copies of files of a run are taken as they are entered, and the first ones stay. If all goes
well, the manifest on disk lists all of them. -/
theorem Stage.saveAll (h : Stage S x taken k b)
    (hfiles : ∀ e ∈ files, ∃ p, (p, e.1) ∈ S.places ∧ S.start.tree.get? p = some (.file e.2))
    (hx : x.does (Session.saveAll files b) = ((results, b'), x')) :
    ∃ taken' k', Stage S x' taken' k' b' ∧ taken <+: taken' ∧
      List.Forall₂ (fun e o => ∀ c ∈ o.2, ∃ t ∈ taken', t.file = e.1 ∧ t.bytes = e.2 ∧ c = t.copy)
        files results ∧
      ((∀ o ∈ results, ∃ p, o.1 = .ok p) → k = taken.length →
        k' = taken'.length ∧ taken'.length = taken.length + files.length) := by
  induction files generalizing x b taken k results with
  | nil =>
    cases hx
    exact ⟨taken, k, h, List.prefix_rfl, .nil, fun _ hk => ⟨hk, rfl⟩⟩
  | cons e rest ih =>
    obtain ⟨r, b₁, x₁, rs, hsave, hrest, rfl⟩ := does_saveAll_cons hx
    obtain ⟨p, hplace, hbytes⟩ := hfiles e List.mem_cons_self
    obtain ⟨taken₁, k₁, hstage, -, htaken, hok⟩ := h.save (e := ⟨e.1, p, e.2⟩) hplace hbytes hsave
    obtain ⟨taken', k', hstage', hprefix, hall, hlisted⟩ :=
      ih hstage (fun e' he' => hfiles e' (List.mem_cons_of_mem _ he')) hrest
    have hgrows : taken <+: taken₁ := by
      rcases htaken with rfl | rfl
      · exact List.prefix_rfl
      · exact List.prefix_append _ _
    refine ⟨taken', k', hstage', hgrows.trans hprefix, .cons (fun c hc => ?_) hall,
      fun hall _ => ?_⟩
    · rw [h.copies, hstage.copies, List.length_map, ← List.map_drop] at hc
      rcases htaken with rfl | rfl
      · rw [List.drop_length] at hc
        cases hc
      · rw [List.drop_left] at hc
        exact ⟨_, hprefix.subset (by simp), rfl, rfl, List.mem_singleton.1 hc⟩
    · obtain ⟨⟨copy, hcopy⟩, hrs⟩ := List.forall_mem_cons.1 hall
      obtain ⟨rfl, hk, -⟩ := hok copy hcopy
      obtain ⟨hk', hlength⟩ := hlisted hrs hk
      refine ⟨hk', hlength.trans ?_⟩
      rw [List.length_append, List.length_singleton, List.length_cons]
      omega

theorem Kept.read_copy (h : Kept S dir d taken k x.tree) (hx : x.toScene = S.start.toScene)
    (hsealed : ∀ p, S.start.tree.get? p = none → S.start.sealed p = none) (he : e ∈ taken)
    (hslash : '\\' ∉ e.file.copyPath.toList) :
    x.read (Path.join dir e.copy.backup) = .ok e.bytes := by
  have hnone := h.none_below (List.prefix_append d (names e.file.copyPath))
  have hbackup : e.copy.backup = e.file.copyPath := slashed_eq hslash
  obtain ⟨hfits, hget⟩ := h.copies e he
  rw [hbackup]
  exact (h.leads_of hx).read_join (h.ordered_of hx) (S.isWay _ (h.genuine e he).1) hfits
    (S.admits_below (h.ordered_of hx) hx h.vacant hget) hget (hx ▸ hsealed _ hnone)

/-- What the entries of a backup say of the copies of some files: each file with what is in it, and
for each what came of its backup and what was added to the copies. -/
structure Locates (s x : Machine) (root : String) (files : List (SourceFile × ByteArray))
    (results : List (Except Failure String × List Copy)) (b : Session) : Prop where
  /-- The entries are those of the files, in their order. -/
  copies : b.copies = results.flatMap Prod.snd
  /-- Where a copy was taken, one entry was added; it names the copy if there is no backslash on the
  way to it, and otherwise a path with other names. -/
  located : List.Forall₂ (fun e o => ∀ p, o.1 = .ok p → ∃ dir c, b.dir = some dir ∧ o.2 = [c] ∧
    ('\\' ∉ e.1.copyPath.toList → Path.join dir c.backup = p) ∧
    ('\\' ∈ e.1.copyPath.toList → names (Path.join dir c.backup) ≠ names p)) files results
  /-- Different files without backslashes on the ways to their copies have different entries, if
  they have paths without links. -/
  apart : ∀ e o e' o', (e, o) ∈ files.zip results → (e', o') ∈ files.zip results → e.1 ≠ e'.1 →
    s.realPath? e.1.path ≠ none → s.realPath? e'.1.path ≠ none →
    '\\' ∉ e.1.copyPath.toList → '\\' ∉ e'.1.copyPath.toList →
    ∀ c ∈ o.2, ∀ c' ∈ o'.2, c.backup ≠ c'.backup
  /-- If the files have paths without links, what is saved was read and new files can be read, the
  entry of a file is for its place, and what it names holds what was in that very file; and if all
  copies were taken, the manifest on disk has all entries. -/
  restored : s.Direct root → (∀ p, s.tree.get? p = none → s.sealed p = none) →
    (∀ e ∈ files, s.realPath? e.1.path ≠ none) → (∀ e ∈ files, s.read e.1.path = .ok e.2) →
    ∀ dir, b.dir = some dir →
    List.Forall₂ (fun e o => '\\' ∉ e.1.copyPath.toList → ∀ c ∈ o.2,
      s.realPath? e.1.path = some c.file ∧ x.read (Path.join dir c.backup) = .ok e.2)
      files results ∧
    (files ≠ [] → (∀ o ∈ results, ∃ p, o.1 = .ok p) →
      x.does (loadManifest dir) = (.ok b.manifest, x))

theorem Entered.located {dir? : Option String} {r : Except Failure String} {added : List Copy}
    (hway : Path.IsWay f.copyPath) (h : Entered dir? f r added) {p : String} (hp : r = .ok p) :
    ∃ dir c, dir? = some dir ∧ added = [c] ∧
      ('\\' ∉ f.copyPath.toList → Path.join dir c.backup = p) ∧
      ('\\' ∈ f.copyPath.toList → names (Path.join dir c.backup) ≠ names p) := by
  cases h with
  | refused e => cases hp
  | @entered dir file _ hdir hr =>
    obtain rfl := hr p hp
    refine ⟨dir, _, hdir, rfl, fun hslash => ?_,
      fun hslash => names_join_slashed_ne hway hslash dir⟩
    rw [slashed_eq hslash]

theorem Entered.backup_eq {dir? : Option String} {r : Except Failure String} {added : List Copy}
    (h : Entered dir? f r added) (hslash : '\\' ∉ f.copyPath.toList) {c : Copy} (hc : c ∈ added) :
    c.backup = f.copyPath := by
  cases h with
  | refused e => cases hc
  | entered => rw [List.mem_singleton.1 hc, slashed_eq hslash]

/-- **An entry of a manifest names the copy of its file exactly if there is no backslash on the way
to it.** Of different files without backslashes the entries are different, and what they name holds
what was in the files. -/
theorem saveAll_locates {started : Instant} {walked : Walk.Walked} (hs : s.Ordered)
    (hwalk : (s.does (Walk.collect home targets extensions excluded skipped)).1 = .ok walked)
    (hfiles : ∀ e ∈ files, e.1 ∈ walked.files)
    (hrun : s.does (Session.saveAll files (.start root started)) = ((results, b), x)) :
    Locates s x root files results b := by
  obtain ⟨-, hcopies, hentered⟩ := saveAll_entered hrun
  have hway : ∀ e ∈ files, Path.IsWay e.1.copyPath := by
    intro e he
    obtain ⟨-, p, -, -, hwalked, hright⟩ := Walk.exists_right_of_collect hs hwalk
    obtain ⟨e', he', heq⟩ := List.mem_map.1 (hwalked ▸ hfiles e he)
    obtain ⟨-, place, hmet⟩ := hright.met e' he'
    exact heq ▸ (hmet.isWay hs).1
  refine ⟨hcopies, ?_, ?_, fun hdirect hsealed hreal hread dir hdir => ?_⟩
  · exact ((List.forall₂_and_left _ _).2 ⟨hway, hentered⟩).imp fun e o h p => h.2.located h.1
  · intro e o e' o' he he' hne hreal hreal' hslash hslash' c hc c' hc' heq
    rw [(List.forall₂_zip hentered he).backup_eq hslash hc,
      (List.forall₂_zip hentered he').backup_eq hslash' hc'] at heq
    exact hne (Walk.eq_of_names_copyPath hs hwalk (hfiles e (List.of_mem_zip he).1)
      (hfiles e' (List.of_mem_zip he').1) hreal hreal' (congrArg names heq))
  · obtain ⟨S, rfl, -, hplaces, -, hstage⟩ := exists_setting started hs hdirect hwalk
    have hplace : ∀ e ∈ files, ∃ p, (p, e.1) ∈ S.places ∧
        S.start.find e.1.path = .ok (p, .file e.2) := by
      intro e he
      obtain ⟨e', he', heq⟩ : ∃ e' ∈ S.places, e'.2 = e.1 := by
        rw [← List.mem_map, hplaces]
        exact List.mem_filter.2 ⟨hfiles e he, Option.isSome_iff_ne_none.2 (hreal e he)⟩
      obtain ⟨b', hb'⟩ := S.found e' he'
      obtain ⟨-, p, hp, -⟩ := read_eq_ok_iff.1 (hread e he)
      rw [heq, hp] at hb'
      cases hb'
      exact ⟨_, heq ▸ he', hp⟩
    obtain ⟨taken, k, hstage', -, hall, hlisted⟩ := hstage.saveAll
      (fun e he => (hplace e he).imp fun p hp => ⟨hp.1, get?_of_find hs hp.2⟩) hrun
    cases hstage' with
    | before => cases hdir
    | within along _ _ kept =>
    cases hdir
    constructor
    · refine ((List.forall₂_and_left _ _).2 ⟨hplace, hall⟩).imp
        fun e o ⟨⟨p, hp, hfind⟩, hcopy⟩ hslash c hc => ?_
      obtain ⟨t, ht, hfile, hbytes, rfl⟩ := hcopy c hc
      obtain ⟨b', hb'⟩ := S.found _ (kept.genuine t ht).1
      have hsame : t.place = p := by
        rw [hfile, hfind] at hb'
        cases hb'
        rfl
      constructor
      · rw [S.realPath? hp, Saved.copy, hsame]
      · rw [← hbytes]
        exact kept.read_copy along.scene hsealed ht (hfile ▸ hslash)
    · intro hne hok
      obtain ⟨rfl, hlength⟩ := hlisted hok rfl
      have hpos := List.length_pos_iff.2 hne
      have hload := does_loadManifest kept (by omega) (.refl x.tree)
        (kept.ordered_of along.scene) along.scene hsealed
      rwa [List.take_length] at hload

/-- A system with two files, of which one has a backslash where the way to the other has a slash. -/
def twins : Machine where
  tree := ⟨[(["src"], .directory), (["src", "a"], .directory),
    (["src", "a", "b.ts"], .file "a".toUTF8), (["src", "a\\b.ts"], .file "b".toUTF8)]⟩
  here := []
  programs := .none

/-- The two files with what is in them. -/
def twinFiles : List (SourceFile × ByteArray) :=
  [(⟨"src/a/b.ts", "src/a/b.ts"⟩, "a".toUTF8), (⟨"src/a\\b.ts", "src/a\\b.ts"⟩, "b".toUTF8)]

theorem exists_of_parts {α β γ : Type} {P : α → β → γ → Prop} (r : (α × β) × γ)
    (h : P r.1.1 r.1.2 r.2) : ∃ a b c, r = ((a, b), c) ∧ P a b c :=
  ⟨_, _, _, rfl, h⟩

theorem collect_twins : (twins.does (Walk.collect "" ["src"] [".ts"] [] [])).1.toOption =
    some ⟨twinFiles.map Prod.fst, []⟩ := by
  decide +kernel

theorem saveAll_twins : ∃ results b x,
    twins.does (Session.saveAll twinFiles (.start "backups" ⟨0, 0⟩)) = ((results, b), x) ∧
      b.dir = some "backups/19700101T000000Z" ∧
      results.map (fun o => (o.1.toOption, o.2)) =
        [(some "backups/19700101T000000Z/src/a/b.ts", [⟨"src/a/b.ts", "/src/a/b.ts"⟩]),
          (some "backups/19700101T000000Z/src/a\\b.ts", [⟨"src/a/b.ts", "/src/a\\b.ts"⟩])] ∧
      ((x.does (restoreCopy "backups/19700101T000000Z" false
        ⟨"src/a/b.ts", "/src/a\\b.ts"⟩)).2.read "/src/a\\b.ts").toOption = some "a".toUTF8 :=
  exists_of_parts (twins.does (Session.saveAll twinFiles (.start "backups" ⟨0, 0⟩)))
    (by decide +kernel)

theorem saveAll_locates_twins : ∃ results b x,
    twins.does (Session.saveAll twinFiles (.start "backups" ⟨0, 0⟩)) = ((results, b), x) ∧
      Locates twins x "backups" twinFiles results b ∧
      b.dir = some "backups/19700101T000000Z" ∧ twins.Direct "backups" ∧
      (∀ p, twins.tree.get? p = none → twins.sealed p = none) ∧
      (∀ e ∈ twinFiles, twins.realPath? e.1.path ≠ none) ∧
      ∀ e ∈ twinFiles, twins.read e.1.path = .ok e.2 := by
  obtain ⟨results, b, x, hrun, hdir, -⟩ := saveAll_twins
  have hread : ∀ e ∈ twinFiles, (twins.read e.1.path).toOption = some e.2 := by decide +kernel
  refine ⟨results, b, x, hrun, ?_, hdir, direct_of_not_mem (by decide +kernel), fun _ _ => rfl,
    by decide +kernel, fun e he => eq_ok_of_toOption (hread e he)⟩
  exact saveAll_locates (by decide +kernel) (eq_ok_of_toOption collect_twins)
    (fun e he => List.mem_map_of_mem he) hrun

/-- **The entry of a file can name the copy of another one.** The copies of both files are taken,
but the entries name the same path: that of the copy of the first file, and this is what comes back
in place of the second one. -/
theorem not_located_twins : ∃ results b x,
    twins.does (Session.saveAll twinFiles (.start "backups" ⟨0, 0⟩)) = ((results, b), x) ∧
      (twins.does (Walk.collect "" ["src"] [".ts"] [] [])).1.toOption =
        some ⟨twinFiles.map Prod.fst, []⟩ ∧
      b.dir = some "backups/19700101T000000Z" ∧
      results.map (fun o => (o.1.toOption, o.2)) =
        [(some "backups/19700101T000000Z/src/a/b.ts", [⟨"src/a/b.ts", "/src/a/b.ts"⟩]),
          (some "backups/19700101T000000Z/src/a\\b.ts", [⟨"src/a/b.ts", "/src/a\\b.ts"⟩])] ∧
      Path.join "backups/19700101T000000Z" "src/a/b.ts" ≠
        "backups/19700101T000000Z/src/a\\b.ts" ∧
      (twins.read "/src/a\\b.ts").toOption = some "b".toUTF8 ∧
      ((x.does (restoreCopy "backups/19700101T000000Z" false
        ⟨"src/a/b.ts", "/src/a\\b.ts"⟩)).2.read "/src/a\\b.ts").toOption = some "a".toUTF8 := by
  obtain ⟨results, b, x, hrun, hdir, hresults, hback⟩ := saveAll_twins
  exact ⟨results, b, x, hrun, collect_twins, hdir, hresults, by decide, by decide +kernel, hback⟩

end Backup

end Renaming
