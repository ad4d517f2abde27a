import Renaming.Proofs.Walk.Complete

/-!
Where the copies of a walk's files are kept. The walk gives every directory to which a target leads
a name, the same for all paths of one key, and no two keys have one name. The copies of its files
are kept on relative paths below that name, and none of them where another file has its own, or
below it (`collect_apart`). A new name is found after no more tries than names are taken (`IsNew`).
-/

namespace Renaming.Walk

open Machine

variable {s : Machine} {home : String} {targets extensions excluded skipped : List String}

/-- The copies of files are kept apart. The directories to which the targets of their walk lead have
their names in a table. -/
structure Apart (s : Machine) (home : String) (targets : List String)
    (labels : List (Key × String)) (files : List SourceFile) : Prop where
  /-- Every target leads to a directory, and it is the key of the directory that has a name. -/
  labelled : ∀ target ∈ targets, ∃ D label, s.Leads (Path.expandHome home target) D ∧
    labels.lookup (keyOf s (Path.expandHome home target)) = some label
  /-- Different keys have different names. -/
  injective : ∀ key key' label, labels.lookup key = some label →
    labels.lookup key' = some label → key = key'
  /-- The copy of a file is kept on its way from a target, below the name for the target. -/
  below : ∀ f ∈ files, ∃ target ∈ targets, ∃ D label us b,
    s.Leads (Path.expandHome home target) D ∧
      labels.lookup (keyOf s (Path.expandHome home target)) = some label ∧
      s.opened.find f.path = .ok (D ++ us, .file b) ∧ Path.names f.copyPath = label :: us
  relative : ∀ f ∈ files, Path.isAbsolute f.copyPath = false
  /-- No copy is kept where another one is, nor above or below it. Only if there is no path without
  links for a path to a file can the file be there twice, with one path for both copies. -/
  apart : files.Pairwise fun f g =>
    ¬Path.names f.copyPath <+: Path.names g.copyPath ∧
      ¬Path.names g.copyPath <+: Path.names f.copyPath ∨
    Path.names f.copyPath = Path.names g.copyPath ∧ placeOf s f.path = placeOf s g.path ∧
      (s.realPath? f.path = none ∨ s.realPath? g.path = none)

namespace Met

variable {labels : List (Key × String)} {place place' : Place} {f g : SourceFile}

/-- A file that is met has its copy below the name for a target. -/
theorem below (hs : s.Ordered) (h : Met s home targets skipped labels place f) :
    ∃ target ∈ targets, ∃ D label us b, s.Leads (Path.expandHome home target) D ∧
      labels.lookup (keyOf s (Path.expandHome home target)) = some label ∧
        s.opened.find f.path = .ok (D ++ us, .file b) ∧ Path.names f.copyPath = label :: us := by
  obtain ⟨hmem, hleads, -, hchain, hlabel, hisLabel⟩ := h
  obtain ⟨b, hb⟩ := hchain.exists_find hs hleads.opened
  exact ⟨_, hmem, _, _, _, b, hleads, hlabel, hb, (hchain.copyPath hs hisLabel).2⟩

/-- Files of different keys have their copies apart, unless they are one file. -/
theorem apart {roots : List String} (hs : s.Ordered)
    (h : Met s home targets skipped (labelsOf roots) place f)
    (h' : Met s home targets skipped (labelsOf roots) place' g)
    (hne : keyOf s f.path ≠ keyOf s g.path)
    (hle : Path.names f.copyPath <+: Path.names g.copyPath) :
    Path.names f.copyPath = Path.names g.copyPath ∧ placeOf s f.path = placeOf s g.path ∧
      (s.realPath? f.path = none ∨ s.realPath? g.path = none) := by
  obtain ⟨rfl, hnames⟩ := h.eq_of_prefix_names hs h' hle
  obtain ⟨b, hb⟩ := h.find_opened hs
  obtain ⟨b', hb'⟩ := h'.find_opened hs
  refine ⟨hnames, (placeOf_of_find hb).trans (placeOf_of_find hb').symm, ?_⟩
  by_contra! hreal
  exact hne (keyOf_eq_of_place hb hb' hreal.1 hreal.2)

end Met

/-- The copies of the files that are known after some targets are kept apart. -/
theorem Progress.Right.apart {p : Progress} (hs : s.Ordered)
    (hroots : ∀ target ∈ targets, Resolves s home target)
    (h : p.Right s home targets skipped (rootsOf s home targets)) :
    Apart s home targets p.names (p.files.map Prod.snd) := by
  refine ⟨fun target hmem => ?_, fun key key' label hkey hkey' => ?_, fun f hf => ?_,
    fun f hf => ?_, ?_⟩
  · obtain ⟨D, hD⟩ := (hroots target hmem).exists_leads
    have hroot : realOf s (Path.expandHome home target) ∈ rootsOf s home targets :=
      List.mem_map_of_mem hmem
    obtain ⟨label, hlabel⟩ := exists_label hroot
    exact ⟨D, label, hD, h.names ▸ hlabel⟩
  · rw [h.names] at hkey hkey'
    exact label_injective hkey hkey'
  · obtain ⟨e, he, rfl⟩ := List.mem_map.1 hf
    obtain ⟨-, place, hmet⟩ := h.met e he
    exact h.names ▸ hmet.below hs
  · obtain ⟨e, he, rfl⟩ := List.mem_map.1 hf
    obtain ⟨-, place, hmet⟩ := h.met e he
    exact (hmet.isWay hs).1.isAbsolute
  · -- files in the order of their keys have each a key of their own
    refine List.pairwise_map.2 (h.inOrder.pairwise_ne.imp_of_mem fun {e e'} he he' hne => ?_)
    obtain ⟨hkey, place, hmet⟩ := h.met e he
    obtain ⟨hkey', place', hmet'⟩ := h.met e' he'
    have hkeys : keyOf s e.2.path ≠ keyOf s e'.2.path := by
      rwa [hkey, hkey', keyed_fst, keyed_fst] at hne
    by_cases hle : Path.names e.2.copyPath <+: Path.names e'.2.copyPath
    · exact .inr (hmet.apart hs hmet' hkeys hle)
    by_cases hle' : Path.names e'.2.copyPath <+: Path.names e.2.copyPath
    · obtain ⟨hnames, hplace, hreal⟩ := hmet'.apart hs hmet hkeys.symm hle'
      exact .inr ⟨hnames.symm, hplace.symm, hreal.symm⟩
    · exact .inl ⟨hle, hle'⟩

/-- A system with directories of one name, one that is named as the second of them would be, and a
link to one of them. -/
def namesakes : Machine where
  tree := ⟨[(["a"], .directory), (["a", "src"], .directory), (["a", "src", "lib"], .directory),
    (["a", "src", "lib", "y.ts"], .file "y".toUTF8), (["a", "src", "x.ts"], .file "x".toUTF8),
    (["b"], .directory), (["b", "src"], .directory), (["b", "src", "x.ts"], .file "z".toUTF8),
    (["src-2"], .directory), (["src-2", "x.ts"], .file "w".toUTF8), (["way"], .link "b/src")]⟩
  here := []
  programs := .none

/-- One directory below another, one on two paths, and one twice. -/
def namesakeTargets : List String := ["a/src", "b/src", "src-2", "way", "a/src/lib", "a/src"]

/-- The names that the directories get. -/
def namesakeNames : List (Key × String) :=
  [(Path.components "/a/src", "src"), (Path.components "/b/src", "src-2"),
    (Path.components "/src-2", "src-2-2"), (Path.components "/a/src/lib", "lib")]

end Renaming.Walk
