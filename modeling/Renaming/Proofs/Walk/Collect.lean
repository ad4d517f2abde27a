import Renaming.Proofs.Walk.Labels

/-!
What a walk gives. Every file of it is met where it stands (`Met`): its path is that of a target and
then the way from the target to the file, the path of its copy is the name for the target and then
this way, and no directory on it is passed over. The files of a walk are in the order of their keys.
Those that have paths without links stand each at a place of its own (`exists_places_of_collect`),
and so do their copies (`eq_of_names_copyPath`).
-/

namespace Renaming

open Renaming.Path (names)

/-! ### The order of files -/

namespace Path.Component

variable {c d e : Component}

theorem before_irrefl (c : Component) : c.before c = false := by
  cases c <;> simp [before]

theorem before_trans (h : c.before d = true) (h' : d.before e = true) : c.before e = true := by
  cases c <;> cases d <;> cases e <;> simp [before, rank] at h h' ⊢
  exact List.lt_trans h h'

theorem before_of_not_before (hne : c ≠ d) (h : ¬c.before d = true) : d.before c = true := by
  cases c with
  | name a =>
    cases d with
    | name b =>
      have hle := List.not_lt.1 fun hlt => h (decide_eq_true hlt)
      refine decide_eq_true (List.not_le.1 fun hle' => hne ?_)
      rw [String.toList_inj.1 (List.le_antisymm hle' hle)]
    | _ => rfl
  | _ => cases d <;> first | rfl | exact absurd rfl hne | exact absurd rfl h

end Path.Component

namespace Walk

open Machine
open Renaming.Path

variable {s s' : Machine} {w : Wanted} {dir path home target root label : String} {D : Place}
  {us targets skipped extensions excluded : List String} {p p' : Progress} {key : Key}
  {xs ys zs : Key} {files es : List (Key × SourceFile)}

theorem before_irrefl (xs : Key) : before xs xs = false := by
  induction xs with
  | nil => rfl
  | cons x xs ih => rwa [before, if_pos rfl]

theorem before_trans (h : before xs ys = true) (h' : before ys zs = true) :
    before xs zs = true := by
  induction xs generalizing ys zs with
  | nil =>
    cases zs with
    | nil => cases ys <;> cases h'
    | cons => rfl
  | cons x xs ih =>
    cases ys with
    | nil => cases h
    | cons y ys =>
    cases zs with
    | nil => cases h'
    | cons z zs =>
    rw [before] at h h' ⊢
    by_cases hxy : x = y
    · subst hxy
      rw [if_pos rfl] at h
      split at h'
      next hxz => exact (if_pos hxz).trans (ih h h')
      next hxz => exact (if_neg hxz).trans h'
    · rw [if_neg hxy] at h
      by_cases hyz : y = z
      · subst hyz
        exact (if_neg hxy).trans h
      · rw [if_neg hyz] at h'
        have hxz : x ≠ z := by
          rintro rfl
          exact Bool.noConfusion (x.before_irrefl.symm.trans (Component.before_trans h h'))
        exact (if_neg hxz).trans (Component.before_trans h h')

theorem before_of_not_before (hne : xs ≠ ys) (h : ¬before xs ys = true) : before ys xs = true := by
  induction xs generalizing ys with
  | nil =>
    cases ys with
    | nil => exact absurd rfl hne
    | cons => exact absurd rfl h
  | cons x xs ih =>
    cases ys with
    | nil => rfl
    | cons y ys =>
      rw [before] at h ⊢
      by_cases hxy : x = y
      · subst hxy
        rw [if_pos rfl] at h ⊢
        exact ih (fun heq => hne (congrArg (List.cons x) heq)) h
      · rw [if_neg hxy] at h
        rw [if_neg (Ne.symm hxy)]
        exact Component.before_of_not_before hxy h

/-- Files in the order of their keys, no two of one key. -/
def InOrder (files : List (Key × SourceFile)) : Prop :=
  files.Pairwise fun a b => before a.1 b.1 = true

theorem mem_insert {f : SourceFile} {e : Key × SourceFile} (h : e ∈ insert key f files) :
    e = (key, f) ∨ e ∈ files := by
  induction files with
  | nil => exact .inl (List.mem_singleton.1 h)
  | cons g rest ih =>
    rw [insert] at h
    split at h
    · exact .inr h
    split at h
    · exact List.mem_cons.1 h
    · rcases List.mem_cons.1 h with rfl | h
      · exact .inr List.mem_cons_self
      · exact (ih h).imp_right (List.mem_cons_of_mem _)

theorem inOrder_insert (key : Key) (f : SourceFile) (h : InOrder files) :
    InOrder (insert key f files) := by
  induction files with
  | nil => simp [InOrder, insert]
  | cons g rest ih =>
    obtain ⟨hg, hrest⟩ := List.pairwise_cons.1 h
    rw [insert]
    split
    · exact h
    next hne =>
    split
    next hlt =>
      refine List.pairwise_cons.2 ⟨fun e he => ?_, h⟩
      rcases List.mem_cons.1 he with rfl | he
      · exact hlt
      · exact before_trans hlt (hg e he)
    next hlt =>
      refine List.pairwise_cons.2 ⟨fun e he => ?_, ih hrest⟩
      rcases mem_insert he with rfl | he
      · exact before_of_not_before (Ne.symm hne) hlt
      · exact hg e he

/-- Files with their keys, added to others one after the other. -/
def insertAll (es files : List (Key × SourceFile)) : List (Key × SourceFile) :=
  es.foldl (fun files e => insert e.1 e.2 files) files

theorem mem_insertAll {e : Key × SourceFile} (h : e ∈ insertAll es files) :
    e ∈ es ∨ e ∈ files := by
  induction es generalizing files with
  | nil => exact .inr h
  | cons g rest ih =>
    rcases ih h with h | h
    · exact .inl (List.mem_cons_of_mem _ h)
    · rcases mem_insert h with rfl | h
      · exact .inl List.mem_cons_self
      · exact .inr h

theorem inOrder_insertAll (h : InOrder files) : InOrder (insertAll es files) := by
  induction es generalizing files with
  | nil => exact h
  | cons e rest ih => exact ih (inOrder_insert e.1 e.2 h)

theorem InOrder.pairwise_ne (h : InOrder files) : files.Pairwise fun a b => a.1 ≠ b.1 :=
  h.imp fun {a b} hlt heq => by
    rw [heq, before_irrefl] at hlt
    cases hlt

/-! ### What is met below a directory -/

/-- The file to which a chain leads from a directory. The directory is walked on the path `root`,
and `label` is the name for the copies of its files. -/
def fileAt (root label : String) (us : List String) : SourceFile :=
  ⟨Path.join root ("/".intercalate us), Path.join label ("/".intercalate us)⟩

/-- A file with its key. -/
def keyed (s : Machine) (f : SourceFile) : Key × SourceFile := (keyOf s f.path, f)

@[simp] theorem keyed_fst (f : SourceFile) : (keyed s f).1 = keyOf s f.path := rfl

@[simp] theorem keyed_snd (f : SourceFile) : (keyed s f).2 = f := rfl

/-- A file that is found below a directory, with its key. -/
def entryOf (s : Machine) (label : String) (f : Found) : Key × SourceFile :=
  keyed s ⟨f.1, Path.join label f.2⟩

/-- The copy of a file has the name for its directory and then the names of its chain. -/
theorem Chain.copyPath (hs : s.Ordered) (hisLabel : IsLabel key label) (h : Chain s w root D us) :
    Path.IsWay (fileAt root label us).copyPath ∧
      Path.names (fileAt root label us).copyPath = label :: us := by
  have hway := h.isWay hs
  constructor
  · rw [fileAt, hisLabel.plain.isWay.join_eq hway]
    exact hisLabel.plain.isWay.append hway
  · rw [fileAt, Path.names_join _ hway.isAbsolute, hisLabel.plain.names, h.names hs]
    rfl

/-- What is found below a directory are the files to which chains lead that can be listed. -/
theorem mem_entryOf_iff (hs : s.Ordered) (hD : s.opened.Leads root D) {e : Key × SourceFile} :
    e ∈ (s.does (below w maxDepth root "")).1.1.map (entryOf s label) ↔
      ∃ us, Chain s w root D us ∧ Listed s root us ∧ e = keyed s (fileAt root label us) := by
  simp only [List.mem_map, mem_below_iff hs hD]
  constructor
  · rintro ⟨f, ⟨us, hchain, hlisted, -, rfl⟩, rfl⟩
    exact ⟨us, hchain, hlisted, rfl⟩
  · rintro ⟨us, hchain, hlisted, rfl⟩
    exact ⟨_, ⟨us, hchain, hlisted, hlisted.length_le fun _ => hchain.isPlain hs, rfl⟩, rfl⟩

/-! ### The targets of a walk -/

theorem does_addFound (label : String) (found : List Found) (p : Progress) :
    s.does (addFound label found p) =
      ({ p with files := insertAll (found.map (entryOf s label)) p.files }, s) := by
  induction found generalizing p with
  | nil => rfl
  | cons f rest ih =>
    rw [addFound, does_bind, does_realPath, ih]
    rfl

/-- What is known after one more target, which leads to a directory. -/
def Progress.next (p : Progress) (s : Machine) (w : Wanted) (root : String) : Progress where
  files := insertAll ((s.does (below w maxDepth root "")).1.1.map
    (entryOf s (p.nameFor (realOf s root)).1)) p.files
  unlisted := p.unlisted ++ (s.does (below w maxDepth root "")).1.2
  names := (p.nameFor (realOf s root)).2

/-- A target leads to a directory, so it can be walked. -/
def Resolves (s : Machine) (home target : String) : Prop :=
  s.kind? (Path.expandHome home target) = some .directory

instance : Decidable (Resolves s home target) := inferInstanceAs (Decidable (_ = _))

theorem Resolves.exists_leads (h : Resolves s home target) :
    ∃ D, s.Leads (Path.expandHome home target) D := (kind?_eq_directory_iff.1 h).2

theorem resolve_of_resolves (h : Resolves s home target) :
    s.does (resolve home target) = (.ok (Path.expandHome home target), s) := by
  unfold resolve
  rw [does_bind, does_kind?, h]
  rfl

theorem resolve_of_not_resolves (h : ¬Resolves s home target) :
    ∃ f, s.does (resolve home target) = (.error f, s) ∧ f.cause.isConfiguration = true := by
  unfold resolve
  rw [does_bind, does_kind?]
  dsimp only
  split
  next => exact ⟨_, rfl, rfl⟩
  next hkind => exact absurd hkind h
  next => exact ⟨_, rfl, rfl⟩

/-- The paths without links of some targets. -/
def rootsOf (s : Machine) (home : String) (targets : List String) : List String :=
  targets.map fun target => realOf s (Path.expandHome home target)

theorem does_walkAll_cons (h : Resolves s home target) :
    s.does (walkAll home w (target :: targets) p) =
      s.does (walkAll home w targets (p.next s w (Path.expandHome home target))) := by
  rw [walkAll, does_bind, resolve_of_resolves h]
  dsimp only
  rw [does_bind, does_realPath, does_bind, reads_below, does_bind, does_addFound]
  rfl

theorem walkAll_eq_error (targets : List String) (h : ¬Resolves s home target) :
    ∃ f, s.does (walkAll home w (target :: targets) p) = (.error f, s) ∧
      f.cause.isConfiguration = true := by
  obtain ⟨f, hf, hcause⟩ := resolve_of_not_resolves h
  refine ⟨f, ?_, hcause⟩
  rw [walkAll, does_bind, hf]
  rfl

/-- Walking some targets succeeds exactly if each of them leads to a directory, wherever it stands
among them. -/
theorem walkAll_ok_iff : (∃ p', (s.does (walkAll home w targets p)).1 = .ok p') ↔
    ∀ target ∈ targets, Resolves s home target := by
  induction targets generalizing p with
  | nil => exact ⟨fun _ _ h => (nomatch h), fun _ => ⟨p, rfl⟩⟩
  | cons target rest ih =>
    rw [List.forall_mem_cons]
    by_cases hroot : Resolves s home target
    · rw [does_walkAll_cons hroot, ih]
      exact ⟨fun h => ⟨hroot, h⟩, And.right⟩
    · obtain ⟨f, hf, -⟩ := walkAll_eq_error (w := w) (p := p) rest hroot
      rw [hf]
      exact ⟨fun ⟨_, h⟩ => (nomatch h), fun h => absurd h.1 hroot⟩

theorem bareExtensions_ok_iff : (∃ bare, bareExtensions extensions = .ok bare) ↔
    extensions ≠ [] ∧ ∀ e ∈ extensions, bareExtension e ≠ "" := by
  unfold bareExtensions
  dsimp only
  split
  next h =>
    refine ⟨fun ⟨_, h⟩ => (nomatch h), fun ⟨hne, hall⟩ => ?_⟩
    obtain ⟨e, he, hempty⟩ : ∃ e ∈ extensions, bareExtension e = "" := by simpa [hne] using h
    exact absurd hempty (hall e he)
  next h =>
    refine ⟨fun _ => ?_, fun _ => ⟨_, rfl⟩⟩
    simpa [List.isEmpty_iff, String.isEmpty_iff] using h

/-- A walk succeeds exactly if there are extensions, none of them is empty, and all targets lead to
directories. -/
theorem collect_ok_iff :
    (∃ walked, (s.does (collect home targets extensions excluded skipped)).1 = .ok walked) ↔
      (extensions ≠ [] ∧ ∀ e ∈ extensions, bareExtension e ≠ "") ∧
        ∀ target ∈ targets, Resolves s home target := by
  rw [← bareExtensions_ok_iff]
  unfold collect
  cases bareExtensions extensions with
  | error f => exact ⟨fun ⟨_, h⟩ => (nomatch h), fun ⟨⟨_, h⟩, _⟩ => (nomatch h)⟩
  | ok bare =>
    rw [← walkAll_ok_iff (w := ⟨bare, excluded, skipped⟩) (p := {})]
    dsimp only
    rw [does_bind, reads_walkAll]
    cases (s.does (walkAll home ⟨bare, excluded, skipped⟩ targets {})).1 with
    | error f => exact ⟨fun ⟨_, h⟩ => (nomatch h), fun ⟨_, _, h⟩ => (nomatch h)⟩
    | ok p => exact ⟨fun _ => ⟨⟨_, rfl⟩, _, rfl⟩, fun _ => ⟨_, rfl⟩⟩

/-! ### Walks that fail -/

theorem isConfiguration_of_walkAll {f : Failure}
    (h : (s.does (walkAll home w targets p)).1 = .error f) : f.cause.isConfiguration = true := by
  induction targets generalizing p with
  | nil => cases h
  | cons target rest ih =>
    by_cases hroot : Resolves s home target
    · rw [does_walkAll_cons hroot] at h
      exact ih h
    · obtain ⟨f', hf, hcause⟩ := walkAll_eq_error (w := w) (p := p) rest hroot
      rw [hf] at h
      cases h
      exact hcause

theorem isConfiguration_of_bareExtensions {f : Failure} (h : bareExtensions extensions = .error f) :
    f.cause.isConfiguration = true := by
  unfold bareExtensions at h
  dsimp only at h
  split at h
  next =>
    cases h
    rfl
  next => cases h

/-- A walk fails only for what it was asked to do. -/
theorem isConfiguration_of_collect {f : Failure}
    (h : (s.does (collect home targets extensions excluded skipped)).1 = .error f) :
    f.cause.isConfiguration = true := by
  unfold collect at h
  split at h
  next f' hbare =>
    cases h
    exact isConfiguration_of_bareExtensions hbare
  next bare _ =>
    rw [does_bind, reads_walkAll] at h
    split at h
    next f' hwalk =>
      cases h
      exact isConfiguration_of_walkAll hwalk
    next => cases h

/-! ### What a walk gives -/

/-- A file of a walk stands below a target, and the path of its copy is the name for the target and
then the way from there to the file. The directories to which targets lead have their names in a
table. -/
inductive Met (s : Machine) (home : String) (targets skipped : List String)
    (labels : List (Key × String)) : Place → SourceFile → Prop
  | intro {w : Wanted} {target label : String} {D : Place} {us : List String}
    (mem : target ∈ targets) (leads : s.Leads (Path.expandHome home target) D)
    (hskipped : w.skipped = skipped) (chain : Chain s w (Path.expandHome home target) D us)
    (hlabel : labels.lookup (keyOf s (Path.expandHome home target)) = some label)
    (isLabel : IsLabel (keyOf s (Path.expandHome home target)) label) :
    Met s home targets skipped labels (D ++ us) (fileAt (Path.expandHome home target) label us)

namespace Met

variable {labels labels' : List (Key × String)} {place place' : Place} {f f' : SourceFile}

theorem mono (hlabels : labels <+: labels') (h : Met s home targets skipped labels place f) :
    Met s home targets skipped labels' place f := by
  obtain ⟨hmem, hleads, hskipped, hchain, hlabel, hisLabel⟩ := h
  exact .intro hmem hleads hskipped hchain (lookup_mono hlabels hlabel) hisLabel

/-- The path of a file leads to it, once all directories are open. -/
theorem find_opened (hs : s.Ordered) (h : Met s home targets skipped labels place f) :
    ∃ b, s.opened.find f.path = .ok (place, .file b) := by
  obtain ⟨-, hleads, -, hchain, -, -⟩ := h
  exact hchain.exists_find hs hleads.opened

theorem find (hs : s.Ordered) (h : Met s home targets skipped labels place f)
    (hreal : s.realPath? f.path ≠ none) : ∃ b, s.find f.path = .ok (place, .file b) := by
  obtain ⟨-, hleads, -, hchain, -, -⟩ := h
  exact hchain.exists_find_of_realPath? hs hleads hreal

/-- The copy of a file is kept below a directory that is named for a target. -/
theorem isWay (hs : s.Ordered) (h : Met s home targets skipped labels place f) :
    Path.IsWay f.copyPath ∧ 2 ≤ (names f.copyPath).length := by
  obtain ⟨-, -, -, hchain, -, hisLabel⟩ := h
  obtain ⟨hway, hnames⟩ := hchain.copyPath hs hisLabel
  have hpos := List.length_pos_iff.2 hchain.ne_nil
  refine ⟨hway, ?_⟩
  rw [hnames, List.length_cons]
  omega

/-- A file has its copy neither where nor above where a file at another place has its own: above a
file there are directories only. -/
theorem eq_of_prefix_names {roots : List String} (hs : s.Ordered)
    (h : Met s home targets skipped (labelsOf roots) place f)
    (h' : Met s home targets skipped (labelsOf roots) place' f')
    (hle : names f.copyPath <+: names f'.copyPath) :
    place = place' ∧ names f.copyPath = names f'.copyPath := by
  obtain ⟨-, hleads, -, hchain, hlabel, hisLabel⟩ := h
  obtain ⟨-, hleads', -, hchain', hlabel', hisLabel'⟩ := h'
  rw [(hchain.copyPath hs hisLabel).2, (hchain'.copyPath hs hisLabel').2] at hle ⊢
  rw [List.cons_prefix_cons] at hle
  obtain ⟨rfl, us, rfl⟩ := hle
  obtain rfl := place_eq_of_keyOf hs (label_injective hlabel hlabel')
    (find_directory_iff.2 hleads.opened) (find_directory_iff.2 hleads'.opened)
  obtain ⟨b, hfile⟩ := hchain.exists_file
  obtain ⟨b', hfile'⟩ := hchain'.exists_file
  by_cases hempty : us = []
  · rw [hempty, List.append_nil]
    exact ⟨rfl, rfl⟩
  · rw [← List.append_assoc] at hfile'
    cases hfile.symm.trans (hs.tree.above hempty hfile')

end Met

/-- If the path of a chain has a path without links, no directory of the chain is one to pass
over. -/
theorem Chain.not_skipped (hs : s.Ordered) (hD : s.Leads dir D) (h : Chain s w dir D us)
    (hreal : s.realPath? (Path.join dir ("/".intercalate us)) ≠ none) (vs ws : List String)
    (heq : us = vs ++ ws) (hvs : vs ≠ []) (hws : ws ≠ []) : pathOf (D ++ vs) ∉ w.skipped := by
  induction h generalizing vs with
  | file =>
    have hlength := congrArg List.length heq
    have := List.length_pos_iff.2 hvs
    have := List.length_pos_iff.2 hws
    rw [List.length_append, List.length_singleton] at hlength
    omega
  | @down dir D name us hdir hpass next ih =>
    obtain ⟨v, vs, rfl⟩ := List.exists_cons_of_ne_nil hvs
    obtain ⟨rfl, hus⟩ := List.cons_eq_cons.1 heq
    obtain ⟨hleads, hdeeper⟩ := next.realPath?_first hs hD hdir hpass hreal
    by_cases hempty : vs = []
    · intro hmem
      rw [hempty] at hmem
      rw [Wanted.avoids, hdeeper, Bool.or_eq_false_iff] at hpass
      have hskips : w.skips (pathOf (D ++ [name])) = true :=
        List.any_eq_true.2 ⟨_, hmem, beq_self_eq_true _⟩
      exact Bool.noConfusion (hpass.2.symm.trans hskips)
    · rw [← join_intercalate_cons hs hdir next] at hreal
      simpa using ih hleads hreal vs hus hempty

/-- What is known between the targets of a walk is right; those so far have their paths without
links in a list. -/
structure Progress.Right (s : Machine) (home : String) (targets skipped : List String)
    (roots : List String) (p : Progress) : Prop where
  nul : ∀ real ∈ roots, '\x00' ∉ real.toList
  names : p.names = labelsOf roots
  inOrder : InOrder p.files
  met : ∀ e ∈ p.files, e = keyed s e.2 ∧
    ∃ place, Met s home targets skipped (labelsOf roots) place e.2

theorem nul_not_mem_realOf (hs : s.Ordered) (hD : s.Leads root D) :
    '\x00' ∉ (realOf s root).toList :=
  (find_directory_iff.1 (find_realOf hs (find_directory_iff.2 hD.opened))).1

/-- What one more target adds is right. -/
theorem Progress.Right.next (hs : s.Ordered) (hmem : target ∈ targets)
    (hD : s.Leads (Path.expandHome home target) D) {roots : List String}
    (hp : p.Right s home targets w.skipped roots) :
    (p.next s w (Path.expandHome home target)).Right s home targets w.skipped
      (roots ++ [realOf s (Path.expandHome home target)]) := by
  have hname : (labelsOf (roots ++ [realOf s (Path.expandHome home target)])).lookup
      (keyOf s (Path.expandHome home target)) =
        some (p.nameFor (realOf s (Path.expandHome home target))).1 := by
    rw [keyOf, lookup_labelsOf, ← hp.names]
    rfl
  have hnul : ∀ real ∈ roots ++ [realOf s (Path.expandHome home target)],
      '\x00' ∉ real.toList := by
    intro real hreal
    rcases List.mem_append.1 hreal with hreal | hreal
    · exact hp.nul real hreal
    · exact List.mem_singleton.1 hreal ▸ nul_not_mem_realOf hs hD
  refine ⟨hnul, ?_, inOrder_insertAll hp.inOrder, fun e he => ?_⟩
  · rw [labelsOf_concat, ← hp.names]
    rfl
  · rcases mem_insertAll he with he | he
    · obtain ⟨us, hchain, -, rfl⟩ := (mem_entryOf_iff hs hD.opened).1 he
      exact ⟨rfl, D ++ us, .intro hmem hD rfl hchain hname (isLabel_of_lookup hnul hname)⟩
    · obtain ⟨hkey, place, hmet⟩ := hp.met e he
      exact ⟨hkey, place, hmet.mono (prefix_labelsOf roots _)⟩

theorem right_walkAll (hs : s.Ordered) {rest : List String} (hrest : ∀ t ∈ rest, t ∈ targets)
    {roots : List String} (hp : p.Right s home targets w.skipped roots)
    (h : (s.does (walkAll home w rest p)).1 = .ok p') :
    p'.Right s home targets w.skipped (roots ++ rootsOf s home rest) := by
  induction rest generalizing p roots with
  | nil =>
    cases h
    rwa [rootsOf, List.map_nil, List.append_nil]
  | cons target rest ih =>
    have hroot := walkAll_ok_iff.1 ⟨p', h⟩ target List.mem_cons_self
    obtain ⟨D, hD⟩ := hroot.exists_leads
    rw [does_walkAll_cons hroot] at h
    rw [rootsOf, List.map_cons, List.append_cons]
    exact ih (fun t ht => hrest t (List.mem_cons_of_mem _ ht))
      (hp.next hs (hrest target List.mem_cons_self) hD) h

/-- What is known after the last target of a walk is right, and its files are those of the walk. -/
theorem exists_right_of_collect (hs : s.Ordered) {walked : Walked}
    (h : (s.does (collect home targets extensions excluded skipped)).1 = .ok walked) :
    ∃ bare p, bareExtensions extensions = .ok bare ∧
      s.does (walkAll home ⟨bare, excluded, skipped⟩ targets {}) = (.ok p, s) ∧
      walked.files = p.files.map Prod.snd ∧
      p.Right s home targets skipped (rootsOf s home targets) := by
  unfold collect at h
  split at h
  next => cases h
  next bare hbare =>
    rw [does_bind, reads_walkAll] at h
    split at h
    next => cases h
    next p hp =>
      cases h
      have hstart : ({} : Progress).Right s home targets skipped [] :=
        ⟨fun _ h => (nomatch h), rfl, .nil, fun _ h => (nomatch h)⟩
      exact ⟨bare, p, hbare, Prod.ext hp (reads_walkAll ..), rfl,
        right_walkAll (w := ⟨bare, excluded, skipped⟩) hs (fun _ h => h) hstart hp⟩

/-- The files of a walk that have paths without links are met each at a place of its own. -/
theorem exists_places_of_collect (hs : s.Ordered) {walked : Walked}
    (h : (s.does (collect home targets extensions excluded skipped)).1 = .ok walked) :
    ∃ places : List (Place × SourceFile),
      places.map Prod.snd = walked.files.filter (fun f => (s.realPath? f.path).isSome) ∧
      (places.map Prod.fst).Nodup ∧ ∀ e ∈ places,
        Met s home targets skipped (labelsOf (rootsOf s home targets)) e.1 e.2 := by
  obtain ⟨-, p, -, -, hfiles, hright⟩ := exists_right_of_collect hs h
  have hplace : ∀ e ∈ p.files.filter (fun e => (s.realPath? e.2.path).isSome),
      Met s home targets skipped (labelsOf (rootsOf s home targets)) (placeOf s e.2.path) e.2 ∧
        e.1 = Path.components (pathOf (placeOf s e.2.path)) := by
    intro e he
    obtain ⟨he, hsome⟩ := List.mem_filter.1 he
    obtain ⟨hkey, place, hmet⟩ := hright.met e he
    obtain ⟨b, hb⟩ := hmet.find_opened hs
    have hreal := Option.isSome_iff_ne_none.1 hsome
    rw [placeOf_of_find hb, hkey, keyed_fst, keyOf, realOf_eq hb hreal]
    exact ⟨hmet, rfl⟩
  refine ⟨(p.files.filter fun e => (s.realPath? e.2.path).isSome).map
    fun e => (placeOf s e.2.path, e.2), ?_, ?_, fun e he => ?_⟩
  · rw [hfiles, List.map_map, List.filter_map]
    rfl
  · have hne := hright.inOrder.pairwise_ne.filter fun e => (s.realPath? e.2.path).isSome
    rw [List.map_map]
    refine List.pairwise_map.2 (hne.imp_of_mem fun he he' hne heq => hne ?_)
    rw [(hplace _ he).2, (hplace _ he').2]
    exact congrArg (fun place => Path.components (pathOf place)) heq
  · obtain ⟨e, hmem, rfl⟩ := List.mem_map.1 he
    exact (hplace e hmem).1

/-- Different files of a walk have their copies at different places, if they have paths without
links. -/
theorem eq_of_names_copyPath (hs : s.Ordered) {walked : Walked}
    (h : (s.does (collect home targets extensions excluded skipped)).1 = .ok walked)
    {f g : SourceFile} (hf : f ∈ walked.files) (hg : g ∈ walked.files)
    (hreal : s.realPath? f.path ≠ none) (hreal' : s.realPath? g.path ≠ none)
    (heq : names f.copyPath = names g.copyPath) : f = g := by
  obtain ⟨places, hfiles, hnodup, hmet⟩ := exists_places_of_collect hs h
  have hplace : ∀ f ∈ walked.files, s.realPath? f.path ≠ none → ∃ e ∈ places, e.2 = f := by
    intro f hf hreal
    rw [← List.mem_map, hfiles]
    exact List.mem_filter.2 ⟨hf, Option.isSome_iff_ne_none.2 hreal⟩
  obtain ⟨e, he, rfl⟩ := hplace f hf hreal
  obtain ⟨e', he', rfl⟩ := hplace g hg hreal'
  have hsame := ((hmet e he).eq_of_prefix_names hs (hmet e' he') (heq ▸ List.prefix_rfl)).1
  exact congrArg Prod.snd (List.inj_on_of_nodup_map hnodup he he' hsame)

end Walk

end Renaming
