import Renaming.Proofs.Walk.Collect

/-!
All that a walk gives. Where all directories to which it comes can be listed, it gives the files to
which chains of directories lead from its targets (`Reaches`), in the order of their keys: each key
once, on the path that the first target gives that reaches a file of this key (`First`). A file has
one key unless one of the paths to it has no path without links, as is the case below a directory
that can be listed but not searched. This is `collect_complete`; its core is `exists_does_walkAll`,
by induction on the targets.
-/

namespace Renaming.Walk

open Machine

variable {s : Machine} {w : Wanted} {home target root label path : String} {D place : Place}
  {us targets extensions excluded skipped : List String} {p : Progress} {f : SourceFile}
  {labels : List (Key × String)} {key : Key} {e : Key × SourceFile}
  {files es : List (Key × SourceFile)}

/-! ### The files that targets reach -/

/-- From a target a chain of directories leads to the file at a place, and a path comes of it. -/
def Reaches (s : Machine) (home : String) (w : Wanted) (target : String) (place : Place)
    (path : String) : Prop :=
  ∃ D us, s.Leads (Path.expandHome home target) D ∧
    Chain s w (Path.expandHome home target) D us ∧ place = D ++ us ∧
      path = Path.join (Path.expandHome home target) ("/".intercalate us)

/-- The file at a place as the first of some targets gives it that reaches a file of its key. The
directories to which the targets lead have their names in a table. -/
inductive First (s : Machine) (home : String) (w : Wanted) (labels : List (Key × String)) :
    List String → Place → SourceFile → Prop
  | here {target label : String} {rest : List String} {D : Place} {us : List String}
    (leads : s.Leads (Path.expandHome home target) D)
    (chain : Chain s w (Path.expandHome home target) D us)
    (hlabel : labels.lookup (keyOf s (Path.expandHome home target)) = some label) :
    First s home w labels (target :: rest) (D ++ us) (fileAt (Path.expandHome home target) label us)
  | later {target : String} {rest : List String} {place : Place} {f : SourceFile}
    (hnot : ∀ place' path, Reaches s home w target place' path → keyOf s path ≠ keyOf s f.path)
    (next : First s home w labels rest place f) : First s home w labels (target :: rest) place f

theorem Reaches.find (hs : s.Ordered) (h : Reaches s home w target place path) :
    ∃ b, s.opened.find path = .ok (place, .file b) := by
  obtain ⟨D, us, hD, hchain, rfl, rfl⟩ := h
  exact hchain.exists_find hs hD.opened

theorem First.find (hs : s.Ordered) (h : First s home w labels targets place f) :
    ∃ b, s.opened.find f.path = .ok (place, .file b) := by
  induction h with
  | here leads chain => exact chain.exists_find hs leads.opened
  | later _ _ ih => exact ih

theorem exists_first (hs : s.Ordered)
    (hlabels : ∀ target ∈ targets, ∃ label,
      labels.lookup (keyOf s (Path.expandHome home target)) = some label)
    (hmem : target ∈ targets) (h : Reaches s home w target place path) :
    ∃ f, First s home w labels targets place f ∧ keyOf s f.path = keyOf s path := by
  induction targets with
  | nil => cases hmem
  | cons first rest ih =>
    obtain ⟨⟨label, hlabel⟩, hrest⟩ := List.forall_mem_cons.1 hlabels
    by_cases hfirst : ∃ place' path', Reaches s home w first place' path' ∧
        keyOf s path' = keyOf s path
    · obtain ⟨place', path', hreaches, hkey⟩ := hfirst
      obtain ⟨b, hb⟩ := h.find hs
      obtain ⟨b', hb'⟩ := hreaches.find hs
      obtain rfl := place_eq_of_keyOf hs hkey hb' hb
      obtain ⟨D, us, hD, hchain, rfl, rfl⟩ := hreaches
      exact ⟨_, .here hD hchain hlabel, hkey⟩
    · rcases List.mem_cons.1 hmem with rfl | hmem
      · exact absurd ⟨place, path, h, rfl⟩ hfirst
      · obtain ⟨f, hf, hkey⟩ := ih hrest hmem
        exact ⟨f, .later (fun place' path' hreaches heq =>
          hfirst ⟨place', path', hreaches, heq.trans hkey⟩) hf, hkey⟩

/-! ### Files added in their order -/

theorem insert_of_mem (h : InOrder files) (hmem : key ∈ files.map Prod.fst) :
    insert key f files = files := by
  induction files with
  | nil => cases hmem
  | cons g rest ih =>
    obtain ⟨hg, hrest⟩ := List.pairwise_cons.1 h
    rw [insert]
    split
    next => rfl
    next hne =>
      have hmem' : key ∈ rest.map Prod.fst := (List.mem_cons.1 hmem).resolve_left (Ne.symm hne)
      obtain ⟨e, he, rfl⟩ := List.mem_map.1 hmem'
      have hlt : ¬before e.1 g.1 = true := fun hlt =>
        Bool.noConfusion ((before_irrefl e.1).symm.trans (before_trans hlt (hg e he)))
      rw [if_neg hlt, ih hrest hmem']

theorem mem_insert_iff (h : key ∉ files.map Prod.fst) :
    e ∈ insert key f files ↔ e = (key, f) ∨ e ∈ files := by
  refine ⟨mem_insert, ?_⟩
  induction files with
  | nil => simp [insert]
  | cons g rest ih =>
    rw [List.map_cons, List.mem_cons, not_or] at h
    rw [insert, if_neg (Ne.symm h.1)]
    split
    · exact List.mem_cons.2
    · rw [List.mem_cons, List.mem_cons]
      rintro (he | he | he)
      · exact .inr (ih h.2 (.inl he))
      · exact .inl he
      · exact .inr (ih h.2 (.inr he))

theorem mem_insertAll_iff (h : InOrder files) (hes : ∀ e ∈ es, ∀ e' ∈ es, e.1 = e'.1 → e = e') :
    e ∈ insertAll es files ↔ e ∈ files ∨ e.1 ∉ files.map Prod.fst ∧ e ∈ es := by
  induction es generalizing files with
  | nil => simp [insertAll]
  | cons g rest ih =>
    have hrest := ih (inOrder_insert g.1 g.2 h) fun e he e' he' =>
      hes e (List.mem_cons_of_mem _ he) e' (List.mem_cons_of_mem _ he')
    have hsame : e ∈ rest → e.1 = g.1 → e = g := fun he =>
      hes e (List.mem_cons_of_mem _ he) g List.mem_cons_self
    rw [insertAll, List.foldl_cons, ← insertAll, hrest, List.mem_cons]
    by_cases hmem : g.1 ∈ files.map Prod.fst
    · rw [insert_of_mem h hmem]
      grind
    · have hkeys : e.1 ∈ (insert g.1 g.2 files).map Prod.fst ↔
          e.1 = g.1 ∨ e.1 ∈ files.map Prod.fst := by
        simp only [List.mem_map, mem_insert_iff hmem, or_and_right, exists_or, exists_eq_left,
          eq_comm]
      rw [hkeys, mem_insert_iff hmem]
      grind

/-! ### One target -/

/-- A file with its key, as the first of some targets gives it. -/
def IsFirst (s : Machine) (home : String) (w : Wanted) (labels : List (Key × String))
    (targets : List String) (e : Key × SourceFile) : Prop :=
  e = keyed s e.2 ∧ ∃ place, First s home w labels targets place e.2

/-- The key of what a target reaches. -/
def Gives (s : Machine) (home : String) (w : Wanted) (target : String) (key : Key) : Prop :=
  ∃ place path, Reaches s home w target place path ∧ keyOf s path = key

theorem isFirst_cons_iff (hD : s.Leads (Path.expandHome home target) D)
    (hlabel : labels.lookup (keyOf s (Path.expandHome home target)) = some label) :
    IsFirst s home w labels (target :: targets) e ↔
      (∃ us, Chain s w (Path.expandHome home target) D us ∧
        e = keyed s (fileAt (Path.expandHome home target) label us)) ∨
      ¬Gives s home w target e.1 ∧ IsFirst s home w labels targets e := by
  constructor
  · rintro ⟨hkey, place, h⟩
    obtain ⟨k, f⟩ := e
    cases h with
    | here leads chain hlabel' =>
      obtain rfl := hD.unique leads
      obtain rfl := Option.some.inj (hlabel.symm.trans hlabel')
      exact .inl ⟨_, chain, hkey⟩
    | later hnot next =>
      refine .inr ⟨?_, hkey, _, next⟩
      rintro ⟨place', path, hreaches, heq⟩
      exact hnot place' path hreaches (heq.trans (congrArg Prod.fst hkey))
  · rintro (⟨us, hchain, rfl⟩ | ⟨hnot, hkey, place, next⟩)
    · exact ⟨rfl, D ++ us, .here hD hchain hlabel⟩
    · exact ⟨hkey, place, .later (fun place' path hreaches heq =>
        hnot ⟨place', path, hreaches, heq.trans (congrArg Prod.fst hkey).symm⟩) next⟩

theorem mem_entryOf_iff_of_listable (hs : s.Ordered) (hlistable : Listable s w root)
    (hD : s.Leads root D) : e ∈ (s.does (below w maxDepth root "")).1.1.map (entryOf s label) ↔
      ∃ us, Chain s w root D us ∧ e = keyed s (fileAt root label us) := by
  rw [mem_entryOf_iff hs hD.opened]
  exact exists_congr fun us => and_congr_right fun hchain =>
    and_iff_right (hchain.listed hs hD.opened hlistable)

theorem mem_next_iff (hs : s.Ordered) (hlistable : Listable s w root) (hD : s.Leads root D)
    (hp : InOrder p.files) : e ∈ (p.next s w root).files ↔ e ∈ p.files ∨
      e.1 ∉ p.files.map Prod.fst ∧ ∃ us, Chain s w root D us ∧
        e = keyed s (fileAt root (p.nameFor (realOf s root)).1 us) := by
  dsimp only [Progress.next]
  rw [mem_insertAll_iff hp, mem_entryOf_iff_of_listable hs hlistable hD]
  intro e he e' he' heq
  obtain ⟨us, hchain, rfl⟩ := (mem_entryOf_iff_of_listable hs hlistable hD).1 he
  obtain ⟨us', hchain', rfl⟩ := (mem_entryOf_iff_of_listable hs hlistable hD).1 he'
  obtain ⟨b, hb⟩ := hchain.exists_find hs hD.opened
  obtain ⟨b', hb'⟩ := hchain'.exists_find hs hD.opened
  rw [List.append_cancel_left (place_eq_of_keyOf hs heq hb hb')]

theorem mem_map_next_iff (hs : s.Ordered)
    (hlistable : Listable s w (Path.expandHome home target))
    (hD : s.Leads (Path.expandHome home target) D) (hp : InOrder p.files) :
    key ∈ (p.next s w (Path.expandHome home target)).files.map Prod.fst ↔
      key ∈ p.files.map Prod.fst ∨ Gives s home w target key := by
  simp only [List.mem_map, mem_next_iff hs hlistable hD hp]
  constructor
  · rintro ⟨e, he | ⟨-, us, hchain, rfl⟩, rfl⟩
    · exact .inl ⟨e, he, rfl⟩
    · exact .inr ⟨_, _, ⟨D, us, hD, hchain, rfl, rfl⟩, rfl⟩
  · rintro (⟨e, he, rfl⟩ | ⟨_, _, ⟨D', us, hD', hchain, rfl, rfl⟩, rfl⟩)
    · exact ⟨e, .inl he, rfl⟩
    · obtain rfl := hD.unique hD'
      by_cases hmem : ∃ e ∈ p.files, e.1 =
          keyOf s (Path.join (Path.expandHome home target) ("/".intercalate us))
      · obtain ⟨e, he, heq⟩ := hmem
        exact ⟨e, .inl he, heq⟩
      · exact ⟨_, .inr ⟨hmem, us, hchain, rfl⟩, rfl⟩

/-! ### All targets -/

/-- Walking targets that lead to directories adds, for each key that one of them gives and that is
not there yet, the file that the first such target gives. -/
theorem exists_does_walkAll (hs : s.Ordered) (hroots : ∀ target ∈ targets, Resolves s home target)
    (hlistable : ∀ target ∈ targets, Listable s w (Path.expandHome home target))
    (hp : InOrder p.files) (roots : List String) (hnames : p.names = labelsOf roots) :
    ∃ p', s.does (walkAll home w targets p) = (.ok p', s) ∧ InOrder p'.files ∧
      p'.unlisted = p.unlisted ∧ ∀ e, e ∈ p'.files ↔ e ∈ p.files ∨ e.1 ∉ p.files.map Prod.fst ∧
        IsFirst s home w (labelsOf (roots ++ rootsOf s home targets)) targets e := by
  induction targets generalizing p roots with
  | nil =>
    refine ⟨p, rfl, hp, rfl, fun e => ⟨.inl, fun h => h.resolve_right ?_⟩⟩
    rintro ⟨-, -, place, hfirst⟩
    cases hfirst
  | cons target rest ih =>
    obtain ⟨hroot, hrest⟩ := List.forall_mem_cons.1 hroots
    obtain ⟨hopen, hopens⟩ := List.forall_mem_cons.1 hlistable
    obtain ⟨D, hD⟩ := hroot.exists_leads
    have hnext : (p.next s w (Path.expandHome home target)).names = (Progress.nameFor
        { names := labelsOf roots } (realOf s (Path.expandHome home target))).2 := by
      rw [← hnames]
      rfl
    obtain ⟨p', hdoes, horder, hunlisted, hmem⟩ := ih (p := p.next s w _)
      hrest hopens (inOrder_insertAll hp) (roots ++ [realOf s (Path.expandHome home target)])
      (hnext.trans (labelsOf_concat roots _).symm)
    refine ⟨p', by rw [does_walkAll_cons hroot, hdoes], horder, ?_, fun e => ?_⟩
    · rw [hunlisted, Progress.next, unlisted_below hs hopen hD.opened, List.append_nil]
    · have hlabel : (labelsOf (roots ++ rootsOf s home (target :: rest))).lookup
          (keyOf s (Path.expandHome home target)) =
            some (p.nameFor (realOf s (Path.expandHome home target))).1 := by
        rw [rootsOf, List.map_cons, keyOf, lookup_labelsOf, ← hnames]
        rfl
      have hroots : roots ++ [realOf s (Path.expandHome home target)] ++ rootsOf s home rest =
          roots ++ rootsOf s home (target :: rest) := (List.append_cons ..).symm
      rw [hmem, mem_next_iff hs hopen hD hp, mem_map_next_iff hs hopen hD hp, hroots,
        isFirst_cons_iff hD hlabel, not_or, or_assoc, and_assoc, ← and_or_left]

theorem does_collect_ok {bare : List String} (hbare : bareExtensions extensions = .ok bare)
    (hwalk : s.does (walkAll home ⟨bare, excluded, skipped⟩ targets {}) = (.ok p, s)) :
    s.does (collect home targets extensions excluded skipped) =
      (.ok ⟨p.files.map Prod.snd, p.unlisted⟩, s) := by
  unfold collect
  rw [hbare]
  dsimp only
  rw [does_bind, hwalk]
  rfl

/-- The files that a walk of some targets must give, each with its place. -/
structure Complete (s : Machine) (home : String) (w : Wanted) (targets : List String)
    (found : List (Place × SourceFile)) : Prop where
  /-- They are in the order of their keys, and no two of them have one key. -/
  inOrder : found.Pairwise fun e e' => before (keyOf s e.2.path) (keyOf s e'.2.path) = true
  /-- All that a target reaches is there, under its key. -/
  reached : ∀ target ∈ targets, ∀ place path, Reaches s home w target place path →
    ∃ e ∈ found, e.1 = place ∧ keyOf s e.2.path = keyOf s path
  /-- Each of them is as the first target gives it that reaches a file of its key. -/
  first : ∀ e ∈ found, First s home w (labelsOf (rootsOf s home targets)) targets e.1 e.2
  /-- A path without links to a file is that of its place. -/
  real : ∀ e ∈ found, ∀ real, s.realPath? e.2.path = some real → real = pathOf e.1
  /-- A file is there once, unless there is no path without links for a path to it. -/
  once : ∀ e ∈ found, ∀ e' ∈ found, e.1 = e'.1 →
    e = e' ∨ s.realPath? e.2.path = none ∨ s.realPath? e'.2.path = none

theorem once_of_first {found : List (Place × SourceFile)} (hs : s.Ordered)
    (hinOrder : found.Pairwise fun e e' => before (keyOf s e.2.path) (keyOf s e'.2.path) = true)
    (hfirst : ∀ e ∈ found, First s home w labels targets e.1 e.2) {e e' : Place × SourceFile}
    (he : e ∈ found) (he' : e' ∈ found) (heq : e.1 = e'.1) :
    e = e' ∨ s.realPath? e.2.path = none ∨ s.realPath? e'.2.path = none := by
  by_cases hreal : s.realPath? e.2.path = none
  · exact .inr (.inl hreal)
  by_cases hreal' : s.realPath? e'.2.path = none
  · exact .inr (.inr hreal')
  obtain ⟨b, hb⟩ := (hfirst e he).find hs
  obtain ⟨b', hb'⟩ := (hfirst e' he').find hs
  have hkey := keyOf_eq_of_place hb (heq ▸ hb') hreal hreal'
  have hnodup : (found.map fun e => keyOf s e.2.path).Nodup := by
    refine List.pairwise_map.2 (hinOrder.imp fun {a b} hlt heq => ?_)
    rw [heq, before_irrefl] at hlt
    cases hlt
  exact .inl (List.inj_on_of_nodup_map hnodup he he' hkey)

/-- The files that the first targets give, in the order of their keys, are all that a walk must
give. -/
theorem complete_of_isFirst (hs : s.Ordered) (hinOrder : InOrder files)
    (hfiles : ∀ e, e ∈ files ↔
      IsFirst s home w (labelsOf (rootsOf s home targets)) targets e) :
    Complete s home w targets (files.map fun e => (placeOf s e.2.path, e.2)) := by
  have hlabels : ∀ target ∈ targets, ∃ label, (labelsOf (rootsOf s home targets)).lookup
      (keyOf s (Path.expandHome home target)) = some label := fun target hmem =>
    exists_label (List.mem_map_of_mem hmem)
  have hfirst : ∀ e ∈ files.map fun e => (placeOf s e.2.path, e.2),
      First s home w (labelsOf (rootsOf s home targets)) targets e.1 e.2 := by
    intro e he
    obtain ⟨g, hg, rfl⟩ := List.mem_map.1 he
    obtain ⟨-, place, h⟩ := (hfiles g).1 hg
    obtain ⟨b, hb⟩ := h.find hs
    exact (placeOf_of_find hb).symm ▸ h
  have hpairs : (files.map fun e => (placeOf s e.2.path, e.2)).Pairwise
      fun e e' => before (keyOf s e.2.path) (keyOf s e'.2.path) = true := by
    refine List.pairwise_map.2 (hinOrder.imp_of_mem fun {a b} ha hb h => ?_)
    rwa [((hfiles a).1 ha).1, ((hfiles b).1 hb).1] at h
  refine ⟨hpairs, fun target hmem place path hreaches => ?_, hfirst, fun e he real hreal => ?_,
    fun e he e' he' => once_of_first hs hpairs hfirst he he'⟩
  · obtain ⟨f, hf, hkey⟩ := exists_first hs hlabels hmem hreaches
    obtain ⟨b, hb⟩ := hf.find hs
    have hmem : keyed s f ∈ files := (hfiles _).2 ⟨rfl, place, hf⟩
    exact ⟨_, List.mem_map_of_mem hmem, placeOf_of_find hb, hkey⟩
  · obtain ⟨b, hb⟩ := (hfirst e he).find hs
    obtain ⟨q, n, hq, rfl⟩ := exists_find_of_realPath? hreal
    cases hb.symm.trans hq
    rfl

/-- If all files have paths without links, every file is there once. -/
theorem Complete.nodup {found : List (Place × SourceFile)}
    (h : Complete s home w targets found) (hreal : ∀ e ∈ found, s.realPath? e.2.path ≠ none) :
    (found.map Prod.fst).Nodup := by
  refine List.pairwise_map.2 (h.inOrder.imp_of_mem fun {e e'} he he' hlt heq => ?_)
  rcases h.once e he e' he' heq with rfl | hnone | hnone
  · rw [before_irrefl] at hlt
    cases hlt
  · exact hreal e he hnone
  · exact hreal e' he' hnone

/-- A system in which a link leads to a directory, and another directory has a name to pass over. -/
def crossing : Machine where
  tree := ⟨[(["src"], .directory), (["src", "a.ts"], .file "a".toUTF8),
    (["src", "dist"], .directory), (["src", "dist", "c.ts"], .file "c".toUTF8),
    (["src", "lib"], .directory), (["src", "lib", "b.ts"], .file "b".toUTF8),
    (["way"], .link "src/lib")]⟩
  here := []
  programs := .none

/-- The link, the directory, a directory in it that is passed over from above, and one twice. -/
def crossingTargets : List String := ["way", "src", "src/dist", "src"]

/-- A system with a directory that can be listed but not searched. -/
def barred : Machine where
  tree := ⟨[(["src"], .directory), (["src", "d"], .directory),
    (["src", "d", "a.ts"], .file "a".toUTF8)]⟩
  here := []
  shut := [["src", "d"]]
  programs := .none

end Renaming.Walk
