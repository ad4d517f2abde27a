import Renaming.Proofs.Walk.Key

/-!
What is found below a directory. A walk changes nothing (`reads_collect`), and it finds the files to
which a chain of directories leads (`Chain`), as far as these directories can be listed and the
depth of the walk allows (`mem_below_iff`). The depth is enough for all that can be listed
(`Listed.length_le`).
-/

namespace Renaming

open Renaming.Path (names)

/-! ### Programs that change nothing -/

namespace Machine

/-- A program that leaves every system as it is. -/
def Reads (act : StateM Machine α) : Prop := ∀ s : Machine, (s.does act).2 = s

section

variable {α β : Type} {act : StateM Machine α} {f : α → StateM Machine β} {path : String}

theorem reads_pure (a : α) : Reads (pure a : StateM Machine α) := fun _ => rfl

theorem Reads.bind (h : Reads act) (hf : ∀ a, Reads (f a)) : Reads (act >>= f) := by
  intro s
  rw [does_bind, h s]
  exact hf _ s

theorem reads_read : Reads (Files.read path : StateM Machine _) := fun _ => rfl

theorem reads_list : Reads (Files.list path : StateM Machine _) := fun _ => rfl

theorem reads_kind? : Reads (Files.kind? path : StateM Machine _) := fun _ => rfl

theorem reads_realPath? : Reads (Files.realPath? path : StateM Machine _) := fun _ => rfl

theorem reads_readText (path : String) : Reads (Files.readText path : StateM Machine _) := by
  refine reads_read.bind fun r => ?_
  split
  · exact reads_pure _
  · split <;> exact reads_pure _

end

end Machine

namespace Walk

open Machine

theorem reads_realPath (path : String) : Reads (realPath path : StateM Machine _) :=
  reads_realPath?.bind fun _ => reads_pure _

theorem reads_resolve (home target : String) :
    Reads (resolve home target : StateM Machine _) := by
  unfold resolve
  refine reads_kind?.bind fun k => ?_
  split <;> exact reads_pure _

theorem reads_passes (w : Wanted) (path name : String) :
    Reads (w.passes path name : StateM Machine _) := by
  unfold Wanted.passes
  split
  · exact reads_pure _
  split
  · exact reads_pure _
  exact reads_realPath?.bind fun _ => reads_pure _

theorem reads_atEntry (w : Wanted)
    {deeper : String → String → StateM Machine (List Found × List Unlisted)}
    (hdeeper : ∀ dir way, Reads (deeper dir way)) (dir way name : String) (kind : Kind) :
    Reads (atEntry w deeper dir way name kind) := by
  cases kind with
  | directory =>
    refine (reads_passes w _ name).bind fun b => ?_
    split
    · exact reads_pure _
    · exact hdeeper _ _
  | file | other => exact reads_pure _

theorem reads_among (w : Wanted)
    {deeper : String → String → StateM Machine (List Found × List Unlisted)}
    (hdeeper : ∀ dir way, Reads (deeper dir way)) (dir way : String)
    (entries : List (String × Kind)) : Reads (among w deeper dir way entries) := by
  induction entries with
  | nil => exact reads_pure _
  | cons e rest ih =>
    exact (reads_atEntry w hdeeper dir way e.1 e.2).bind fun _ => ih.bind fun _ => reads_pure _

theorem reads_below (w : Wanted) (depth : Nat) (dir way : String) :
    Reads (below w depth dir way : StateM Machine _) := by
  induction depth generalizing dir way with
  | zero => exact reads_pure _
  | succ depth ih =>
    refine reads_list.bind fun r => ?_
    split
    · exact reads_pure _
    · exact reads_among w (fun _ _ => ih _ _) dir way _

theorem reads_addFound (name : String) (found : List Found) (p : Progress) :
    Reads (addFound name found p : StateM Machine _) := by
  induction found generalizing p with
  | nil => exact reads_pure _
  | cons f rest ih => exact (reads_realPath _).bind fun _ => ih _

theorem reads_walkAll (home : String) (w : Wanted) (targets : List String) (p : Progress) :
    Reads (walkAll home w targets p : StateM Machine _) := by
  induction targets generalizing p with
  | nil => exact reads_pure _
  | cons target rest ih =>
    refine (reads_resolve home target).bind fun r => ?_
    split
    · exact reads_pure _
    · refine (reads_realPath _).bind fun real => ?_
      exact (reads_below w _ _ _).bind fun _ => (reads_addFound _ _ _).bind fun _ => ih _

/-- A walk changes nothing. -/
theorem reads_collect (home : String) (targets extensions excluded skipped : List String) :
    Reads (collect home targets extensions excluded skipped : StateM Machine _) := by
  unfold collect
  split
  · exact reads_pure _
  · refine (reads_walkAll home _ targets _).bind fun r => ?_
    split <;> exact reads_pure _

/-! ### Chains of directories -/

/-- Whether a directory is passed over, for its name or for its place. -/
def Wanted.avoids (w : Wanted) (s : Machine) (path name : String) : Bool :=
  isExcluded w.excluded name || (s.realPath? path).any w.skips

/-- From a directory, which is walked on a path, a chain of directories in it leads to a file that
is taken; none of them is passed over. -/
inductive Chain (s : Machine) (w : Wanted) : String → Place → List String → Prop
  | file {dir : String} {D : Place} {name : String} {bytes : ByteArray}
    (hfile : s.tree.get? (D ++ [name]) = some (.file bytes)) (htakes : w.takes name = true) :
    Chain s w dir D [name]
  | down {dir : String} {D : Place} {name : String} {us : List String}
    (hdir : s.tree.get? (D ++ [name]) = some .directory)
    (hpass : w.avoids s (Path.join dir name) name = false)
    (next : Chain s w (Path.join dir name) (D ++ [name]) us) : Chain s w dir D (name :: us)

variable {s s' : Machine} {w : Wanted} {dir way path name : String} {D : Place} {us : List String}

namespace Chain

theorem ne_nil (h : Chain s w dir D us) : us ≠ [] := by
  cases h <;> exact List.cons_ne_nil _ _

/-- The file to which a chain leads. -/
theorem exists_file (h : Chain s w dir D us) :
    ∃ bytes, s.tree.get? (D ++ us) = some (.file bytes) := by
  induction h with
  | file hfile => exact ⟨_, hfile⟩
  | down _ _ _ ih => simpa using ih

theorem isPlain (hs : s.Ordered) (h : Chain s w dir D us) (hname : name ∈ us) :
    Path.IsPlain name := by
  obtain ⟨bytes, hfile⟩ := h.exists_file
  exact hs.tree.isPlain hfile (List.mem_append_right D hname)

theorem isWay (hs : s.Ordered) (h : Chain s w dir D us) : Path.IsWay ("/".intercalate us) :=
  Path.isWay_intercalate h.ne_nil fun _ => h.isPlain hs

theorem names (hs : s.Ordered) (h : Chain s w dir D us) :
    Path.names ("/".intercalate us) = us :=
  Path.names_intercalate h.ne_nil fun _ => h.isPlain hs

/-- The file to which a chain leads is found on the path of the chain. -/
theorem exists_find (hs : s.Ordered) (hD : s.opened.Leads dir D) (h : Chain s w dir D us) :
    ∃ bytes, s.opened.find (Path.join dir ("/".intercalate us)) = .ok (D ++ us, .file bytes) := by
  obtain ⟨bytes, hfile⟩ := h.exists_file
  have hnames := h.names hs
  have hfind := hD.find_join (n := .file bytes) hs.opened (h.isWay hs)
    (hnames.symm ▸ hs.admits_opened hfile) (hnames.symm ▸ hfile) nofun
  rw [hnames] at hfind
  exact ⟨bytes, hfind⟩

/-- If the path of a chain has a path without links, nothing on the way to its file is shut. -/
theorem clear (hs : s.Ordered) (hD : s.Leads dir D) (h : Chain s w dir D us)
    (hreal : s.realPath? (Path.join dir ("/".intercalate us)) ≠ none) :
    Fits (pathOf (D ++ us)) ∧ ∀ q, q <+: D ++ us → q ≠ D ++ us → q ∉ s.shut := by
  obtain ⟨b, hb⟩ := h.exists_find hs hD.opened
  exact clear_of_findBy_fromRoot (findBy_of_realPath? hb hreal)

/-- If the path of a chain has a path without links, its file is found on it. -/
theorem exists_find_of_realPath? (hs : s.Ordered) (hD : s.Leads dir D) (h : Chain s w dir D us)
    (hreal : s.realPath? (Path.join dir ("/".intercalate us)) ≠ none) :
    ∃ bytes, s.find (Path.join dir ("/".intercalate us)) = .ok (D ++ us, .file bytes) := by
  obtain ⟨bytes, hfile⟩ := h.exists_file
  have hnames := h.names hs
  have hadmits : s.look.Admits D us := by
    refine hs.admits hfile fun ys y hle => (h.clear hs hD hreal).2 _ ?_ ?_
    · exact (List.prefix_append_right_inj D).2 ((List.prefix_append ..).trans hle)
    · rw [Ne, List.append_cancel_left_eq]
      rintro rfl
      exact absurd hle.length_le (by simp)
  have hfind := hD.find_join (n := .file bytes) hs (h.isWay hs) (hnames.symm ▸ hadmits)
    (hnames.symm ▸ hfile) nofun
  rw [hnames] at hfind
  exact ⟨bytes, hfind⟩

end Chain

/-! ### Directories that can be listed -/

/-- The directories of a chain can be listed on the paths on which the walk comes to them. -/
def Listed (s : Machine) : String → List String → Prop
  | _, [] => True
  | dir, name :: us => (∃ entries, s.list dir = .ok entries) ∧ Listed s (Path.join dir name) us

theorem fits_of_list {entries : List (String × Kind)} (h : s.list path = .ok entries) :
    Fits path ∧ ∃ p, s.Leads path p ∧
      entries = (s.tree.children p).map fun (name, n) => (name, n.kind) := by
  unfold list at h
  split at h
  · cases h
  next p hp =>
    obtain ⟨hfits, hfind⟩ := given_eq_ok_iff.1 hp
    split at h
    · cases h
    · cases h
      exact ⟨hfits, p, find_directory_iff.1 hfind, rfl⟩
  · cases h

/-- What is listed on a path that leads to a directory is what stands in it. -/
theorem entries_of_list (hD : s.opened.Leads dir D) {entries : List (String × Kind)}
    (h : s.list dir = .ok entries) :
    entries = (s.tree.children D).map fun (name, n) => (name, n.kind) := by
  obtain ⟨-, p, hp, rfl⟩ := fits_of_list h
  rw [hp.opened.unique hD]

/-- The walk is deep enough for all that can be listed: the paths of the directories grow. -/
theorem Listed.length_le (hus : ∀ name ∈ us, Path.IsPlain name) (h : Listed s dir us) :
    us.length ≤ maxDepth := by
  suffices hsize : us ≠ [] → dir.utf8ByteSize + us.length ≤ maxPath + 1 by
    cases us with
    | nil => exact Nat.zero_le _
    | cons => exact Nat.le_trans (Nat.le_add_left ..) (hsize (List.cons_ne_nil _ _))
  intro hne
  induction us generalizing dir with
  | nil => exact absurd rfl hne
  | cons name us ih =>
    obtain ⟨⟨entries, hentries⟩, hnext⟩ := h
    have hfits : dir.utf8ByteSize ≤ maxPath := (fits_of_list hentries).1
    by_cases hempty : us = []
    · simpa [hempty] using hfits
    · have hname := hus name List.mem_cons_self
      have hlonger := Path.size_join dir hname.isAbsolute
      have hpos : 0 < name.utf8ByteSize :=
        Nat.pos_of_ne_zero fun h => hname.ne_empty (String.utf8ByteSize_eq_zero_iff.1 h)
      have := ih (fun x hx => hus x (List.mem_cons_of_mem _ hx)) hnext hempty
      rw [List.length_cons]
      omega

/-- Walking one directory, the walk comes to another one. -/
inductive Comes (s : Machine) (w : Wanted) : String → String → Prop
  | here (dir : String) : Comes s w dir dir
  | down {dir name dir' : String} {entries : List (String × Kind)}
    (hlist : s.list dir = .ok entries) (hmem : (name, .directory) ∈ entries)
    (hpass : w.avoids s (Path.join dir name) name = false)
    (next : Comes s w (Path.join dir name) dir') : Comes s w dir dir'

/-- All directories to which the walk of a directory comes can be listed. -/
def Listable (s : Machine) (w : Wanted) (dir : String) : Prop :=
  ∀ dir', Comes s w dir dir' → ∃ entries, s.list dir' = .ok entries

theorem Listable.of_list {entries : List (String × Kind)} (h : s.list dir = .ok entries)
    (hdeeper : ∀ name, (name, .directory) ∈ entries →
      w.avoids s (Path.join dir name) name = true ∨ Listable s w (Path.join dir name)) :
    Listable s w dir := by
  intro dir' hcomes
  cases hcomes with
  | here => exact ⟨entries, h⟩
  | @down _ name _ _ hlist hmem hpass next =>
    cases h.symm.trans hlist
    rcases hdeeper name hmem with havoids | hlistable
    · exact Bool.noConfusion (hpass.symm.trans havoids)
    · exact hlistable dir' next

/-! ### One entry of a directory -/

theorem leads_join (hs : s.Ordered) (hD : s.opened.Leads dir D)
    (hdir : s.tree.get? (D ++ [name]) = some .directory) :
    s.opened.Leads (Path.join dir name) (D ++ [name]) := by
  have hname : Path.IsPlain name := hs.tree.isPlain hdir (by simp)
  have hfind := hD.find_join (n := .directory) hs.opened hname.isWay
    (hname.names.symm ▸ hs.admits_opened hdir) (hname.names.symm ▸ hdir) (by decide)
  rwa [hname.names, find_directory_iff] at hfind

/-- The path of a chain without its first directory. -/
theorem join_intercalate_cons (hs : s.Ordered) (hdir : s.tree.get? (D ++ [name]) = some .directory)
    (h : Chain s w (Path.join dir name) (D ++ [name]) us) :
    Path.join (Path.join dir name) ("/".intercalate us) =
      Path.join dir ("/".intercalate (name :: us)) := by
  have hname : Path.IsPlain name := hs.tree.isPlain hdir (by simp)
  obtain ⟨u, us, rfl⟩ := List.exists_cons_of_ne_nil h.ne_nil
  rw [(h.isWay hs).join_join dir hname, String.intercalate_cons_cons, String.append_assoc]

/-- If the path of a chain has a path without links, so has that of its first directory. -/
theorem Chain.realPath?_first (hs : s.Ordered) (hD : s.Leads dir D)
    (hdir : s.tree.get? (D ++ [name]) = some .directory)
    (hpass : w.avoids s (Path.join dir name) name = false)
    (h : Chain s w (Path.join dir name) (D ++ [name]) us)
    (hreal : s.realPath? (Path.join dir ("/".intercalate (name :: us))) ≠ none) :
    s.Leads (Path.join dir name) (D ++ [name]) ∧
      s.realPath? (Path.join dir name) = some (pathOf (D ++ [name])) := by
  have hname : Path.IsPlain name := hs.tree.isPlain hdir (by simp)
  have hchain : Chain s w dir D (name :: us) := .down hdir hpass h
  obtain ⟨b, hb⟩ := hchain.exists_find hs hD.opened
  have hD' := hD.findBy_of_join (hchain.isWay hs) (findBy_of_realPath? hb hreal)
  obtain ⟨hfits, hclear⟩ := hchain.clear hs hD hreal
  have hle : D ++ [name] <+: D ++ name :: us := ⟨us, (List.append_cons ..).symm⟩
  have hopen : ∀ q, q <+: D → q ∉ s.shut := fun q hq => by
    refine hclear q (hq.trans (List.prefix_append _ _)) ?_
    rintro rfl
    exact absurd hq.length_le (by simp)
  have hsize := hs.tree.size_le hdir
  have hlook : s.look D name = none := by
    rw [Scene.look, if_neg (hopen D List.prefix_rfl), if_neg (by omega)]
  have hroot : s.lookFromRoot D name = none :=
    lookFromRoot_of_clear hsize (fits_pathOf_above hle hfits) hopen
  have hdown : s.tree.get? (D ++ Path.names name) = some .directory := by rwa [hname.names]
  constructor
  · have hfind := hD.find_join hs hname.isWay (hname.names.symm ▸ Look.admits_singleton hlook)
      hdown (by decide)
    rwa [hname.names, find_directory_iff] at hfind
  · have hfind := findBy_join hs hD' hname.isWay
      (hname.names.symm ▸ Look.admits_singleton hroot) hdown (by decide)
    rw [hname.names] at hfind
    exact realPath?_of_findBy hfind

theorem does_passes (w : Wanted) (path name : String) :
    s.does (w.passes path name) = (w.avoids s path name, s) := by
  unfold Wanted.passes Wanted.avoids
  cases isExcluded w.excluded name with
  | true => rfl
  | false =>
    by_cases hskipped : w.skipped = []
    · have hskips : w.skips = fun _ => false := by
        funext real
        rw [Wanted.skips, hskipped, List.any_nil]
      simp [hskipped, hskips]
    · simp [hskipped]

/-- The file to which names lead from a directory, with the way there. -/
def foundAt (dir way : String) (us : List String) : Found :=
  (Path.join dir ("/".intercalate us), wayTo way ("/".intercalate us))

theorem wayTo_wayTo (hname : name ≠ "") (rel : String) :
    wayTo (wayTo way name) rel = wayTo way (name ++ "/" ++ rel) := by
  unfold wayTo
  by_cases hway : way.isEmpty = true
  · simp [hway, String.isEmpty_iff, hname]
  · have hlong : (way ++ ("/" ++ name)).isEmpty = false :=
      Path.isEmpty_eq_false (by simp [String.append_eq_empty_iff, hname])
    simp only [hway, String.append_assoc, hlong, Bool.false_eq_true, if_false]

/-- What is found further down is found from above. -/
theorem foundAt_cons (hs : s.Ordered) (hdir : s.tree.get? (D ++ [name]) = some .directory)
    (h : Chain s w (Path.join dir name) (D ++ [name]) us) :
    foundAt (Path.join dir name) (wayTo way name) us = foundAt dir way (name :: us) := by
  have hname : Path.IsPlain name := hs.tree.isPlain hdir (by simp)
  have hpath := join_intercalate_cons hs hdir h
  obtain ⟨u, us, rfl⟩ := List.exists_cons_of_ne_nil h.ne_nil
  rw [foundAt, foundAt, hpath, wayTo_wayTo hname.ne_empty, String.intercalate_cons_cons,
    String.append_assoc]

/-! ### All that is below a directory -/

theorem chain_file_iff {bytes : ByteArray} (h : s.tree.get? (D ++ [name]) = some (.file bytes)) :
    Chain s w dir D (name :: us) ↔ us = [] ∧ w.takes name = true := by
  constructor
  · intro hchain
    cases hchain with
    | file _ htakes => exact ⟨rfl, htakes⟩
    | down hdir => cases h.symm.trans hdir
  · rintro ⟨rfl, htakes⟩
    exact .file h htakes

theorem chain_directory_iff (h : s.tree.get? (D ++ [name]) = some .directory) :
    Chain s w dir D (name :: us) ↔ w.avoids s (Path.join dir name) name = false ∧
      Chain s w (Path.join dir name) (D ++ [name]) us := by
  constructor
  · intro hchain
    cases hchain with
    | file hfile => cases h.symm.trans hfile
    | down _ hpass next => exact ⟨hpass, next⟩
  · rintro ⟨hpass, next⟩
    exact .down h hpass next

theorem not_chain_link {target : String} (h : s.tree.get? (D ++ [name]) = some (.link target)) :
    ¬Chain s w dir D (name :: us) := by
  intro hchain
  cases hchain with
  | file hfile => cases h.symm.trans hfile
  | down hdir => cases h.symm.trans hdir

theorem Chain.exists_node (h : Chain s w dir D (name :: us)) :
    ∃ n, s.tree.get? (D ++ [name]) = some n := by
  cases h with
  | file hfile => exact ⟨_, hfile⟩
  | down hdir => exact ⟨_, hdir⟩

/-- The directories of a chain are among those to which the walk comes. -/
theorem Chain.listed (hs : s.Ordered) (hD : s.opened.Leads dir D) (hlistable : Listable s w dir)
    (h : Chain s w dir D us) : Listed s dir us := by
  induction h with
  | file => exact ⟨hlistable _ (.here _), trivial⟩
  | down hdir hpass _ ih =>
    obtain ⟨entries, hentries⟩ := hlistable _ (.here _)
    refine ⟨⟨entries, hentries⟩, ih (leads_join hs hD hdir) fun dir' hcomes =>
      hlistable dir' (.down hentries ?_ hpass hcomes)⟩
    rw [entries_of_list hD hentries]
    exact List.mem_map.2 ⟨_, hs.tree.mem_children_iff.2 hdir, rfl⟩

section

variable {deeper : String → String → StateM Machine (List Found × List Unlisted)}

theorem does_atEntry_directory : s.does (atEntry w deeper dir way name .directory) =
    if w.avoids s (Path.join dir name) name then (([], []), s)
    else s.does (deeper (Path.join dir name) (wayTo way name)) := by
  rw [atEntry, does_bind, does_passes]
  split <;> rfl

/-- What some entries give is what each of them gives. -/
theorem does_among (hreads : ∀ dir way, Reads (deeper dir way)) (entries : List (String × Kind)) :
    s.does (among w deeper dir way entries) =
      ((entries.flatMap fun e => (s.does (atEntry w deeper dir way e.1 e.2)).1.1,
        entries.flatMap fun e => (s.does (atEntry w deeper dir way e.1 e.2)).1.2), s) := by
  induction entries with
  | nil => rfl
  | cons e rest ih =>
    rw [among, does_bind, reads_atEntry w hreads, does_bind, ih]
    rfl

end

/-- The walk of an entry finds the chains that begin with it, if the walk of a directory finds the
chains in it. -/
theorem mem_atEntry_iff (hs : s.Ordered) (hD : s.opened.Leads dir D) {depth : Nat}
    (hdeeper : ∀ dir way D, s.opened.Leads dir D → ∀ f, f ∈ (s.does (below w depth dir way)).1.1 ↔
      ∃ us, Chain s w dir D us ∧ Listed s dir us ∧ us.length ≤ depth ∧ f = foundAt dir way us)
    {n : Node} (hn : s.tree.get? (D ++ [name]) = some n) (f : Found) :
    f ∈ (s.does (atEntry w (below w depth) dir way name n.kind)).1.1 ↔
      ∃ us, Chain s w dir D (name :: us) ∧ Listed s (Path.join dir name) us ∧ us.length ≤ depth ∧
        f = foundAt dir way (name :: us) := by
  cases n with
  | link target =>
    refine ⟨fun hf => absurd hf List.not_mem_nil, ?_⟩
    rintro ⟨us, h, -⟩
    exact absurd h (not_chain_link hn)
  | file bytes =>
    simp only [chain_file_iff hn, Node.kind, atEntry, does_pure]
    constructor
    · intro hf
      split at hf
      next htakes => exact ⟨[], ⟨rfl, htakes⟩, trivial, Nat.zero_le _, List.mem_singleton.1 hf⟩
      next => cases hf
    · rintro ⟨us, ⟨rfl, htakes⟩, -, -, rfl⟩
      rw [if_pos htakes]
      exact List.mem_singleton_self _
  | directory =>
    rw [Node.kind, does_atEntry_directory]
    simp only [chain_directory_iff hn]
    split
    next hpass =>
      refine ⟨fun hf => absurd hf List.not_mem_nil, ?_⟩
      rintro ⟨us, ⟨hnot, -⟩, -⟩
      exact Bool.noConfusion (hnot.symm.trans hpass)
    next hpass =>
      rw [hdeeper _ _ _ (leads_join hs hD hn)]
      simp only [Bool.eq_false_iff.2 hpass, true_and]
      constructor
      · rintro ⟨us, hchain, hlisted, hlength, rfl⟩
        exact ⟨us, hchain, hlisted, hlength, foundAt_cons hs hn hchain⟩
      · rintro ⟨us, hchain, hlisted, hlength, rfl⟩
        exact ⟨us, hchain, hlisted, hlength, (foundAt_cons hs hn hchain).symm⟩

/-- **The walk below a directory is sound and complete**: it finds the files to which chains of
directories lead that can be listed, and that are not too deep for it. -/
theorem mem_below_iff (hs : s.Ordered) (hD : s.opened.Leads dir D) (depth : Nat) (f : Found) :
    f ∈ (s.does (below w depth dir way)).1.1 ↔ ∃ us, Chain s w dir D us ∧ Listed s dir us ∧
      us.length ≤ depth ∧ f = foundAt dir way us := by
  induction depth generalizing dir way D f with
  | zero => exact ⟨nofun, fun ⟨us, h, _, hlength, _⟩ =>
      absurd (List.length_eq_zero_iff.1 (Nat.le_zero.1 hlength)) h.ne_nil⟩
  | succ depth ih =>
    rw [below, does_bind, does_list]
    cases hlist : s.list dir with
    | error e =>
      refine ⟨nofun, fun ⟨us, h, hlisted, _⟩ => ?_⟩
      obtain ⟨name, us, rfl⟩ := List.exists_cons_of_ne_nil h.ne_nil
      obtain ⟨entries, hentries⟩ := hlisted.1
      cases hlist.symm.trans hentries
    | ok entries =>
      obtain rfl := entries_of_list hD hlist
      dsimp only
      rw [does_among (reads_below w depth), List.mem_flatMap]
      constructor
      · rintro ⟨e, he, hf⟩
        obtain ⟨⟨name, n⟩, hmem, rfl⟩ := List.mem_map.1 he
        obtain ⟨us, hchain, hlisted, hlength, rfl⟩ :=
          (mem_atEntry_iff hs hD (fun _ _ _ h => ih h) (hs.tree.mem_children_iff.1 hmem) f).1 hf
        exact ⟨name :: us, hchain, ⟨⟨_, hlist⟩, hlisted⟩, Nat.succ_le_succ hlength, rfl⟩
      · rintro ⟨us, hchain, hlisted, hlength, rfl⟩
        obtain ⟨name, us, rfl⟩ := List.exists_cons_of_ne_nil hchain.ne_nil
        obtain ⟨n, hn⟩ := hchain.exists_node
        refine ⟨(name, n.kind), List.mem_map.2 ⟨(name, n), hs.tree.mem_children_iff.2 hn, rfl⟩, ?_⟩
        exact (mem_atEntry_iff hs hD (fun _ _ _ h => ih h) hn _).2
          ⟨us, hchain, hlisted.2, Nat.le_of_succ_le_succ hlength, rfl⟩

/-- Where all directories can be listed to which the walk comes, there is none that could not be
listed. -/
theorem unlisted_below (hs : s.Ordered) (hlistable : Listable s w dir) (hD : s.opened.Leads dir D)
    (depth : Nat) : (s.does (below w depth dir way)).1.2 = [] := by
  induction depth generalizing dir way D with
  | zero => rfl
  | succ depth ih =>
    obtain ⟨entries, hlist⟩ := hlistable dir (.here dir)
    have hentries := entries_of_list hD hlist
    rw [below, does_bind, does_list, hlist]
    dsimp only
    rw [does_among (reads_below w depth), List.flatMap_eq_nil_iff]
    rintro ⟨name, kind⟩ he
    cases kind with
    | file | other => rfl
    | directory =>
      dsimp only
      rw [does_atEntry_directory]
      split
      · rfl
      next hpass =>
        rw [hentries] at he
        obtain ⟨⟨name', n⟩, hmem, heq⟩ := List.mem_map.1 he
        obtain ⟨rfl, hkind⟩ := Prod.mk.inj heq
        cases n <;> cases hkind
        exact ih (fun dir' hcomes => hlistable dir' (.down hlist (hentries ▸ he)
          (Bool.eq_false_iff.2 hpass) hcomes))
          (leads_join hs hD (hs.tree.mem_children_iff.1 hmem))

end Walk

end Renaming
