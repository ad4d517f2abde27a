import Renaming.Machine.Basic
import Renaming.Proofs.Machine.Follow

/-!
What the requests do to a system. `Machine.does` carries out a program that is made of requests.
`find_directory_iff` and the lemmas behind it say where paths lead, also after other changes and
below a directory that a path leads to; `makeDir_ok`, `write_cases` and `rename_cases` say what a
request can change.
-/

namespace Renaming

theorem eq_ok_of_toOption {ε α : Type} {r : Except ε α} {a : α} (h : r.toOption = some a) :
    r = .ok a := by
  cases r with
  | error e => cases h
  | ok b => rw [Option.some.inj h]

namespace Machine

variable {s x : Machine} {look : Look} {path dir rel : String} {p q d : Place} {n : Node}
  {bytes : ByteArray}

/-! ### Programs -/

/-- What a program gives on a system, and the system after it. -/
def does (s : Machine) (act : StateM Machine α) : α × Machine := (act.run s).run

section

variable {α β : Type} {act : StateM Machine α} {f : α → StateM Machine β}

@[simp] theorem does_pure (a : α) : s.does (pure a) = (a, s) := rfl

@[simp] theorem does_map (g : α → β) :
    s.does (g <$> act) = (g (s.does act).1, (s.does act).2) := rfl

theorem does_bind : s.does (act >>= f) = (s.does act).2.does (f (s.does act).1) := rfl

/-- One program after another: the second one starts from what the first one leaves. -/
theorem does_bind_eq_iff {r : β × Machine} :
    s.does (act >>= f) = r ↔ ∃ a s', s.does act = (a, s') ∧ s'.does (f a) = r :=
  ⟨fun h => ⟨_, _, rfl, h⟩, fun ⟨_, _, h, h'⟩ => by rw [does_bind, h]; exact h'⟩

end

@[simp] theorem does_read : s.does (Files.read path) = (s.read path, s) := rfl

@[simp] theorem does_list : s.does (Files.list path) = (s.list path, s) := rfl

@[simp] theorem does_kind? : s.does (Files.kind? path) = (s.kind? path, s) := rfl

@[simp] theorem does_realPath? : s.does (Files.realPath? path) = (s.realPath? path, s) := rfl

@[simp] theorem does_makeDir : s.does (Files.makeDir path) = s.makeDir path := rfl

@[simp] theorem does_write : s.does (Files.write path bytes) = s.write path bytes := rfl

@[simp] theorem does_rename {target : String} :
    s.does (Files.rename path target) = s.rename path target := rfl

@[simp] theorem does_launch {c : Check} : s.does (Files.launch c) = s.launch c := rfl

/-! ### Where paths lead -/

/-- A system that is in order: its tree is, it stands in a directory, and what is shut are
directories too. -/
structure Ordered (s : Machine) : Prop where
  tree : s.tree.Sound
  here : s.tree.get? s.here = some .directory
  shut : ∀ p ∈ s.shut, s.tree.get? p = some .directory

instance (s : Machine) : Decidable s.Ordered :=
  decidable_of_iff (s.tree.Sound ∧ s.tree.get? s.here = some .directory ∧
      ∀ p ∈ s.shut, s.tree.get? p = some .directory)
    ⟨fun ⟨h1, h2, h3⟩ => ⟨h1, h2, h3⟩, fun ⟨h1, h2, h3⟩ => ⟨h1, h2, h3⟩⟩

theorem startOf_eq (here : Place) (path : String) :
    startOf here path = if Path.isAbsolute path then [] else here := by
  simp [startOf, Path.isAbsolute]

theorem startOf_join (here : Place) (dir : String) (h : Path.isAbsolute rel = false) :
    startOf here (Path.join dir rel) = startOf here dir := by
  rw [startOf_eq, startOf_eq, Path.isAbsolute_join dir h]

theorem Ordered.start (hs : s.Ordered) (path : String) :
    s.tree.get? (startOf s.here path) = some .directory := by
  rw [startOf_eq]
  split
  · rfl
  · exact hs.here

/-- The spot at which a path starts. -/
def spotOf (s : Machine) (path : String) : Spot :=
  ⟨maxLinks, false, startOf s.here path, Path.names path⟩

/-- A path leads to a directory. -/
def Leads (s : Machine) (path : String) (d : Place) : Prop :=
  '\x00' ∉ path.toList ∧ path ≠ "" ∧ ∃ L m, s.tree.Goes s.look (s.spotOf path) ⟨L, m, d, []⟩

theorem reachBy_eq {walk : Place → List String → Except SystemError Reached}
    (hnul : '\x00' ∉ path.toList) (hne : path ≠ "") :
    s.reachBy walk path = walk (startOf s.here path) (Path.names path) := by
  simp [reachBy, hnul, hne, String.isEmpty_iff]

theorem reach_eq (hnul : '\x00' ∉ path.toList) (hne : path ≠ "") (followLast m : Bool) :
    s.reach followLast m path =
      s.tree.follow s.look followLast maxLinks m (startOf s.here path) (Path.names path) :=
  reachBy_eq hnul hne

theorem reachBy_eq_ok {walk : Place → List String → Except SystemError Reached} {r : Reached}
    (h : s.reachBy walk path = .ok r) :
    '\x00' ∉ path.toList ∧ path ≠ "" ∧ walk (startOf s.here path) (Path.names path) = .ok r := by
  unfold reachBy at h
  split at h
  · cases h
  next hnul =>
    split at h
    · cases h
    next hne => exact ⟨by simpa using hnul, by simpa [String.isEmpty_iff] using hne, h⟩

theorem reach_eq_ok {followLast m : Bool} {r : Reached} (h : s.reach followLast m path = .ok r) :
    '\x00' ∉ path.toList ∧ path ≠ "" ∧
      s.tree.follow s.look followLast maxLinks m (startOf s.here path) (Path.names path) = .ok r :=
  reachBy_eq_ok h

theorem findBy_eq_ok_iff : s.findBy look path = .ok (p, n) ↔
    s.reachBy (s.tree.follow look true maxLinks (asksForDir path)) path = .ok (.node p n) := by
  unfold findBy
  split <;> simp_all

theorem find_eq_ok_iff : s.find path = .ok (p, n) ↔
    s.reach true (asksForDir path) path = .ok (.node p n) := findBy_eq_ok_iff

/-- What is found stands at the end of the way of the path. -/
theorem exists_goes_of_findBy (h : s.findBy look path = .ok (p, n)) : '\x00' ∉ path.toList ∧
    path ≠ "" ∧ ∃ c, s.tree.Goes look
      ⟨maxLinks, asksForDir path, startOf s.here path, Path.names path⟩ c ∧
        s.tree.Ends look true c (.node p n) := by
  obtain ⟨hnul, hne, hfollow⟩ := reachBy_eq_ok (findBy_eq_ok_iff.1 h)
  exact ⟨hnul, hne, Tree.exists_goes_of_follow hfollow⟩

theorem findBy_of_goes {c : Spot} (hnul : '\x00' ∉ path.toList) (hne : path ≠ "")
    (hgo : s.tree.Goes look ⟨maxLinks, asksForDir path, startOf s.here path, Path.names path⟩ c)
    (hend : s.tree.Ends look true c (.node p n)) : s.findBy look path = .ok (p, n) := by
  rw [findBy_eq_ok_iff, reachBy_eq hnul hne]
  exact hgo.follow.trans hend.follow

/-- What is found is found too if names are looked up in another way that finds all that is
there. -/
theorem findBy_relook {look' : Look}
    (hdots : ∀ here, (look here "." = none → look' here "." = none) ∧
      (look here ".." = none → look' here ".." = none))
    (hopen : ∀ here name n, s.tree.get? (here ++ [name]) = some n → look here name = none →
      look' here name = none) (h : s.findBy look path = .ok (p, n)) :
    s.findBy look' path = .ok (p, n) := by
  obtain ⟨hnul, hne, c, hgo, hend⟩ := exists_goes_of_findBy h
  refine findBy_of_goes hnul hne (hgo.relook hdots hopen) ?_
  cases hend with
  | here => exact .here
  | file hdot hup hlook hfile => exact .file hdot hup (hopen _ _ _ hfile hlook) hfile
  | link _ _ _ hlast => cases hlast

/-- What is found is a directory or a file. -/
theorem kind_of_findBy (h : s.findBy look path = .ok (p, n)) : n.kind ≠ .other := by
  obtain ⟨-, -, c, -, hend⟩ := exists_goes_of_findBy h
  cases hend with
  | here | file => nofun
  | link _ _ _ hlast => cases hlast

/-- A directory is what is found where the way of a path ends. -/
theorem findBy_directory_iff : s.findBy look path = .ok (d, .directory) ↔
    '\x00' ∉ path.toList ∧ path ≠ "" ∧ ∃ L m, s.tree.Goes look (s.spotOf path) ⟨L, m, d, []⟩ := by
  constructor
  · intro h
    obtain ⟨hnul, hne, c, hgo, hend⟩ := exists_goes_of_findBy h
    cases hend with
    | here =>
      obtain ⟨m, hgo⟩ := hgo.anyFlag false
      exact ⟨hnul, hne, _, m, hgo⟩
  · rintro ⟨hnul, hne, L, m, hgo⟩
    obtain ⟨m', hgo⟩ := hgo.anyFlag (asksForDir path)
    exact findBy_of_goes hnul hne hgo .here

/-- A path leads to a directory if and only if the directory is what is found there. -/
theorem find_directory_iff : s.find path = .ok (d, .directory) ↔ s.Leads path d :=
  findBy_directory_iff

theorem Leads.unique (h : s.Leads path p) (h' : s.Leads path q) : p = q := by
  have := (find_directory_iff.2 h).symm.trans (find_directory_iff.2 h')
  simpa using this

theorem Leads.standing (hs : s.Ordered) (h : s.Leads path d) : s.tree.get? d = some .directory := by
  obtain ⟨-, -, _, _, hgo⟩ := h
  exact hgo.standing hs.tree (hs.start path)

/-- What leads to a directory does so as long as directories and links stay. -/
theorem Leads.mono (hscene : x.toScene = s.toScene) (ht : s.tree.Holds x.tree)
    (h : s.Leads path d) : x.Leads path d := by
  obtain ⟨hnul, hne, L, m, hgo⟩ := h
  refine ⟨hnul, hne, L, m, ?_⟩
  rw [spotOf, hscene]
  exact hgo.mono ht

/-- What a path leads to stands where it says. -/
theorem get?_of_findBy (hs : s.Ordered) (h : s.findBy look path = .ok (p, n)) :
    s.tree.get? p = some n := by
  obtain ⟨-, -, h⟩ := reachBy_eq_ok (findBy_eq_ok_iff.1 h)
  exact Tree.get?_of_follow hs.tree (hs.start path) h

theorem get?_of_find (hs : s.Ordered) (h : s.find path = .ok (p, n)) : s.tree.get? p = some n :=
  get?_of_findBy hs h

/-- A path that leads to a file still does when other things have changed: directories and links
have stayed, and a file still stands there. -/
theorem findBy_file_of_holds {b b' : ByteArray} (hscene : x.toScene = s.toScene)
    (ht : s.tree.Holds x.tree) (h : s.findBy look path = .ok (p, .file b))
    (hb : x.tree.get? p = some (.file b')) : x.findBy look path = .ok (p, .file b') := by
  obtain ⟨hnul, hne, c, hgo, hend⟩ := exists_goes_of_findBy h
  rw [← hscene] at hgo
  cases hend with
  | file hdot hup hlook _ => exact findBy_of_goes hnul hne (hgo.mono ht) (.file hdot hup hlook hb)

theorem find_file_of_holds {b b' : ByteArray} (hscene : x.toScene = s.toScene)
    (ht : s.tree.Holds x.tree) (h : s.find path = .ok (p, .file b))
    (hb : x.tree.get? p = some (.file b')) : x.find path = .ok (p, .file b') := by
  rw [find, hscene]
  exact findBy_file_of_holds hscene ht h hb

/-! ### The ways names are looked up -/

theorem size_le_of_look {here : Place} {name : String} (h : s.look here name = none) :
    name.utf8ByteSize ≤ maxName := by
  simp only [Scene.look] at h
  split at h
  · cases h
  split at h
  · cases h
  · omega

/-- Where no directory on the way is shut, what stands below a place can be looked up from there. -/
theorem Ordered.admits (hs : s.Ordered) {xs : List String} (hn : s.tree.get? (p ++ xs) = some n)
    (hshut : ∀ ys y, ys ++ [y] <+: xs → p ++ ys ∉ s.shut) : s.look.Admits p xs := by
  intro ys y hle
  have hbelow : p ++ ys ++ [y] <+: p ++ xs := by
    rw [List.append_assoc]
    exact (List.prefix_append_right_inj p).2 hle
  cases hy : s.tree.get? (p ++ ys ++ [y]) with
  | none => cases (hs.tree.none_below hy hbelow).symm.trans hn
  | some =>
    have hsize := hs.tree.size_le hy
    rw [Scene.look, if_neg (hshut ys y hle), if_neg (by omega)]

theorem realPath?_of_findBy (h : s.findBy s.lookFromRoot path = .ok (p, n)) :
    s.realPath? path = some (pathOf p) := by
  rw [Machine.realPath?, h]

/-- From the root nothing that is shut stands above a file, and the path to it is not too long. -/
theorem clear_of_findBy_fromRoot {b : ByteArray}
    (h : s.findBy s.lookFromRoot path = .ok (p, .file b)) :
    Fits (pathOf p) ∧ ∀ q, q <+: p → q ≠ p → q ∉ s.shut := by
  obtain ⟨-, -, c, -, hend⟩ := exists_goes_of_findBy h
  cases hend with
  | @file L here name _ hdot hup hlook _ =>
    rw [Scene.lookFromRoot, if_neg (not_or.2 ⟨hdot, hup⟩)] at hlook
    split at hlook
    · cases hlook
    next hclear =>
      split at hlook
      · cases hlook
      next hshort =>
        refine ⟨Decidable.not_not.1 (not_or.1 hshort).2, fun q hle hne hq => hclear ?_⟩
        have hle := (List.prefix_concat_iff.1 hle).resolve_left hne
        exact List.any_eq_true.2 ⟨q, hq, List.isPrefixOf_iff_prefix.2 hle⟩

theorem lookFromRoot_of_clear {name : String} (hsize : name.utf8ByteSize ≤ maxName)
    (hfits : Fits (pathOf (p ++ [name]))) (hclear : ∀ q, q <+: p → q ∉ s.shut) :
    s.lookFromRoot p name = none := by
  have hany : ¬s.shut.any (·.isPrefixOf p) = true := by
    rw [List.any_eq_true]
    rintro ⟨q, hq, hle⟩
    exact hclear q (List.isPrefixOf_iff_prefix.1 hle) hq
  rw [Scene.lookFromRoot, if_neg hany, if_neg (not_or.2 ⟨by omega, not_not_intro hfits⟩), ite_self]

/-! ### Below a directory -/

theorem nul_not_mem_join (hdir : '\x00' ∉ dir.toList) (hrel : '\x00' ∉ rel.toList) :
    '\x00' ∉ (Path.join dir rel).toList := by
  intro h
  rcases Path.mem_join h with h | h | h
  · exact hdir h
  · exact absurd h (by decide)
  · exact hrel h

/-- A path taken from a directory is followed from there. -/
theorem Leads.reach_join (h : s.Leads dir d) (hrel : Path.IsWay rel) :
    ∃ L, ∀ followLast m, s.reach followLast m (Path.join dir rel) =
      s.tree.follow s.look followLast L m d (Path.names rel) := by
  obtain ⟨hnul, -, L, m, hgo⟩ := h
  refine ⟨L, fun followLast m => ?_⟩
  rw [reach_eq (nul_not_mem_join hnul hrel.nul) (Path.join_ne_empty dir hrel.ne_empty),
    startOf_join _ _ hrel.isAbsolute, Path.names_join _ hrel.isAbsolute]
  exact hgo.follow_append hrel.names_ne_nil followLast m

/-- If the path of a name in a directory leads anywhere, the name can be looked up there. -/
theorem Leads.look_of_reach_join {name : String} (h : s.Leads dir d) (hname : Path.IsPlain name)
    {followLast m : Bool} {r : Reached} (hr : s.reach followLast m (Path.join dir name) = .ok r) :
    s.look d name = none := by
  obtain ⟨L, hreach⟩ := h.reach_join hname.isWay
  rw [hreach, hname.names] at hr
  exact Tree.look_of_follow hr

/-- If a path taken from a directory leads anywhere, the path of the directory leads to one. -/
theorem exists_leads_of_reach_join (hdir : Path.IsTidy dir) (hrel : Path.IsWay rel)
    {followLast m : Bool} {r : Reached} (h : s.reach followLast m (Path.join dir rel) = .ok r) :
    ∃ d, s.Leads dir d := by
  obtain ⟨hnul, -, hfollow⟩ := reach_eq_ok h
  rw [hdir.join_eq hrel.isAbsolute] at hnul
  rw [startOf_join _ _ hrel.isAbsolute, Path.names_join _ hrel.isAbsolute] at hfollow
  obtain ⟨c, hgo, hend⟩ := Tree.exists_goes_of_follow hfollow
  have hpast := Nat.le_trans hend.length_le (List.length_pos_iff.2 hrel.names_ne_nil)
  obtain ⟨L, m', d, hgo⟩ := hgo.split rfl hpast false
  exact ⟨d, fun hc => hnul (by simp [hc]), hdir.ne_empty, L, m', hgo⟩

/-- Where a path is found, the directory from which it is taken is found too, however names are
looked up. -/
theorem Leads.findBy_of_join (h : s.Leads dir d) (hrel : Path.IsWay rel)
    (hfind : s.findBy look (Path.join dir rel) = .ok (p, n)) :
    s.findBy look dir = .ok (d, .directory) := by
  obtain ⟨-, -, c, hgo, hend⟩ := exists_goes_of_findBy hfind
  rw [startOf_join _ _ hrel.isAbsolute, Path.names_join _ hrel.isAbsolute] at hgo
  have hpast := Nat.le_trans hend.length_le (List.length_pos_iff.2 hrel.names_ne_nil)
  obtain ⟨L, m, q, hq⟩ := hgo.split rfl hpast false
  obtain ⟨hnul, hne, L', m', hd⟩ := h
  obtain rfl := hd.unique hq
  exact findBy_directory_iff.2 ⟨hnul, hne, L, m, hq⟩

theorem asksForDir_join (dir : String) (hrel : Path.IsWay rel) :
    asksForDir (Path.join dir rel) = false := by
  have := hrel.getLast?_ne
  simp only [asksForDir, Path.getLast?_join dir hrel.ne_empty]
  simpa using this

/-- What stands below a directory is found on the path that names it, however names are looked
up. -/
theorem findBy_join (hs : s.Ordered) (hd : s.findBy look dir = .ok (d, .directory))
    (hrel : Path.IsWay rel) (hadmits : look.Admits d (Path.names rel))
    (hn : s.tree.get? (d ++ Path.names rel) = some n) (hlink : n.kind ≠ .other) :
    s.findBy look (Path.join dir rel) = .ok (d ++ Path.names rel, n) := by
  obtain ⟨hnul, -, L, m, hgo⟩ := findBy_directory_iff.1 hd
  have hdir := hgo.standing hs.tree (hs.start dir)
  obtain ⟨c, hdown, hend⟩ := Tree.Goes.exists_ends hs.tree hadmits hdir hn hlink L
  have hway := hgo.append hrel.names_ne_nil false
  dsimp only [spotOf] at hway
  rw [← startOf_join _ _ hrel.isAbsolute, ← Path.names_join _ hrel.isAbsolute] at hway
  refine findBy_of_goes (nul_not_mem_join hnul hrel.nul) (Path.join_ne_empty dir hrel.ne_empty)
    ?_ hend
  rw [asksForDir_join dir hrel]
  exact hway.trans hdown

theorem Leads.find_join (hs : s.Ordered) (h : s.Leads dir d) (hrel : Path.IsWay rel)
    (hadmits : s.look.Admits d (Path.names rel))
    (hn : s.tree.get? (d ++ Path.names rel) = some n) (hlink : n.kind ≠ .other) :
    s.find (Path.join dir rel) = .ok (d ++ Path.names rel, n) :=
  findBy_join hs (find_directory_iff.2 h) hrel hadmits hn hlink

/-- Where no links are below a directory, a path taken from it leads where its names say. -/
theorem Leads.of_reach_join (hs : s.Ordered) (h : s.Leads dir d)
    (hlink : ∀ p target, d <+: p → s.tree.get? p ≠ some (.link target)) (hrel : Path.IsWay rel)
    {followLast m : Bool} {r : Reached} (hr : s.reach followLast m (Path.join dir rel) = .ok r) :
    (∃ n, r = .node (d ++ Path.names rel) n ∧ s.tree.get? (d ++ Path.names rel) = some n) ∨
      (r = .vacant (d ++ Path.names rel) ∧ s.tree.get? (d ++ Path.names rel) = none) := by
  obtain ⟨L, hreach⟩ := h.reach_join hrel
  rw [hreach] at hr
  have hplain : ∀ x ∈ Path.names rel, Path.IsPlain x := fun x hx => hrel.isPlain_of_mem_names hx
  exact Tree.follow_below hs.tree hlink (h.standing hs) hplain hr

/-! ### The path of a place -/

theorem isAbsolute_pathOf (p : Place) : Path.isAbsolute (pathOf p) = true := by
  simp [Path.isAbsolute, pathOf]

theorem pathOf_eq_join (hne : p ≠ []) (h : ∀ name ∈ p, Path.IsPlain name) :
    pathOf p = Path.join "/" ("/".intercalate p) := by
  have := (Path.isWay_intercalate hne h).isAbsolute
  rw [Path.join, this]
  rfl

theorem names_pathOf (h : ∀ name ∈ p, Path.IsPlain name) : Path.names (pathOf p) = p := by
  by_cases hne : p = []
  · subst hne
    rfl
  · rw [pathOf_eq_join hne h, Path.names_join _ (Path.isWay_intercalate hne h).isAbsolute,
      Path.names_intercalate hne h]
    rfl

theorem segments_pathOf (hne : p ≠ []) (h : ∀ x ∈ p, Path.IsPlain x) :
    Path.segments (pathOf p) = [] :: p.map String.toList := by
  have htext : (pathOf p).toList = [] ++ '/' :: ("/".intercalate p).toList := by
    simp [pathOf]
  rw [Path.segments, htext, Path.cut_append]
  exact congrArg (List.cons []) (Path.segments_intercalate hne h)

/-- The path of a directory is the one above the paths of what is in it. -/
theorem parent?_pathOf {name : String} (h : ∀ x ∈ p ++ [name], Path.IsPlain x) :
    Path.parent? (pathOf (p ++ [name])) = some (pathOf p) := by
  have hsegments :
      Path.segments (pathOf (p ++ [name])) = ([] :: p.map String.toList) ++ [name.toList] := by
    simp [segments_pathOf (by simp) h]
  rw [Path.parent?, hsegments, Path.trimmed_append (h name (by simp)).isComponent]
  rcases List.eq_nil_or_concat p with rfl | ⟨q, last, rfl⟩
  · rw [isAbsolute_pathOf]
    rfl
  · rw [List.concat_eq_append] at h ⊢
    have hq : ∀ x ∈ q ++ [last], Path.IsPlain x := fun x hx => h x (List.mem_append_left _ hx)
    have hlast : [] :: (q ++ [last]).map String.toList =
        ([] :: q.map String.toList) ++ [last.toList] := by simp
    have htext := Path.ofSegments_segments (pathOf (q ++ [last]))
    rw [segments_pathOf (by simp) hq, hlast] at htext
    rw [List.reverse_append, List.reverse_singleton, List.singleton_append]
    dsimp only
    rw [List.reverse_reverse, hlast, Path.trimmed_append (hq last (by simp)).isComponent]
    exact congrArg some htext

theorem intercalate_concat (x : String) (xs : List String) (name : String) :
    "/".intercalate (x :: (xs ++ [name])) = "/".intercalate (x :: xs) ++ "/" ++ name := by
  induction xs generalizing x with
  | nil => simp [String.intercalate_cons_cons]
  | cons y ys ih =>
    rw [List.cons_append, String.intercalate_cons_cons, ih, String.intercalate_cons_cons]
    simp only [String.append_assoc]

theorem size_pathOf_le (p : Place) (name : String) :
    (pathOf p).utf8ByteSize ≤ (pathOf (p ++ [name])).utf8ByteSize := by
  cases p with
  | nil => simp [pathOf]
  | cons x xs =>
    rw [pathOf, pathOf, List.cons_append, intercalate_concat]
    simp only [String.utf8ByteSize_append]
    omega

theorem fits_pathOf_above (hle : p <+: q) (h : Fits (pathOf q)) : Fits (pathOf p) := by
  obtain ⟨xs, rfl⟩ := hle
  induction xs generalizing p with
  | nil => rwa [List.append_nil] at h
  | cons x xs ih =>
    rw [List.append_cons] at h
    exact Nat.le_trans (size_pathOf_le p x) (ih h)

theorem leads_root (s : Machine) : s.Leads "/" [] :=
  ⟨by decide, by decide, _, _, .refl _⟩

/-- What is found at the path of a place is what stands there. -/
theorem find_pathOf (hs : s.Ordered) (hadmits : s.look.Admits [] p)
    (hn : s.tree.get? p = some n) (hlink : n.kind ≠ .other) : s.find (pathOf p) = .ok (p, n) := by
  have h : ∀ name ∈ p, Path.IsPlain name := fun _ => hs.tree.isPlain hn
  by_cases hne : p = []
  · subst hne
    cases hn
    exact find_directory_iff.2 s.leads_root
  · have hway := Path.isWay_intercalate hne h
    have hnames := Path.names_intercalate hne h
    have := s.leads_root.find_join hs hway (hnames.symm ▸ hadmits) (hnames.symm ▸ hn) hlink
    rwa [hnames, ← pathOf_eq_join hne h] at this

/-! ### Paths that are short enough -/

theorem given_eq_ok_iff {α : Type} {answer : Except SystemError α} {a : α} :
    given path answer = .ok a ↔ Fits path ∧ answer = .ok a := by
  unfold given
  split <;> simp_all

theorem given_of_fits {α : Type} {answer : Except SystemError α} (h : Fits path) :
    given path answer = answer := if_pos h

theorem kind?_eq_directory_iff :
    s.kind? path = some .directory ↔ Fits path ∧ ∃ d, s.Leads path d := by
  simp only [← find_directory_iff, kind?]
  split
  next p n hn =>
    obtain ⟨hfits, hn⟩ := given_eq_ok_iff.1 hn
    cases n <;> simp [hn, hfits, Node.kind]
  next e he =>
    have hnone : ¬(Fits path ∧ ∃ d, s.find path = .ok (d, .directory)) := by
      rintro ⟨hfits, d, hd⟩
      rw [given_of_fits hfits, hd] at he
      cases he
    simp [hnone]

/-! ### What requests change -/

theorem room_of_vacant (hs : s.Ordered) {followLast m : Bool}
    (h : s.reach followLast m path = .ok (.vacant p)) : s.tree.Room p ∧ s.tree.get? p = none := by
  obtain ⟨hnul, -, h⟩ := reach_eq_ok h
  exact Tree.vacant_of_follow hs.tree (fun _ _ => size_le_of_look) (hs.start path)
    (fun _ => Path.isSegment_of_mem_names hnul) h

theorem get?_of_reach (hs : s.Ordered) {followLast m : Bool}
    (h : s.reach followLast m path = .ok (.node p n)) : s.tree.get? p = some n := by
  obtain ⟨-, -, h⟩ := reach_eq_ok h
  exact Tree.get?_of_follow hs.tree (hs.start path) h

/-- A directory is made at the vacant place that the path leads to. -/
theorem makeDir_ok {s' : Machine} (h : s.makeDir path = (.ok (), s')) :
    ∃ p, s.reach false false path = .ok (.vacant p) ∧ s' = s.later.perform (.makeDir p) := by
  unfold makeDir at h
  split at h <;> cases h
  next hr => exact ⟨_, (given_eq_ok_iff.1 hr).2, rfl⟩

theorem makeDir_error {e : SystemError} {s' : Machine} (h : s.makeDir path = (.error e, s')) :
    s' = s.later := by
  unfold makeDir at h
  split at h <;> cases h <;> rfl

/-- Writing changes nothing, or the place that the path aims at. -/
theorem write_cases {r : Except SystemError Unit} {s' : Machine}
    (h : s.write path bytes = (r, s')) : (s' = s.later ∧ ∃ e, r = .error e) ∨
      ∃ p bytes', Fits path ∧ s.aim path = .ok p ∧ (r = .ok () → bytes' = bytes) ∧
        s' = s.later.perform (.write p bytes') := by
  unfold write at h
  split at h
  · cases h
    exact .inl ⟨rfl, _, rfl⟩
  next hr _ =>
    obtain ⟨hfits, hr⟩ := given_eq_ok_iff.1 hr
    cases h
    exact .inr ⟨_, _, hfits, hr, fun _ => rfl, rfl⟩
  next hr _ =>
    obtain ⟨hfits, hr⟩ := given_eq_ok_iff.1 hr
    split at h <;> cases h
    · exact .inr ⟨_, _, hfits, hr, fun h => (nomatch h), rfl⟩
    · exact .inl ⟨rfl, _, rfl⟩

/-- Putting a file in the place of another changes nothing, or moves it. -/
theorem rename_cases {target : String} {r : Except SystemError Unit} {s' : Machine}
    (h : s.rename path target = (r, s')) :
    (s' = s.later ∧ (r = .ok () → s.shift path target = .ok none)) ∨
      ∃ p q, Fits target ∧ s.shift path target = .ok (some (p, q)) ∧ r = .ok () ∧
        s' = s.later.perform (.move p q) := by
  unfold rename at h
  split at h <;> cases h
  · exact .inl ⟨rfl, fun h => (nomatch h)⟩
  · exact .inl ⟨rfl, fun h => (nomatch h)⟩
  next hr =>
    obtain ⟨-, hr⟩ := given_eq_ok_iff.1 hr
    exact .inl ⟨rfl, fun _ => (given_eq_ok_iff.1 hr).2⟩
  next hr =>
    obtain ⟨-, hr⟩ := given_eq_ok_iff.1 hr
    obtain ⟨hfits, hr⟩ := given_eq_ok_iff.1 hr
    exact .inr ⟨_, _, hfits, hr, rfl, rfl⟩

/-- A write aims at what ends the way of a path on which no slash asks for a directory. -/
theorem exists_goes_of_aim (h : s.aim path = .ok p) :
    '\x00' ∉ path.toList ∧ path ≠ "" ∧ asksForDir path = false ∧
      ∃ c r, s.tree.Goes s.look (s.spotOf path) c ∧ s.tree.Ends s.look true c r ∧
        c.mustBeDir = false ∧ (r = .vacant p ∨ ∃ b, r = .node p (.file b)) := by
  unfold aim at h
  dsimp only at h
  cases hdir : asksForDir path with
  | true =>
    rw [hdir, if_pos rfl] at h
    split at h
    · cases h
    all_goals
      next hr =>
        obtain ⟨-, -, hr⟩ := reachBy_eq_ok hr
        exact absurd hr Tree.slashed_ne_ok
  | false =>
    rw [hdir, if_neg Bool.false_ne_true] at h
    split at h
    · cases h
    next hr =>
      cases h
      obtain ⟨hnul, hne, hr⟩ := reachBy_eq_ok hr
      obtain ⟨c, hgo, hend, hc⟩ := Tree.exists_goes_of_fill hr
      exact ⟨hnul, hne, rfl, c, _, hgo, hend, hc, .inr ⟨_, rfl⟩⟩
    next hr =>
      cases h
      obtain ⟨hnul, hne, hr⟩ := reachBy_eq_ok hr
      obtain ⟨c, hgo, hend, hc⟩ := Tree.exists_goes_of_fill hr
      exact ⟨hnul, hne, rfl, c, _, hgo, hend, hc, .inl rfl⟩
    · cases h

/-- A write aims at a file or at a vacant place. -/
theorem aim_eq_ok (h : s.aim path = .ok p) : s.reach true false path = .ok (.vacant p) ∨
    ∃ b, s.reach true false path = .ok (.node p (.file b)) := by
  obtain ⟨hnul, hne, -, c, r, hgo, hend, -, hr⟩ := exists_goes_of_aim h
  have hreach : s.reach true false path = .ok r :=
    (reach_eq hnul hne _ _).trans (hgo.follow.trans hend.follow)
  rcases hr with rfl | ⟨b, rfl⟩
  · exact .inl hreach
  · exact .inr ⟨b, hreach⟩

/-- What is written is found where it was written. -/
theorem find_of_aim {b : ByteArray} (hscene : x.toScene = s.toScene) (ht : s.tree.Holds x.tree)
    (h : s.aim path = .ok p) (hb : x.tree.get? p = some (.file b)) :
    x.find path = .ok (p, .file b) := by
  obtain ⟨hnul, hne, hdir, c, r, hgo, hend, hc, hr⟩ := exists_goes_of_aim h
  rw [find_eq_ok_iff, hdir, reach_eq hnul hne, hscene]
  rcases hr with rfl | ⟨b', rfl⟩
  all_goals
    refine (hgo.mono ht).follow.trans ?_
    cases hend
    cases hc
    next hdot hup hlook _ => exact (Tree.Ends.file hdot hup hlook hb).follow

/-- Where no links are below a directory, a write to a path taken from it aims where its names
say. -/
theorem Leads.aim_join {v : Place} (hs : s.Ordered) (h : s.Leads dir d)
    (hlink : ∀ p target, d <+: p → s.tree.get? p ≠ some (.link target)) (hrel : Path.IsWay rel)
    (hv : s.aim (Path.join dir rel) = .ok v) : v = d ++ Path.names rel := by
  rcases aim_eq_ok hv with hr | ⟨b, hr⟩
  all_goals
    rcases h.of_reach_join hs hlink hrel hr with ⟨n, hn, -⟩ | ⟨hn, -⟩
    all_goals
      cases hn
  · rfl
  · rfl

/-- A write to the path of a file aims at the file. -/
theorem aim_of_find {b : ByteArray} (h : s.find path = .ok (p, .file b)) : s.aim path = .ok p := by
  obtain ⟨hnul, hne, hfollow⟩ := reach_eq_ok (find_eq_ok_iff.1 h)
  obtain ⟨c, hgo, hend⟩ := Tree.exists_goes_of_follow hfollow
  have hc : c.mustBeDir = false := by
    cases hend with
    | file => rfl
  have hdir : asksForDir path = false :=
    Bool.eq_false_iff.2 fun hm => Bool.eq_false_iff.1 hc (hgo.mustBeDir hm)
  have hfill := (hgo.fill hc).trans (hend.fill hc)
  unfold aim
  dsimp only
  rw [hdir, if_neg Bool.false_ne_true, reachBy_eq hnul hne, hfill]

/-- Reading depends on what is found and on the seals alone. -/
theorem read_congr (hscene : x.toScene = s.toScene) (h : x.find path = s.find path) :
    x.read path = s.read path := by
  simp only [read, h, hscene]

theorem read_eq_ok_iff {b : ByteArray} : s.read path = .ok b ↔
    Fits path ∧ ∃ p, s.find path = .ok (p, .file b) ∧ s.sealed p = none := by
  constructor
  · intro h
    unfold read at h
    split at h
    · cases h
    next p bytes hfind =>
      obtain ⟨hfits, hfind⟩ := given_eq_ok_iff.1 hfind
      split at h
      · cases h
      next hsealed =>
        cases h
        exact ⟨hfits, p, hfind, hsealed⟩
    · cases h
  · rintro ⟨hfits, p, hfind, hsealed⟩
    simp only [read, given_of_fits hfits, hfind, hsealed]

/-- A file below a directory is read on the path that names it, if this is short enough. -/
theorem Leads.read_join {b : ByteArray} (hs : s.Ordered) (h : s.Leads dir d)
    (hrel : Path.IsWay rel) (hfits : Fits (Path.join dir rel))
    (hadmits : s.look.Admits d (Path.names rel))
    (hb : s.tree.get? (d ++ Path.names rel) = some (.file b))
    (hsealed : s.sealed (d ++ Path.names rel) = none) : s.read (Path.join dir rel) = .ok b :=
  read_eq_ok_iff.2 ⟨hfits, _, h.find_join hs hrel hadmits hb nofun, hsealed⟩

theorem room_of_aim (hs : s.Ordered) (h : s.aim path = .ok p) :
    s.tree.Room p ∧ ∀ n, s.tree.get? p = some n → n.kind = .file := by
  rcases aim_eq_ok h with h | ⟨b, h⟩
  · obtain ⟨hroom, hnone⟩ := room_of_vacant hs h
    exact ⟨hroom, by simp [hnone]⟩
  · have hb := get?_of_reach hs h
    exact ⟨hs.tree.room (Tree.ne_nil_of_file hb) hb, fun _ => Tree.kind_of_file hb⟩

/-- What is moved is no directory, and no directory has to give way to it. -/
theorem shift_eq_ok {target : String} {o : Option (Place × Place)}
    (h : s.shift path target = .ok o) :
    ∃ p q n, s.reach false false path = .ok (.node p n) ∧ n ≠ .directory ∧
      o = (if p = q then none else some (p, q)) ∧
      (s.reach false false target = .ok (.vacant q) ∨
        ∃ n', s.reach false false target = .ok (.node q n') ∧ n' ≠ .directory) := by
  unfold shift at h
  split at h
  · cases h
  · cases h
  · cases h
  next p n reached hsource htarget =>
    split at h
    · cases h
    split at h
    · cases h
    next hkind =>
    split at h
    · cases h
    have hn : n ≠ .directory := by
      rintro rfl
      exact hkind rfl
    split at h
    · cases h
    next q n' hn' =>
      refine ⟨p, q, n, hsource, hn, by split at h <;> cases h <;> simp_all, .inr ⟨n', htarget, ?_⟩⟩
      rintro rfl
      exact hn' rfl
    next q =>
      exact ⟨p, q, n, hsource, hn, by split at h <;> cases h <;> simp_all, .inl htarget⟩

/-- Where no links are below a directory, a move from one name in it to another one moves what has
the first name. -/
theorem Leads.shift_join {draft name : String} {o : Option (Place × Place)} (hs : s.Ordered)
    (h : s.Leads dir d) (hlink : ∀ p target, d <+: p → s.tree.get? p ≠ some (.link target))
    (hdraft : Path.IsPlain draft) (hname : Path.IsPlain name) (hne : draft ≠ name)
    (ho : s.shift (Path.join dir draft) (Path.join dir name) = .ok o) :
    o = some (d ++ [draft], d ++ [name]) ∧ s.look d name = none ∧ s.tree.Room (d ++ [name]) ∧
      ∀ n, s.tree.get? (d ++ [name]) = some n → n.kind = .file := by
  have hnot : d ++ [draft] ≠ d ++ [name] := by simpa using hne
  obtain ⟨p, q, n, hp, -, rfl, hq⟩ := shift_eq_ok ho
  have hp' := h.of_reach_join hs hlink hdraft.isWay hp
  rw [hdraft.names] at hp'
  rcases hp' with ⟨_, hn, -⟩ | ⟨hn, -⟩
  all_goals cases hn
  rcases hq with hq | ⟨n', hq, hn'⟩
  all_goals
    have hlook := h.look_of_reach_join hname hq
    have hq' := h.of_reach_join hs hlink hname.isWay hq
    rw [hname.names] at hq'
    rcases hq' with ⟨_, hn, hget⟩ | ⟨hn, hget⟩
    all_goals cases hn
  · exact ⟨if_neg hnot, hlook, (room_of_vacant hs hq).1, by simp [hget]⟩
  · refine ⟨if_neg hnot, hlook, hs.tree.room (by simp) hget, fun n hn => ?_⟩
    cases hget.symm.trans hn
    cases n' with
    | directory => exact absurd rfl hn'
    | file => rfl
    | link target => exact absurd hget (hlink _ target (List.prefix_append _ _))

@[simp] theorem tree_later : s.later.tree = s.tree := rfl

@[simp] theorem toScene_later : s.later.toScene = s.toScene := rfl

@[simp] theorem changes_later : s.later.changes = s.changes := rfl

@[simp] theorem tree_perform {c : Change} : (s.perform c).tree = c.apply s.tree := rfl

@[simp] theorem toScene_perform {c : Change} : (s.perform c).toScene = s.toScene := rfl

@[simp] theorem changes_perform {c : Change} : (s.perform c).changes = s.changes ++ [c] := rfl

theorem changes_write {r : Except SystemError Unit} {s' : Machine}
    (h : s.write path bytes = (r, s')) : ∃ cs, s'.changes = s.changes ++ cs := by
  rcases write_cases h with ⟨rfl, -⟩ | ⟨p, b, -, -, -, rfl⟩
  · exact ⟨[], (List.append_nil _).symm⟩
  · exact ⟨_, changes_perform⟩

theorem Ordered.later (hs : s.Ordered) : s.later.Ordered := ⟨hs.tree, hs.here, hs.shut⟩

/-- A system with another tree is in order if this tree is and no directory is missing. -/
theorem Ordered.of_holds (hs : s.Ordered) (hscene : x.toScene = s.toScene) (ht : x.tree.Sound)
    (hh : s.tree.Holds x.tree) : x.Ordered :=
  ⟨ht, hscene ▸ hh.dir hs.here, fun p hp => hh.dir (hs.shut p (hscene ▸ hp))⟩

/-- A system stays in order by a change that leaves its tree in order and takes no directory
away. -/
theorem Ordered.perform (hs : s.Ordered) {c : Change} (ht : (c.apply s.tree).Sound)
    (hh : s.tree.Holds (c.apply s.tree)) : (s.perform c).Ordered := hs.of_holds rfl ht hh

/-- A system stays in order when a directory is made at a vacant place. -/
theorem Ordered.makeDir (hs : s.Ordered) (hroom : s.tree.Room p) (hnone : s.tree.get? p = none) :
    (s.perform (.makeDir p)).Ordered := by
  have hwithin : s.tree.Within (s.tree.put p .directory) := .put hroom.ne_nil hnone
  exact hs.perform (hs.tree.put hroom trivial fun _ => rfl) (.of_within hwithin)

/-- A system stays in order when a file is written where there is a file or nothing. -/
theorem Ordered.write (hs : s.Ordered) (hroom : s.tree.Room p)
    (hfile : ∀ n, s.tree.get? p = some n → n.kind = .file) : (s.perform (.write p bytes)).Ordered :=
  hs.perform (hs.tree.put hroom trivial fun h => nomatch hfile _ h) (.put hroom.ne_nil hfile)

end Machine

end Renaming
