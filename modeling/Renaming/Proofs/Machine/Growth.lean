import Renaming.Proofs.Files.Operations

/-!
Trees that have grown while files were written: directories and links have stayed, files are still
files, and no link is new (`Tree.Grows`). Where a path leads in such a tree is told by the tree from
which it has grown: `Machine.stops` lists the places on the way of a path at which there is nothing
yet, with the file at its end. The path either goes the same way in both trees, or it goes through
the first of these places, at which something stands by now (`Goes.back`); and writing to a path
changes no place but these (`Written.mem_stops`).
-/

namespace Renaming

open Renaming.Path (names)

namespace Tree

variable {t t' t'' : Tree} {look : Look} {c c' : Spot} {p q here : Place} {n : Node} {L : Nat}
  {m : Bool} {name target : String} {rest : List String}

/-! ### Growing -/

/-- A tree has become another one without losing anything but the content of files, and without
gaining links. -/
structure Grows (t t' : Tree) : Prop where
  holds : t.Holds t'
  file : ∀ p b, t.get? p = some (.file b) → ∃ b', t'.get? p = some (.file b')
  link : ∀ p target, t'.get? p = some (.link target) → t.get? p = some (.link target)

namespace Grows

theorem refl (t : Tree) : t.Grows t := ⟨.refl t, fun _ b h => ⟨b, h⟩, fun _ _ h => h⟩

theorem trans (h : t.Grows t') (h' : t'.Grows t'') : t.Grows t'' := by
  refine ⟨h.holds.trans h'.holds, fun p b hp => ?_, fun p target hp => h.link p _ (h'.link p _ hp)⟩
  obtain ⟨b', hb'⟩ := h.file p b hp
  exact h'.file p b' hb'

theorem of_within (h : t.Within t')
    (hnew : ∀ p n, t.get? p = none → t'.get? p = some n → n = .directory) : t.Grows t' := by
  refine ⟨.of_within h, fun p b hp => ⟨b, h p _ hp⟩, fun p target hp => ?_⟩
  cases hold : t.get? p with
  | none => cases hnew p _ hold hp
  | some n => rw [← h p n hold, hp]

theorem putFile {b : ByteArray} (hp : p ≠ []) (h : ∀ n, t.get? p = some n → n.kind = .file) :
    t.Grows (t.put p (.file b)) := by
  refine ⟨.put hp h, fun q b' hq => ?_, fun q target hq => ?_⟩
  · rw [get?_put _ _ _ _ hp]
    split
    · exact ⟨b, rfl⟩
    · exact ⟨b', hq⟩
  · rw [get?_put _ _ _ _ hp] at hq
    split at hq
    · cases hq
    · exact hq

theorem none_or_directory (h : t.Grows t') (hp : t'.get? p = some .directory) :
    t.get? p = none ∨ t.get? p = some .directory := by
  cases hold : t.get? p with
  | none => exact .inl rfl
  | some n =>
    cases n with
    | directory => exact .inr rfl
    | file b =>
      obtain ⟨b', hb'⟩ := h.file p b hold
      rw [hp] at hb'
      cases hb'
    | link target =>
      rw [h.holds p _ hold nofun] at hp
      cases hp

theorem none_or_file {b : ByteArray} (h : t.Grows t') (hp : t'.get? p = some (.file b)) :
    t.get? p = none ∨ ∃ b', t.get? p = some (.file b') := by
  cases hold : t.get? p with
  | none => exact .inl rfl
  | some n =>
    cases n with
    | file b' => exact .inr ⟨b', rfl⟩
    | directory =>
      rw [h.holds.dir hold] at hp
      cases hp
    | link target =>
      rw [h.holds p _ hold nofun] at hp
      cases hp

end Grows

/-! ### Where a path finds nothing -/

/-- The places on the way of some names at which there is nothing, as if directories were made
there, and the file at which the way ends; up to a link that has to be followed, from where `jump`
takes over. -/
def stopsBy (t : Tree) (jump : Place → List String → List Place) :
    Place → List String → List Place
  | _, [] => []
  | here, name :: rest =>
    if name = "." then t.stopsBy jump here rest
    else if name = ".." then t.stopsBy jump here.dropLast rest
    else
      let p := here ++ [name]
      match t.get? p with
      | none => p :: t.stopsBy jump p rest
      | some .directory => t.stopsBy jump p rest
      | some (.file _) => [p]
      | some (.link target) => jump (startOf here target) (names target ++ rest)

/-- The same for names that are followed through no more links than a number. -/
def stopsFrom (t : Tree) : (links : Nat) → Place → List String → List Place
  | 0 => t.stopsBy fun _ _ => []
  | links + 1 => t.stopsBy (t.stopsFrom links)

/-- The same from a spot on a path. -/
def stops (t : Tree) (c : Spot) : List Place := t.stopsFrom c.links c.here c.names

theorem stopsFrom_eq (t : Tree) (L : Nat) : ∃ jump, t.stopsFrom L = t.stopsBy jump := by
  cases L with
  | zero => exact ⟨_, rfl⟩
  | succ L => exact ⟨_, rfl⟩

theorem stops_dot : t.stops ⟨L, m, here, "." :: rest⟩ = t.stops ⟨L, m, here, rest⟩ := by
  obtain ⟨jump, h⟩ := t.stopsFrom_eq L
  simp only [stops, h]
  rw [stopsBy, if_pos rfl]

theorem stops_up : t.stops ⟨L, m, here, ".." :: rest⟩ = t.stops ⟨L, m, here.dropLast, rest⟩ := by
  obtain ⟨jump, h⟩ := t.stopsFrom_eq L
  simp only [stops, h]
  rw [stopsBy, if_neg (by decide), if_pos rfl]

section

variable (hdot : name ≠ ".") (hup : name ≠ "..")

include hdot hup

theorem stops_none (hnone : t.get? (here ++ [name]) = none) :
    t.stops ⟨L, m, here, name :: rest⟩ =
      (here ++ [name]) :: t.stops ⟨L, m, here ++ [name], rest⟩ := by
  obtain ⟨jump, h⟩ := t.stopsFrom_eq L
  simp only [stops, h]
  rw [stopsBy, if_neg hdot, if_neg hup]
  simp only [hnone]

theorem stops_down (hdir : t.get? (here ++ [name]) = some .directory) :
    t.stops ⟨L, m, here, name :: rest⟩ = t.stops ⟨L, m, here ++ [name], rest⟩ := by
  obtain ⟨jump, h⟩ := t.stopsFrom_eq L
  simp only [stops, h]
  rw [stopsBy, if_neg hdot, if_neg hup]
  simp only [hdir]

theorem stops_file {b : ByteArray} (hfile : t.get? (here ++ [name]) = some (.file b)) :
    t.stops ⟨L, m, here, name :: rest⟩ = [here ++ [name]] := by
  obtain ⟨jump, h⟩ := t.stopsFrom_eq L
  simp only [stops, h]
  rw [stopsBy, if_neg hdot, if_neg hup]
  simp only [hfile]

theorem stops_jump (hlink : t.get? (here ++ [name]) = some (.link target)) (m' : Bool) :
    t.stops ⟨L + 1, m, here, name :: rest⟩ =
      t.stops ⟨L, m', startOf here target, names target ++ rest⟩ := by
  change t.stopsBy (t.stopsFrom L) here (name :: rest) = _
  rw [stopsBy, if_neg hdot, if_neg hup]
  simp only [hlink]
  rfl

end

namespace Goes

theorem stops_eq (h : t.Goes look c c') : t.stops c = t.stops c' := by
  induction h with
  | refl => rfl
  | dot _ _ ih => exact stops_dot.trans ih
  | up _ _ ih => exact stops_up.trans ih
  | down hdot hup _ hdir _ ih => exact (stops_down hdot hup hdir).trans ih
  | jump hdot hup _ hlink _ ih => exact (stops_jump hdot hup hlink _).trans ih

/-- In a tree that has grown a path goes the way that it went before, or it goes through the first
place at which there was nothing. -/
theorem back (hgrows : t.Grows t') (h : t'.Goes look c c') :
    t.Goes look c c' ∨ ∃ p ∈ (t.stops c).head?, t.get? p = none ∧ t'.get? p ≠ none := by
  induction h with
  | refl => exact .inl (.refl _)
  | dot hlook _ ih =>
    rw [stops_dot]
    exact ih.imp_left (.dot hlook)
  | up hlook _ ih =>
    rw [stops_up]
    exact ih.imp_left (.up hlook)
  | down hdot hup hlook hdir _ ih =>
    rcases hgrows.none_or_directory hdir with hnone | hold
    · exact .inr ⟨_, by rw [stops_none hdot hup hnone]; rfl, hnone, by simp [hdir]⟩
    · rw [stops_down hdot hup hold]
      exact ih.imp_left (.down hdot hup hlook hold)
  | jump hdot hup hlook hlink _ ih =>
    have hold := hgrows.link _ _ hlink
    rw [stops_jump hdot hup hold _]
    exact ih.imp_left (.jump hdot hup hlook hold)

theorem stops_subset (hgrows : t.Grows t') (h : t'.Goes look c c') : t.stops c' ⊆ t.stops c := by
  induction h with
  | refl => exact List.Subset.refl _
  | dot _ _ ih =>
    rw [stops_dot]
    exact ih
  | up _ _ ih =>
    rw [stops_up]
    exact ih
  | down hdot hup _ hdir _ ih =>
    rcases hgrows.none_or_directory hdir with hnone | hold
    · rw [stops_none hdot hup hnone]
      exact List.Subset.trans ih (List.subset_cons_self _ _)
    · rwa [stops_down hdot hup hold]
  | jump hdot hup _ hlink _ ih => rwa [stops_jump hdot hup (hgrows.link _ _ hlink) _]

/-- A path in a tree that has grown gets above or below a place at which there was nothing only
through that place. -/
theorem mem_stops (hgrows : t.Grows t') (h : t'.Goes look c c') (hle : p <+: c'.here)
    (hnone : t.get? p = none) : p ∈ t.stops c ∨ p <+: c.here := by
  induction h with
  | refl => exact .inr hle
  | dot _ _ ih =>
    rw [stops_dot]
    exact ih hle
  | up _ _ ih =>
    rw [stops_up]
    exact (ih hle).imp_right (·.trans (List.dropLast_prefix _))
  | @down L m here name rest _ hdot hup _ hdir _ ih =>
    have hnext : t.stops ⟨L, m, here ++ [name], rest⟩ ⊆ t.stops ⟨L, m, here, name :: rest⟩ := by
      rcases hgrows.none_or_directory hdir with hold | hold
      · rw [stops_none hdot hup hold]
        exact List.subset_cons_self _ _
      · rw [stops_down hdot hup hold]
        exact List.Subset.refl _
    rcases ih hle with hmem | hle
    · exact .inl (hnext hmem)
    · rcases List.prefix_concat_iff.1 hle with rfl | hle
      · exact .inl (stops_none hdot hup hnone ▸ List.mem_cons_self)
      · exact .inr hle
  | @jump L m here name rest _ target hdot hup _ hlink _ ih =>
    rw [stops_jump hdot hup (hgrows.link _ _ hlink) _]
    refine (ih hle).imp_right fun hle => ?_
    dsimp only [startOf] at hle
    split at hle
    · exact hle.trans List.nil_prefix
    · exact hle

end Goes

end Tree

namespace Machine

variable {s x y : Machine} {path : String} {p : Place}

/-- The places on the way of a path at which there is nothing yet, as if directories were made
there, and the file at its end. -/
def stops (s : Machine) (path : String) : List Place := s.tree.stops (s.spotOf path)

/-! ### Reading -/

/-- What can be read after a tree has grown could be read before, unless something stands by now at
the first place on its way at which there was nothing. -/
theorem exists_read_of_grows {b : ByteArray} (hgrows : s.tree.Grows x.tree)
    (hscene : x.toScene = s.toScene) (h : x.read path = .ok b)
    (hnone : ∀ p ∈ (s.stops path).head?, s.tree.get? p = none → x.tree.get? p = none) :
    ∃ b', s.read path = .ok b' := by
  obtain ⟨hfits, p, hfind, hp⟩ := read_eq_ok_iff.1 h
  obtain ⟨hnul, hne, hreach⟩ := reach_eq_ok (find_eq_ok_iff.1 hfind)
  rw [hscene] at hreach hp
  obtain ⟨c, hgo, hend⟩ := Tree.exists_goes_of_follow hreach
  rcases hgo.back hgrows with hback | ⟨q, hq, hold, hnew⟩
  · cases hend with
    | @file L here name b hdot hup hlook hfile =>
      rcases hgrows.none_or_file hfile with hold | ⟨b', hb'⟩
      · have hstops := hback.stops_eq.trans (Tree.stops_none hdot hup hold)
        have hfirst : (s.stops path).head? = some (here ++ [name]) := congrArg List.head? hstops
        rw [hnone _ hfirst hold] at hfile
        cases hfile
      · refine ⟨b', read_eq_ok_iff.2 ⟨hfits, _, ?_, hp⟩⟩
        rw [find_eq_ok_iff, reach_eq hnul hne]
        exact hback.follow.trans (Tree.Ends.file hdot hup hlook hb').follow
  · exact absurd (hnone q hq hold) hnew

/-! ### Writing -/

/-- What writing to a path can have changed: the file to which it leads, or a directory that was
missing and to which first names of the path lead. -/
inductive Written (s s' : Machine) (path : String) (p : Place) : Prop
  | file {b : ByteArray} (h : s'.find path = .ok (p, .file b))
  | above {us : List String} {L : Nat} {m : Bool} (hus : us <+: (names path).dropLast)
    (hnone : s.tree.get? p = none) (hdir : s'.tree.get? p = some .directory)
    (hgo : s'.tree.Goes s'.look ⟨maxLinks, false, startOf s'.here path, us⟩ ⟨L, m, p, []⟩)

namespace Written

/-- It goes on leading there while the tree grows. -/
theorem mono (hx : x.Ordered) (hgrows : x.tree.Grows y.tree) (hscene : y.toScene = x.toScene)
    (h : Written s x path p) : Written s y path p := by
  cases h with
  | file h =>
    obtain ⟨b', hb'⟩ := hgrows.file p _ (get?_of_find hx h)
    exact .file (find_file_of_holds hscene hgrows.holds h hb')
  | above hus hnone hdir hgo =>
    exact .above hus hnone (hgrows.holds.dir hdir) (hscene ▸ hgo.mono hgrows.holds)

/-- Writing to a path changes only what it came by. -/
theorem mem_stops (hs : s.Ordered) (hgrows : s.tree.Grows y.tree) (hscene : y.toScene = s.toScene)
    (h : Written s y path p) : p ∈ s.stops path := by
  cases h with
  | file h =>
    obtain ⟨-, -, hreach⟩ := reach_eq_ok (find_eq_ok_iff.1 h)
    rw [hscene] at hreach
    obtain ⟨c, hgo, hend⟩ := Tree.exists_goes_of_follow hreach
    refine hgo.stops_subset hgrows ?_
    cases hend with
    | file hdot hup _ hfile =>
      rcases hgrows.none_or_file hfile with hold | ⟨b', hb'⟩
      · rw [Tree.stops_none hdot hup hold]
        exact List.mem_cons_self
      · rw [Tree.stops_file hdot hup hb']
        exact List.mem_cons_self
  | @above us L m hus hnone hdir hgo =>
    rw [hscene] at hgo
    have hstart : ¬p <+: startOf s.here path := by
      intro hle
      rw [hs.tree.directory_above (hs.start path) hle] at hnone
      cases hnone
    obtain ⟨ys, hys, hnames⟩ : ∃ ys, ys ≠ [] ∧ names path = us ++ ys := by
      rcases List.eq_nil_or_concat (names path) with hnil | ⟨init, last, hlast⟩
      · rw [hnil, List.dropLast_nil, List.prefix_nil] at hus
        subst hus
        cases hgo.eq_of_names_nil
        exact absurd List.prefix_rfl hstart
      · obtain ⟨ws, hws⟩ := hus
        rw [hlast, List.concat_eq_append, List.dropLast_concat] at hws
        exact ⟨ws ++ [last], by simp, by rw [hlast, ← hws, List.concat_eq_append,
          List.append_assoc]⟩
    have hlong := hgo.append hys false
    rw [← hnames] at hlong
    exact (hlong.mem_stops hgrows List.prefix_rfl hnone).resolve_right hstart

end Written

/-- Writing a file in a directory that may be missing lets a tree grow, and it changes nothing but
the file and directories on its way. -/
theorem Creates.grows {bytes : ByteArray} {r : Except Failure Unit} (hx : x.Ordered)
    (h : Creates x path bytes r y) : y.Ordered ∧ x.tree.Grows y.tree ∧
      ∀ p, y.tree.get? p ≠ x.tree.get? p → Written x y path p := by
  have hpaved : ∀ {z}, Paved (names path).dropLast (startOf x.here path) x z →
      z.Ordered ∧ x.tree.Grows z.tree ∧
        ∀ p, z.tree.get? p ≠ x.tree.get? p → Written x z path p := by
    intro z paved
    obtain ⟨hz, hwithin, hnew⟩ := paved.result hx (hx.start _)
    refine ⟨hz, .of_within hwithin fun p n hp hn => (hnew p n hp hn).1, fun p hne => ?_⟩
    cases hold : x.tree.get? p with
    | some n => exact absurd ((hwithin p n hold).trans hold.symm) hne
    | none =>
      rw [hold] at hne
      obtain ⟨n, hn⟩ := Option.ne_none_iff_exists'.1 hne
      obtain ⟨rfl, us, L, m, hus, hgo⟩ := hnew p n hold hn
      rw [← paved.scene] at hgo
      exact .above hus hold hn hgo
  cases h with
  | unwritten paved => exact hpaved paved
  | @written z y r operation paved write =>
    obtain ⟨hz, hgrows, hchange⟩ := hpaved paved
    rcases write_cases write with ⟨rfl, -⟩ | ⟨v, b, -, hv, -, rfl⟩
    · exact ⟨hz.later, hgrows, fun p hne => (hchange p hne).mono hz (.refl _) rfl⟩
    · obtain ⟨hroom, hfile⟩ := room_of_aim hz hv
      have hput : z.tree.Grows (z.tree.put v (.file b)) := .putFile hroom.ne_nil hfile
      refine ⟨hz.later.write hroom hfile, hgrows.trans hput, fun p hne => ?_⟩
      by_cases hp : p = v
      · subst hp
        refine .file (find_of_aim (s := z) rfl hput.holds hv (b := b) ?_)
        exact (Tree.get?_put z.tree p p _ hroom.ne_nil).trans (if_pos rfl)
      · have hsame : (z.tree.put v (.file b)).get? p = z.tree.get? p :=
          (Tree.get?_put z.tree v p _ hroom.ne_nil).trans (if_neg hp)
        exact (hchange p fun h => hne (hsame.trans h)).mono hz hput rfl

end Machine

end Renaming
