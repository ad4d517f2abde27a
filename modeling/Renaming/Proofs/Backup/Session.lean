import Renaming.Proofs.Backup.Kept

/-!
Taking copies, request by request. `Stage` says where a run stands: before its directory is made,
or with some copies taken, and it knows all trees that were passed since the run started. A run is
still at a stage when its directory has been made (`Stage.open?`), a file has been saved
(`Stage.save`) or a saved file has been written (`Stage.overwrite`).
-/

namespace Renaming.Backup

open Renaming.Path (names)
open Machine
open Walk (SourceFile)

variable {S : Setting} {x x' y : Machine} {t : Tree} {dir rel path : String} {p q d v : Place}
  {n : Node} {f : SourceFile} {taken : List Saved} {e : Saved} {k : Nat} {b b' : Session}

/-! ### Stages -/

/-- A tree that is passed in a run whose directory is `dir`, or will be. -/
inductive Passing (S : Setting) (dir : String) (t : Tree) : Prop
  | early (grown : Grown S t)
    (new : ∀ d, (S.at t).Leads dir d → S.start.tree.get? d = none)
  | kept {d : Place} {taken : List Saved} {k : Nat} (kept : Kept S dir d taken k t)

/-- Where a run stands: before its directory is made, or with copies of some files in it, the first
`k` of which are in the manifest on disk. -/
inductive Stage (S : Setting) (x : Machine) : List Saved → Nat → Session → Prop
  | before (along : Along (fun t => Grown S t ∧ t.Within x.tree) S.start x) :
    Stage S x [] 0 ⟨S.root, S.name, S.createdAt, none, []⟩
  | within {dir name : String} {d : Place} {taken : List Saved} {k : Nat}
    (along : Along (Passing S dir) S.start x) (plain : Path.IsPlain name)
    (hdir : dir = Path.join S.root name) (kept : Kept S dir d taken k x.tree) :
    Stage S x taken k ⟨S.root, S.name, S.createdAt, some dir, taken.map Saved.copy⟩

/-- A tree that is passed in a run whose backup ends like this. -/
def Between (S : Setting) (b : Session) (t : Tree) : Prop :=
  match b.dir with
  | none => Grown S t
  | some dir => Passing S dir t

/-- What was there at the start is the same in two states. -/
def Steady (S : Setting) (x x' : Machine) : Prop :=
  ∀ p n, S.start.tree.get? p = some n → x'.tree.get? p = x.tree.get? p

theorem Steady.refl : Steady S x x := fun _ _ _ => rfl

theorem Steady.trans (h : Steady S x y) (h' : Steady S y x') : Steady S x x' :=
  fun p n hp => (h' p n hp).trans (h p n hp)

theorem leads_at (hx : x.toScene = S.start.toScene) :
    (S.at x.tree).Leads dir d ↔ x.Leads dir d := by
  simp only [Leads, spotOf, Setting.at, hx]

namespace Stage

theorem scene (h : Stage S x taken k b) : x.toScene = S.start.toScene := by
  cases h with
  | before along => exact along.scene
  | within along => exact along.scene

theorem along (h : Stage S x taken k b) : Along (Between S b) S.start x := by
  cases h with
  | before along => exact along.mono fun _ => And.left
  | within along => exact along

theorem holds (h : Stage S x taken k b) : S.start.tree.Holds x.tree := by
  cases h with
  | before along => exact .of_within along.last.1.within
  | within _ _ _ kept => exact kept.holds

theorem ordered (h : Stage S x taken k b) : x.Ordered := by
  refine S.ordered.of_holds h.scene ?_ h.holds
  cases h with
  | before along => exact along.last.1.sound
  | within _ _ _ kept => exact kept.sound

end Stage

/-! ### The directory of the run -/

theorem does_exists? {r : Bool} (h : x.does (Files.exists? path) = (r, x')) :
    x' = x ∧ (r = false → Fits path → ∀ p n, x.find path ≠ .ok (p, n)) := by
  simp only [Files.exists?, bind_pure_comp, does_map, does_kind?, Prod.mk.injEq] at h
  refine ⟨h.2.symm, fun hr hfits p n hfind => ?_⟩
  rw [kind?, given_of_fits hfits, hfind] at h
  rw [← h.1] at hr
  cases hr

theorem freePath_eq_ok {root name : String} {tries number : Nat} {r : Except Failure String}
    (h : x.does (freePath root name tries number) = (r, x')) : x' = x ∧ ∀ dir, r = .ok dir →
      (∃ n : Nat, dir = Path.join root (name ++ "-" ++ toString n)) ∧
        (Fits dir → ∀ p n, x.find dir ≠ .ok (p, n)) := by
  induction tries generalizing number with
  | zero =>
    cases h
    exact ⟨rfl, fun _ h => nomatch h⟩
  | succ tries ih =>
    obtain ⟨found, x₁, hexists, h⟩ := does_bind_eq_iff.1 h
    obtain ⟨rfl, hfound⟩ := does_exists? hexists
    cases found with
    | true => exact ih h
    | false =>
      cases h
      refine ⟨rfl, fun dir hdir => ?_⟩
      cases hdir
      exact ⟨⟨number, rfl⟩, hfound rfl⟩

theorem freshDir_eq_ok (hname : Path.IsPlain b.name) {r : Except Failure String}
    (h : x.does b.freshDir = (r, x')) : x' = x ∧ ∀ dir, r = .ok dir →
      (∃ name, Path.IsPlain name ∧ dir = Path.join b.root name) ∧
        (Fits dir → ∀ p n, x.find dir ≠ .ok (p, n)) := by
  obtain ⟨found, x₁, hexists, h⟩ := does_bind_eq_iff.1 h
  obtain ⟨rfl, hfound⟩ := does_exists? hexists
  cases found with
  | true =>
    obtain ⟨rfl, hfree⟩ := freePath_eq_ok h
    refine ⟨rfl, fun dir hdir => ?_⟩
    obtain ⟨⟨n, hn⟩, hnone⟩ := hfree dir hdir
    exact ⟨⟨_, hname.numbered n, hn⟩, hnone⟩
  | false =>
    cases h
    refine ⟨rfl, fun dir hdir => ?_⟩
    cases hdir
    exact ⟨⟨b.name, hname, rfl⟩, hfound rfl⟩

theorem Grown.pave (hx : Grown S x.tree) (hs : x.Ordered) (hscene : x.toScene = S.start.toScene)
    (h : Paved (names S.root) (startOf S.start.here S.root) x y) :
    Grown S y.tree ∧ x.tree.Within y.tree ∧ y.Ordered := by
  obtain ⟨hy, hwithin, hnew⟩ := h.result hs (hx.within _ _ (S.ordered.start S.root))
  refine ⟨⟨hy.tree, hx.within.trans hwithin, fun p n hp hn => ?_⟩, hwithin, hy⟩
  cases hxp : x.tree.get? p with
  | none =>
    obtain ⟨hdir, us, L, m, hus, hgo⟩ := hnew p n hxp hn
    rw [h.scene.trans hscene] at hgo
    exact ⟨hdir, us, L, m, hus, hgo⟩
  | some n' =>
    obtain rfl : n' = n := Option.some.inj ((hwithin p n' hxp).symm.trans hn)
    exact (hx.fresh p n' hp hxp).imp_right fun hway => hway.mono (.of_within hwithin)

theorem along_of_paved (hx : Grown S x.tree) (hs : x.Ordered)
    (hscene : x.toScene = S.start.toScene)
    (h : Paved (names S.root) (startOf S.start.here S.root) x y) :
    Along (fun t => Grown S t ∧ t.Within y.tree) x y := by
  induction h with
  | refl => exact .refl ⟨hx, .refl _⟩
  | later _ ih => exact ih.later
  | makeDir hy hvs hseg hv ih =>
    obtain ⟨hgrown, -, hys⟩ := hx.pave hs hscene hy
    obtain ⟨hgrown', hput, -⟩ :=
      hgrown.pave hys (hy.scene.trans hscene) (.makeDir .refl hvs hseg hv)
    exact (ih.mono fun t ht => ⟨ht.1, ht.2.trans hput⟩).perform rfl ⟨hgrown', .refl _⟩

theorem kept_nil (hsound : t.Sound) (hwithin : S.start.tree.Within t)
    (hvacant : S.start.tree.get? d = none) (hleads : (S.at t).Leads dir d)
    (htop : ∃ r name, S.AtRoot t r ∧ d = r ++ [name])
    (hnew : ∀ p n, S.start.tree.get? p = none → t.get? p = some n →
      n = .directory ∧ (S.OnWay t p ∨ d <+: p)) : Kept S dir d [] 0 t := by
  refine ⟨hsound, .of_within hwithin, hvacant, hleads, htop,
    fun p b hp => ⟨b, hwithin _ _ hp, .inl rfl⟩, fun p n hp hn => ?_, Nat.le_refl 0, nofun, nofun,
    fun b hb => ?_, fun h => absurd h (Nat.lt_irrefl 0)⟩
  · obtain ⟨rfl, hway⟩ := hnew p n hp hn
    exact hway.imp (⟨rfl, ·⟩) (⟨·, by decide⟩)
  · cases (hnew _ _ (S.ordered.tree.none_below hvacant (List.prefix_append _ _)) hb).1

theorem vacant_of_leads {name : String} (hgrown : Grown S x.tree) (hs : x.Ordered)
    (hscene : x.toScene = S.start.toScene) (hname : Path.IsPlain name)
    (hpaved : Paved (names S.root) (startOf S.start.here S.root) x y)
    (hbefore : ∀ d, ¬x.Leads (Path.join S.root name) d)
    (hafter : y.Leads (Path.join S.root name) d) :
    S.start.tree.get? d = none ∧ ∃ r name, S.AtRoot y.tree r ∧ d = r ++ [name] := by
  obtain ⟨hnul, hne, L', m', hafter⟩ := hafter
  have hspot : ∀ z : Machine, z.toScene = S.start.toScene → z.spotOf (Path.join S.root name) =
      ⟨maxLinks, false, startOf S.start.here S.root, names S.root ++ [name]⟩ := by
    intro z hz
    rw [spotOf, hz, startOf_join _ _ hname.isAbsolute, Path.names_join _ hname.isAbsolute,
      hname.names]
  have hdirect : x.Direct S.root := S.direct.mono hscene (.of_within hgrown.within)
  obtain ⟨xs, ys, L, m, e, hxs, hup, hgo⟩ := hdirect.exists_goes
  rw [hscene] at hgo
  rw [hspot y (hpaved.scene.trans hscene), hpaved.scene, hscene] at hafter
  obtain ⟨r, L₁, m₁, hroot, hnone, rfl⟩ := vacant_of_paved hs
    (hgrown.within _ _ (S.ordered.start S.root)) hpaved hxs (by rwa [hscene]) hup hname
    (fun d L m hgo => hbefore d ⟨hnul, hne, L, m, by rwa [hspot x hscene]⟩)
    (by rwa [hpaved.scene, hscene])
  rw [hpaved.scene, hscene] at hroot
  refine ⟨?_, r, name, ⟨L₁, m₁, hroot⟩, rfl⟩
  have hnone := hs.tree.none_below hnone (List.prefix_append r [name])
  cases hstart : S.start.tree.get? (r ++ [name]) with
  | none => rfl
  | some n =>
    rw [hgrown.within _ n hstart] at hnone
    cases hnone

/-- Where the directory of the run stands in the end, no tree on the way has the path of the
directory lead to something from before. -/
theorem along_passing (h : Along (fun t => Grown S t ∧ t.Within y.tree) S.start y)
    (hwithin : y.tree.Within t) (hkept : Kept S dir d taken k t) :
    Along (Passing S dir) S.start y := by
  refine h.mono fun t' ⟨hgrown, ht'⟩ => .early hgrown fun d' hd' => ?_
  have hsame : (S.at t).Leads dir d' :=
    Leads.mono (s := S.at t') rfl (.of_within (ht'.trans hwithin)) hd'
  rw [hsame.unique hkept.leads]
  exact hkept.vacant

theorem kept_makeDir {name : String} (hgrown : Grown S y.tree) (hs : y.Ordered)
    (hscene : y.toScene = S.start.toScene) (hname : Path.IsPlain name) (hdir : dir = Path.join S.root name)
    (hp : y.reach false false dir = .ok (.vacant p)) : y.tree.Within (y.tree.put p .directory) ∧
      Kept S dir p [] 0 (y.tree.put p .directory) := by
  obtain ⟨hroom, hnone⟩ := room_of_vacant hs hp
  have hput : y.tree.Within (y.tree.put p .directory) := .put hroom.ne_nil hnone
  obtain ⟨hnul, hne, hp⟩ := reach_eq_ok hp
  obtain ⟨L, m, hgo⟩ := Tree.goes_put hroom.ne_nil hp
  have hleads : (S.at (y.tree.put p .directory)).Leads dir p :=
    ⟨hnul, hne, L, m, by rw [hscene] at hgo; exact hgo⟩
  have htop : ∃ r name, S.AtRoot (y.tree.put p .directory) r ∧ p = r ++ [name] := by
    rw [hdir, hscene, startOf_join _ _ hname.isAbsolute, Path.names_join _ hname.isAbsolute,
      hname.names] at hp
    obtain ⟨L', m', r, hr, hpr⟩ := Tree.vacant_split hname hp
    exact ⟨r, name, ⟨L', m', hr.mono (.of_within hput)⟩, hpr⟩
  refine ⟨hput, kept_nil (hs.makeDir hroom hnone).tree (hgrown.within.trans hput) ?_ hleads
    htop fun q n hq hn => ?_⟩
  · cases hstart : S.start.tree.get? p with
    | none => rfl
    | some n =>
      rw [hgrown.within p n hstart] at hnone
      cases hnone
  · rw [Tree.get?_put _ _ _ _ hroom.ne_nil] at hn
    split at hn
    next heq => exact ⟨(Option.some.inj hn).symm, .inr (heq ▸ List.prefix_rfl)⟩
    next => exact (hgrown.fresh q n hq hn).imp_right fun hway => .inl (hway.mono (.of_within hput))

/-- The directory of the run is made at a path that leads to nothing, or the run still stands before
it. What was there at the start stays as it is. -/
theorem Stage.found {name : String} {r : Except SystemError Unit}
    (along : Along (fun t => Grown S t ∧ t.Within x.tree) S.start x) (hname : Path.IsPlain name)
    (hdir : dir = Path.join S.root name) (hnone : Fits dir → ∀ d, ¬x.Leads dir d) (h : Founds x dir r x') :
    Stage S x' [] 0 ⟨S.root, S.name, S.createdAt, r.toOption.map fun _ => dir, []⟩ ∧
      Steady S x x' := by
  have hstage : Stage S x [] 0 ⟨S.root, S.name, S.createdAt, none, []⟩ := .before along
  have hscene := hstage.scene
  have hgrown := along.last.1
  have hway : ∀ {y}, Paved (names dir).dropLast (startOf x.here dir) x y →
      Paved (names S.root) (startOf S.start.here S.root) x y ∧
        Along (fun t => Grown S t ∧ t.Within y.tree) S.start y ∧ Steady S x y := by
    intro y hpaved
    rw [hdir, Path.names_join _ hname.isAbsolute, hname.names, List.dropLast_concat,
      startOf_join _ _ hname.isAbsolute, hscene] at hpaved
    have hway := along_of_paved hgrown hstage.ordered hscene hpaved
    refine ⟨hpaved, (along.mono fun t ht => ⟨ht.1, ht.2.trans hway.first.2⟩).trans hway,
      fun p n hp => ?_⟩
    rw [hgrown.within p n hp, hway.last.1.within p n hp]
  cases h with
  | @made y p paved vacant =>
    obtain ⟨-, hall, hsteady⟩ := hway paved
    have hy : y.Ordered := (Stage.before hall).ordered
    obtain ⟨hput, hkept⟩ := kept_makeDir hall.last.1 hy hall.scene hname hdir vacant
    have hpassing : Along (Passing S dir) S.start (y.later.perform (.makeDir p)) :=
      (along_passing hall hput hkept).later.perform rfl (.kept hkept)
    refine ⟨.within hpassing hname hdir hkept, hsteady.trans fun q n hq => ?_⟩
    have hq' := hall.last.1.within q n hq
    exact (hput q n hq').trans hq'.symm
  | unmade paved there =>
    obtain ⟨hpaved, hall, hsteady⟩ := hway paved
    cases r with
    | error e => exact ⟨.before hall, hsteady⟩
    | ok =>
      rcases there rfl with hempty | ⟨hfits, d, hd⟩
      · exact absurd (hdir ▸ hempty) (Path.join_ne_empty _ hname.ne_empty)
      obtain ⟨hvacant, htop⟩ := vacant_of_leads hgrown hstage.ordered hscene hname hpaved
        (hdir ▸ hnone hfits) (hdir ▸ hd)
      have hkept : Kept S dir d [] 0 x'.tree :=
        kept_nil hall.last.1.sound hall.last.1.within hvacant ((leads_at hall.scene).2 hd) htop
          fun q n hq hn => (hall.last.1.fresh q n hq hn).imp_right .inl
      exact ⟨.within (along_passing hall (.refl _) hkept) hname hdir hkept, hsteady⟩

/-- The directory of the run is made if there is none yet. What was there at the start stays as it
is. -/
theorem Stage.open? (h : Stage S x taken k b) {r : Except Failure String}
    (hx : x.does b.open? = ((r, b'), x')) : Stage S x' taken k b' ∧ Steady S x x' ∧
      ∀ dir, r = .ok dir → b'.dir = some dir := by
  cases h with
  | within along hname hdir kept =>
    cases hx
    exact ⟨.within along hname hdir kept, .refl, fun dir hr => by cases hr; rfl⟩
  | before along =>
    unfold Session.open? at hx
    dsimp only at hx
    obtain ⟨r₁, x₁, hfresh, hx⟩ := does_bind_eq_iff.1 hx
    obtain ⟨rfl, hfree⟩ := freshDir_eq_ok S.plain hfresh
    cases r₁ with
    | error f =>
      cases hx
      exact ⟨.before along, .refl, nofun⟩
    | ok dir =>
    obtain ⟨⟨name, hname, hdir⟩, hnone⟩ := hfree dir rfl
    dsimp only at hdir hx
    obtain ⟨r₂, x₂, hcreate, hx⟩ := does_bind_eq_iff.1 hx
    obtain ⟨r₃, hmake, rfl⟩ := createDir_eq hcreate
    obtain ⟨hstage, hsteady⟩ := Stage.found along hname hdir
      (fun hfits d hd => hnone hfits d .directory (find_directory_iff.2 hd)) (founds_of_makeDirs hmake)
    cases r₃ with
    | error e =>
      cases hx
      exact ⟨hstage, hsteady, nofun⟩
    | ok =>
      cases hx
      exact ⟨hstage, hsteady, fun _ hr => congrArg some (Except.ok.inj hr)⟩

/-! ### Writing in the directory of the run -/

namespace Kept

theorem leads_of (h : Kept S dir d taken k x.tree) (hx : x.toScene = S.start.toScene) : x.Leads dir d :=
  (leads_at hx).1 h.leads

/-- The directory of a run stands in the one to which the path of the backups leads. -/
theorem leads_root (h : Kept S dir d taken k x.tree) (hx : x.toScene = S.start.toScene)
    (hroot : S.root ≠ "") {name : String} (hname : Path.IsPlain name)
    (hdir : dir = Path.join S.root name) : ∃ r name', x.Leads S.root r ∧ d = r ++ [name'] := by
  obtain ⟨r, name', ⟨L, m, hr⟩, rfl⟩ := h.top
  refine ⟨r, name', ⟨fun hc => ?_, hroot, L, m, ?_⟩, rfl⟩
  · exact h.leads.1 (hdir ▸ Path.mem_join_left hname.isAbsolute hc)
  · rw [spotOf, hx]
    exact hr

theorem ordered_of (h : Kept S dir d taken k x.tree) (hx : x.toScene = S.start.toScene) :
    x.Ordered :=
  S.ordered.of_holds hx h.sound h.holds

/-- What was there at the start is there in some form. -/
theorem exists_of_start (h : Kept S dir d taken k t) (hp : S.start.tree.get? p = some n) :
    ∃ n', t.get? p = some n' := by
  cases n with
  | file b =>
    obtain ⟨b', hb', -⟩ := h.files p b hp
    exact ⟨_, hb'⟩
  | directory => exact ⟨_, h.holds.dir hp⟩
  | link => exact ⟨_, h.holds p _ hp nofun⟩

theorem names_copyPath_ne (he : (p, f) ∈ S.places) {name : String} (hname : Path.IsPlain name) :
    names name ≠ names f.copyPath := by
  intro heq
  have hdeep := S.deep _ he
  rw [← heq, hname.names] at hdeep
  simp at hdeep

theorem pave (h : Kept S dir d taken k x.tree) (hx : x.toScene = S.start.toScene) {us : List String}
    (hus : ∀ u ∈ us, Path.IsPlain u)
    (hpaved : Paved (names dir ++ us) (startOf S.start.here dir) x y) :
    Along (Kept S dir d taken k) x y ∧ Steady S x y := by
  have hstart := (h.ordered_of hx).start dir
  rw [hx] at hstart
  suffices hall : Along (Kept S dir d taken k) x y by
    refine ⟨hall, fun p n hp => ?_⟩
    obtain ⟨n', hn'⟩ := h.exists_of_start hp
    rw [hn', (hpaved.result (h.ordered_of hx) hstart).2.1 p n' hn']
  induction hpaved with
  | refl => exact .refl h
  | later _ ih => exact ih.later
  | @makeDir y vs v hy hvs hseg hv ih =>
    have hyx : y.toScene = S.start.toScene := hy.scene.trans hx
    have hkept := ih.last
    have hys := hkept.ordered_of hyx
    obtain ⟨-, -, L, m, hgo⟩ := hkept.leads_of hyx
    rw [spotOf, hyx] at hgo
    rw [hyx] at hv
    obtain ⟨hroom, hnone⟩ :=
      Tree.vacant_of_follow hys.tree (fun _ _ => size_le_of_look)
        ((hy.result (h.ordered_of hx) hstart).2.1 _ _ hstart) hseg hv
    refine ih.perform rfl (hkept.put hroom ?_ (by simp [hnone]) (by decide) ?_
      fun _ => ⟨hnone, rfl⟩)
    · rcases List.prefix_or_prefix_of_prefix hvs (List.prefix_append (names dir) us) with
        ⟨rest, hrest⟩ | ⟨ws, rfl⟩
      · -- the first names of the path of the directory lead to what is there already
        obtain ⟨_, _, _, hgo⟩ := hgo.split hrest.symm (Nat.zero_le _) false
        obtain ⟨_, _, hnode⟩ := hgo.exists_node rfl false
        rw [hv] at hnode
        cases hnode
      · rw [List.prefix_append_right_inj] at hvs
        by_cases hws : ws = []
        · subst hws
          rw [List.append_nil] at hv
          obtain ⟨_, _, hnode⟩ := hgo.exists_node rfl false
          rw [hv] at hnode
          cases hnode
        rw [hgo.follow_append hws false false] at hv
        rcases Tree.follow_below hys.tree (fun _ target hle => hkept.not_link hle target)
          hkept.standing (fun w hw => hus w (hvs.mem hw)) hv with ⟨_, hnode, -⟩ | ⟨hvac, -⟩
        · cases hnode
        · cases hvac
          exact List.prefix_append _ _
    · rintro e he rfl
      rw [(hkept.copies e he).2] at hnone
      cases hnone

theorem aim (h : Kept S dir d taken k x.tree) (hx : x.toScene = S.start.toScene) (hrel : Path.IsWay rel)
    (hv : x.aim (Path.join dir rel) = .ok v) : v = d ++ names rel :=
  (h.leads_of hx).aim_join (h.ordered_of hx) (fun _ target hle => h.not_link hle target) hrel hv

/-- Writing a file in the directory of the run that is no copy and not the manifest. -/
theorem write (h : Kept S dir d taken k x.tree) (hx : x.toScene = S.start.toScene)
    (hrel : Path.IsWay rel) {bytes : ByteArray} {r : Except SystemError Unit}
    (hcopy : Fits (Path.join dir rel) → ∀ e ∈ taken, names rel ≠ names e.file.copyPath)
    (hmanifest : names rel ≠ [Manifest.fileName])
    (hw : x.write (Path.join dir rel) bytes = (r, x')) :
    Along (Kept S dir d taken k) x x' ∧ Steady S x x' ∧
      (r = .ok () → Fits (Path.join dir rel) ∧
        x'.tree.get? (d ++ names rel) = some (.file bytes)) := by
  rcases write_cases hw with ⟨rfl, e, rfl⟩ | ⟨v, b, hfits, hv, hb, rfl⟩
  · exact ⟨(Along.refl h).later, .refl, nofun⟩
  · obtain ⟨hroom, hfile⟩ := room_of_aim (h.ordered_of hx) hv
    cases h.aim hx hrel hv
    have hput := fun q => Tree.get?_put x.tree (d ++ names rel) q (.file b) hroom.ne_nil
    refine ⟨(Along.refl h).later.perform rfl (h.put hroom (List.prefix_append _ _) hfile
      nofun (fun e he heq => hcopy hfits e he (List.append_cancel_left heq))
      fun heq => absurd (List.append_cancel_left heq) hmanifest), fun p n hp => ?_, fun hr => ?_⟩
    · refine (hput p).trans (if_neg ?_)
      rintro rfl
      exact h.not_below hp (List.prefix_append _ _)
    · rw [← hb hr]
      exact ⟨hfits, (hput _).trans (if_pos rfl)⟩

/-- The same, with the directories on the way there. -/
theorem create (h : Kept S dir d taken k x.tree) (hx : x.toScene = S.start.toScene)
    (hrel : Path.IsWay rel) {bytes : ByteArray} {r : Except Failure Unit}
    (hcopy : Fits (Path.join dir rel) → ∀ e ∈ taken, names rel ≠ names e.file.copyPath)
    (hmanifest : names rel ≠ [Manifest.fileName])
    (hc : Creates x (Path.join dir rel) bytes r x') :
    Along (Kept S dir d taken k) x x' ∧ Steady S x x' ∧
      (r = .ok () → Fits (Path.join dir rel) ∧
        x'.tree.get? (d ++ names rel) = some (.file bytes)) := by
  have hpave : ∀ {y}, Paved (names (Path.join dir rel)).dropLast
      (startOf x.here (Path.join dir rel)) x y → Along (Kept S dir d taken k) x y ∧
        Steady S x y := by
    intro y hpaved
    rw [Path.names_join _ hrel.isAbsolute, List.dropLast_append_of_ne_nil hrel.names_ne_nil,
      startOf_join _ _ hrel.isAbsolute, hx] at hpaved
    exact h.pave hx (fun u hu => hrel.isPlain_of_mem_names (List.dropLast_subset _ hu)) hpaved
  cases hc with
  | unwritten paved =>
    obtain ⟨halong, hsteady⟩ := hpave paved
    exact ⟨halong, hsteady, nofun⟩
  | written paved write =>
    obtain ⟨halong, hsteady⟩ := hpave paved
    obtain ⟨halong', hsteady', hok⟩ :=
      halong.last.write (paved.scene.trans hx) hrel hcopy hmanifest write
    exact ⟨halong.trans halong', hsteady.trans hsteady', fun hr => hok (mapError_eq_ok_iff.1 hr)⟩

theorem get?_eq_none (h : Kept S dir d taken k x.tree) (hx : x.toScene = S.start.toScene)
    (hrel : Path.IsWay rel) (hnone : ∀ p n, x.find (Path.join dir rel) ≠ .ok (p, n)) :
    x.tree.get? (d ++ names rel) = none := by
  cases hget : x.tree.get? (d ++ names rel) with
  | none => rfl
  | some n =>
    have hn : n.kind ≠ .other := by
      cases n with
      | link target => exact absurd hget (h.not_link (List.prefix_append _ _) target)
      | directory | file => nofun
    exact absurd ((h.leads_of hx).find_join (h.ordered_of hx) hrel
      (S.admits_below (h.ordered_of hx) hx h.vacant hget) hget hn) (hnone _ _)

theorem find_file (h : Kept S dir d taken k x.tree) (hx : x.toScene = S.start.toScene)
    (he : (p, f) ∈ S.places) : ∃ b, x.find f.path = .ok (p, .file b) := by
  obtain ⟨b, hb⟩ := S.found _ he
  obtain ⟨b', hb', -⟩ := h.files p b (get?_of_find S.ordered hb)
  exact ⟨b', find_file_of_holds hx h.holds hb hb'⟩

/-- A file of the run still has its path without links. -/
theorem realPath? (h : Kept S dir d taken k x.tree) (hx : x.toScene = S.start.toScene)
    (he : (p, f) ∈ S.places) : x.realPath? f.path = some (pathOf p) := by
  obtain ⟨b, hb⟩ := S.named _ he
  obtain ⟨b', hb', -⟩ := h.files p b (get?_of_findBy S.ordered hb)
  apply realPath?_of_findBy
  rw [hx]
  exact findBy_file_of_holds hx h.holds hb hb'

/-- Putting the draft of the manifest in its place. -/
theorem rename {draft : String} (h : Kept S dir d taken k x.tree) (hx : x.toScene = S.start.toScene)
    (hplain : Path.IsPlain draft) (hne : draft ≠ Manifest.fileName)
    (hdraft : x.tree.get? (d ++ [draft]) = some (.file
      (⟨S.createdAt, taken.map Saved.copy⟩ : Manifest).text.toUTF8))
    {r : Except SystemError Unit}
    (hr : x.rename (Path.join dir draft) (Path.join dir Manifest.fileName) = (r, x')) :
    ∃ k', Along (Passing S dir) x x' ∧ Kept S dir d taken k' x'.tree ∧ Steady S x x' ∧
      (r = .ok () → k' = taken.length) := by
  have hmanifest := Manifest.isPlain_fileName
  have hshift := fun o ho => (h.leads_of hx).shift_join (o := o) (h.ordered_of hx)
    (fun _ target hle => h.not_link hle target) hplain hmanifest hne ho
  rcases rename_cases hr with ⟨rfl, hok⟩ | ⟨p, q, hfits, ho, rfl, rfl⟩
  · refine ⟨k, (Along.refl (.kept h)).later, h, .refl, fun hr => ?_⟩
    cases (hshift _ (hok hr)).1
  · obtain ⟨heq, -, hroom, hfile⟩ := hshift _ ho
    cases heq
    have hmove := h.move hfits hdraft hroom hfile
    refine ⟨_, (Along.refl (.kept h)).later.perform rfl (.kept hmove), hmove, fun q n hq => ?_,
      fun _ => rfl⟩
    have hget := Tree.get?_move (q := d ++ [Manifest.fileName]) (r := q) (by simp) (by simp) hdraft
    refine hget.trans ?_
    rw [if_neg, if_neg]
    · exact fun hle => h.not_below hq ((List.prefix_append _ _).trans hle)
    · rintro rfl
      exact h.not_below hq (List.prefix_append _ _)

theorem enter (h : Kept S dir d taken k x.tree) (hx : x.toScene = S.start.toScene)
    (htidy : Path.IsTidy dir) {operation : String} {r : Except Failure Unit}
    (hr : x.does (Files.writeWhole (Path.join dir Manifest.fileName)
      (⟨S.createdAt, taken.map Saved.copy⟩ : Manifest).text operation) = (r, x')) :
    ∃ k', Along (Passing S dir) x x' ∧ Kept S dir d taken k' x'.tree ∧ Steady S x x' ∧
      (r = .ok () → k' = taken.length) := by
  have hplain : Path.IsPlain (Manifest.fileName ++ ".tmp") := by decide
  obtain ⟨r₁, y, hwrite, hend⟩ := writeWhole_cases htidy (by decide) hr
  obtain ⟨halong, hsteady, hdraft⟩ := h.write hx hplain.isWay
    (fun _ e he => names_copyPath_ne (h.genuine e he).1 hplain) (by decide) hwrite
  have hpassing := halong.mono fun _ => Passing.kept
  rcases hend with ⟨rfl, f, rfl⟩ | ⟨rfl, r₂, hrename, hok⟩
  · exact ⟨k, hpassing, halong.last, hsteady, nofun⟩
  · obtain ⟨-, hdraft⟩ := hdraft rfl
    rw [hplain.names] at hdraft
    obtain ⟨k', halong', hkept, hsteady', hk⟩ :=
      halong.last.rename (halong.scene.trans hx) hplain (by decide) hdraft hrename
    exact ⟨k', hpassing.trans halong', hkept, hsteady.trans hsteady', fun hr => hk (hok.1 hr)⟩

end Kept

/-- **Saving a file.** A copy of it is taken or not; what was there at the start stays as it is; and
if all goes well, the manifest on disk lists the file. -/
theorem Stage.save (h : Stage S x taken k b) (he : (e.place, e.file) ∈ S.places)
    (hbytes : S.start.tree.get? e.place = some (.file e.bytes)) {r : Except Failure String}
    (hx : x.does (b.save e.file e.bytes) = ((r, b'), x')) : ∃ taken' k', Stage S x' taken' k' b' ∧
      Steady S x x' ∧ (taken' = taken ∨ taken' = taken ++ [e]) ∧
      ∀ copy, r = .ok copy → taken' = taken ++ [e] ∧ k' = taken'.length ∧
        ∃ dir, b'.dir = some dir ∧ copy = Path.join dir e.file.copyPath := by
  have hway : Path.IsWay e.file.copyPath := S.isWay _ he
  obtain ⟨⟨r₁, b₁⟩, x₁, hopen, hx⟩ := does_bind_eq_iff.1 hx
  obtain ⟨hstage, hsteady, hdir⟩ := h.open? hopen
  cases r₁ with
  | error f =>
    cases hx
    exact ⟨taken, k, hstage, hsteady, .inl rfl, nofun⟩
  | ok dir =>
  have hdir := hdir dir rfl
  cases hstage with
  | before => cases hdir
  | @within _ name d _ _ along hname hjoin kept =>
  cases hdir
  have hscene := along.scene
  dsimp only at hx
  obtain ⟨found, x₂, hexists, hx⟩ := does_bind_eq_iff.1 hx
  obtain ⟨rfl, hfound⟩ := does_exists? hexists
  cases found with
  | true =>
    cases hx
    exact ⟨taken, k, .within along hname hjoin kept, hsteady, .inl rfl, nofun⟩
  | false =>
  have hfree := fun hfits => kept.get?_eq_none hscene hway (hfound rfl hfits)
  obtain ⟨r₂, x₃, hcreate, hx⟩ := does_bind_eq_iff.1 hx
  have hnew : Fits (Path.join dir e.file.copyPath) →
      ∀ e' ∈ taken, names e.file.copyPath ≠ names e'.file.copyPath := by
    intro hfits e' he' heq
    have hnone := hfree hfits
    rw [heq, (kept.copies e' he').2] at hnone
    cases hnone
  obtain ⟨hcopy, hsteady₁, hcopied⟩ := kept.create hscene hway hnew
    (Kept.names_copyPath_ne he Manifest.isPlain_fileName).symm (creates_of_writeCreating hcreate)
  have halong := along.trans (hcopy.mono fun _ => .kept)
  have hsteady₂ := hsteady.trans hsteady₁
  cases r₂ with
  | error f =>
    cases hx
    exact ⟨taken, k, .within halong hname hjoin hcopy.last, hsteady₂, .inl rfl, nofun⟩
  | ok =>
  obtain ⟨hfits, hcopied⟩ := hcopied rfl
  have hkept' : Kept S dir d (taken ++ [e]) k x₃.tree := hcopy.last.take he hbytes hfits hcopied
  have hscene₃ := halong.scene
  obtain ⟨real, x₄, hreal, hx⟩ := does_bind_eq_iff.1 hx
  rw [does_realPath?, hkept'.realPath? hscene₃ he] at hreal
  cases hreal
  have hcopies : taken.map Saved.copy ++ [⟨Session.slashed e.file.copyPath, pathOf e.place⟩] =
      (taken ++ [e]).map Saved.copy := by
    rw [List.map_append]
    rfl
  dsimp only [Option.getD_some] at hx
  rw [hcopies] at hx
  obtain ⟨r₅, x₅, henter, hx⟩ := does_bind_eq_iff.1 hx
  obtain ⟨k', halong', hkept'', hsteady₃, hk⟩ :=
    hkept'.enter hscene₃ (hjoin ▸ Path.isTidy_join S.root hname) henter
  have hstage := Stage.within (halong.trans halong') hname hjoin hkept''
  cases r₅ with
  | error f =>
    cases hx
    exact ⟨_, _, hstage, hsteady₂.trans hsteady₃, .inr rfl, nofun⟩
  | ok =>
    cases hx
    refine ⟨_, _, hstage, hsteady₂.trans hsteady₃, .inr rfl, fun copy hcopy => ?_⟩
    cases hcopy
    exact ⟨rfl, hk rfl, dir, rfl, rfl⟩

/-- Writing a file that the manifest lists. Nothing else that was there at the start changes. -/
theorem Stage.overwrite (h : Stage S x taken k b) (he : e ∈ taken.take k) {bytes : ByteArray}
    {r : Except SystemError Unit} (hw : x.write e.file.path bytes = (r, x')) :
    Stage S x' taken k b ∧
      (∃ left, x'.tree.get? e.place = some (.file left) ∧ (r = .ok () → left = bytes)) ∧
      ∀ p, p ≠ e.place → x'.tree.get? p = x.tree.get? p := by
  cases h with
  | before => cases he
  | within along hname hjoin kept =>
  obtain ⟨hplace, -⟩ := kept.genuine e (List.mem_of_mem_take he)
  obtain ⟨b', hfind⟩ := kept.find_file along.scene hplace
  have hget := get?_of_find (kept.ordered_of along.scene) hfind
  rcases write_cases hw with ⟨rfl, e', rfl⟩ | ⟨v, left, -, hv, hleft, rfl⟩
  · exact ⟨.within along.later hname hjoin kept, ⟨b', hget, nofun⟩, fun _ _ => rfl⟩
  · rw [aim_of_find hfind] at hv
    cases hv
    have hput := fun q => Tree.get?_put x.tree e.place q (.file left) (Tree.ne_nil_of_file hget)
    have hkept := kept.overwrite he left
    exact ⟨.within (along.later.perform rfl (.kept hkept)) hname hjoin hkept,
      ⟨left, (hput _).trans (if_pos rfl), hleft⟩, fun p hp => (hput p).trans (if_neg hp)⟩

/-- What was not there at the start lies in the directory of the run, or it is a directory on the
way to the backups. -/
theorem Stage.fresh_cases (h : Stage S x taken k b) (hp : S.start.tree.get? p = none)
    (hn : x.tree.get? p = some n) :
    (∃ dir d, b.dir = some dir ∧ S.start.tree.get? d = none ∧
      x.find dir = .ok (d, .directory) ∧ d <+: p) ∨ (n = .directory ∧ S.OnWay x.tree p) := by
  cases h with
  | before along => exact .inr (along.last.1.fresh p n hp hn)
  | within along _ _ kept =>
    rcases kept.fresh p n hp hn with hway | ⟨hle, -⟩
    · exact .inr hway
    · exact .inl ⟨_, _, rfl, kept.vacant, find_directory_iff.2 (kept.leads_of along.scene), hle⟩

end Renaming.Backup
