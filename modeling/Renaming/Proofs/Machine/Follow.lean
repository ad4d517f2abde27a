import Renaming.Proofs.Machine.Tree

/-!
Following a path, step by step. `Tree.Goes` takes one spot on a path to another; every path that
leads anywhere goes to a spot at which it ends (`exists_goes_of_follow`). What a path meets on its
way to a directory are directories and links alone, so it leads there in every tree that holds these
(`Goes.mono`). In a part of a tree without links, a way of plain names leads where it says
(`follow_below`). What is written to ends a way on which no slash asks for a directory
(`exists_goes_of_fill`). Names that are the same but for dots lead to one place (`follow_unique`).
-/

namespace Renaming

/-- A spot on a path: how many links may still be followed, whether a directory must be reached,
where one is, and the names that are left. -/
structure Spot where
  links : Nat
  mustBeDir : Bool
  here : Place
  names : List String

/-- Names can be looked up one after the other, each below a place and those before it. -/
def Look.Admits (look : Look) (p : Place) (xs : List String) : Prop :=
  ∀ ys y, ys ++ [y] <+: xs → look (p ++ ys) y = none

theorem Look.Admits.tail {look : Look} {p : Place} {x : String} {xs : List String}
    (h : look.Admits p (x :: xs)) : look.Admits (p ++ [x]) xs := by
  intro ys y hle
  rw [← List.append_cons]
  exact h (x :: ys) y (List.cons_prefix_cons.2 ⟨rfl, hle⟩)

theorem Look.Admits.above {look : Look} {p : Place} {us xs : List String}
    (h : look.Admits p xs) (hle : us <+: xs) : look.Admits p us :=
  fun ys y hus => h ys y (hus.trans hle)

theorem Look.admits_singleton {look : Look} {p : Place} {x : String} (h : look p x = none) :
    look.Admits p [x] := by
  intro ys y hle
  have hlength := hle.length_le
  rw [List.length_append, List.length_singleton, List.length_singleton] at hlength
  obtain rfl : ys = [] := List.eq_nil_of_length_eq_zero (by omega)
  obtain ⟨rfl, -⟩ := List.cons_prefix_cons.1 hle
  rwa [List.append_nil]

theorem Look.Admits.head {look : Look} {p : Place} {x : String} {xs : List String}
    (h : look.Admits p (x :: xs)) : look p x = none := by
  have := h [] x (List.cons_prefix_cons.2 ⟨rfl, List.nil_prefix⟩)
  rwa [List.append_nil] at this

namespace Tree

/-- The way from one spot on a path to a later one. Every link on it is followed. -/
inductive Goes (t : Tree) (look : Look) : Spot → Spot → Prop
  | refl (c : Spot) : Goes t look c c
  | dot {L m here rest c} (hlook : look here "." = none)
    (next : Goes t look ⟨L, m, here, rest⟩ c) : Goes t look ⟨L, m, here, "." :: rest⟩ c
  | up {L m here rest c} (hlook : look here ".." = none)
    (next : Goes t look ⟨L, m, here.dropLast, rest⟩ c) : Goes t look ⟨L, m, here, ".." :: rest⟩ c
  | down {L m here name rest c} (hdot : name ≠ ".") (hup : name ≠ "..")
    (hlook : look here name = none)
    (hdir : t.get? (here ++ [name]) = some .directory)
    (next : Goes t look ⟨L, m, here ++ [name], rest⟩ c) : Goes t look ⟨L, m, here, name :: rest⟩ c
  | jump {L m here name rest c target} (hdot : name ≠ ".") (hup : name ≠ "..")
    (hlook : look here name = none)
    (hlink : t.get? (here ++ [name]) = some (.link target))
    (next : Goes t look ⟨L, m || rest.isEmpty && asksForDir target, startOf here target,
      Path.names target ++ rest⟩ c) : Goes t look ⟨L + 1, m, here, name :: rest⟩ c

/-- What a path that has gone to a spot ends in. -/
inductive Ends (t : Tree) (look : Look) (followLast : Bool) : Spot → Reached → Prop
  | here {L m here} : Ends t look followLast ⟨L, m, here, []⟩ (.node here .directory)
  | vacant {L m here name} (hdot : name ≠ ".") (hup : name ≠ "..")
    (hlook : look here name = none) (hnone : t.get? (here ++ [name]) = none) :
    Ends t look followLast ⟨L, m, here, [name]⟩ (.vacant (here ++ [name]))
  | file {L here name bytes} (hdot : name ≠ ".") (hup : name ≠ "..")
    (hlook : look here name = none)
    (hfile : t.get? (here ++ [name]) = some (.file bytes)) :
    Ends t look followLast ⟨L, false, here, [name]⟩ (.node (here ++ [name]) (.file bytes))
  | link {L here name target} (hdot : name ≠ ".") (hup : name ≠ "..")
    (hlook : look here name = none) (hlast : followLast = false)
    (hlink : t.get? (here ++ [name]) = some (.link target)) :
    Ends t look followLast ⟨L, false, here, [name]⟩ (.node (here ++ [name]) (.link target))

variable {t t' : Tree} {look : Look} {c c' c'' : Spot} {followLast m : Bool} {L : Nat}
  {p d here : Place} {name : String} {xs ys : List String} {r : Reached}

/-! ### The steps of `follow` -/

/-- What follows where a link has to be followed, if so many more may be. -/
def jumpBy (t : Tree) (look : Look) (followLast : Bool) :
    (links : Nat) → Bool → Place → List String → Except SystemError Reached
  | 0 => fun _ _ _ => .error .tooManyLinks
  | links + 1 => t.follow look followLast links

theorem follow_eq (t : Tree) (look : Look) (followLast : Bool) (L : Nat) :
    t.follow look followLast L = t.followBy look followLast (t.jumpBy look followLast L) := by
  cases L <;> rfl

theorem followBy_cons {jump : Bool → Place → List String → Except SystemError Reached}
    (hlook : look here name = none) :
    t.followBy look followLast jump m here (name :: xs) =
      if name = "." then t.followBy look followLast jump m here xs
      else if name = ".." then t.followBy look followLast jump m here.dropLast xs
      else
        match t.get? (here ++ [name]) with
        | none => if xs.isEmpty then .ok (.vacant (here ++ [name])) else .error .notFound
        | some .directory => t.followBy look followLast jump m (here ++ [name]) xs
        | some (.file bytes) =>
          if xs.isEmpty && !m then .ok (.node (here ++ [name]) (.file bytes))
          else .error .notDirectory
        | some (.link target) =>
          if xs.isEmpty && !followLast && !m then .ok (.node (here ++ [name]) (.link target))
          else
            jump (m || xs.isEmpty && asksForDir target) (startOf here target)
              (Path.names target ++ xs) := by
  rw [followBy]
  split
  next e he => cases hlook.symm.trans he
  next => rfl

theorem follow_nil : t.follow look followLast L m here [] = .ok (.node here .directory) := by
  rw [follow_eq, followBy]

theorem follow_dot (hlook : look here "." = none) :
    t.follow look followLast L m here ("." :: xs) = t.follow look followLast L m here xs := by
  rw [follow_eq, followBy_cons hlook, if_pos rfl]

theorem follow_up (hlook : look here ".." = none) :
    t.follow look followLast L m here (".." :: xs) =
      t.follow look followLast L m here.dropLast xs := by
  rw [follow_eq, followBy_cons hlook, if_neg (by decide), if_pos rfl]

theorem follow_down (hdot : name ≠ ".") (hup : name ≠ "..")
    (hlook : look here name = none)
    (hdir : t.get? (here ++ [name]) = some .directory) :
    t.follow look followLast L m here (name :: xs) =
      t.follow look followLast L m (here ++ [name]) xs := by
  rw [follow_eq, followBy_cons hlook, if_neg hdot, if_neg hup]
  simp only [hdir]

theorem follow_jump {target : String} (hdot : name ≠ ".") (hup : name ≠ "..")
    (hlook : look here name = none)
    (hlink : t.get? (here ++ [name]) = some (.link target))
    (hgo : followLast = true ∨ m = true ∨ xs ≠ []) :
    t.follow look followLast (L + 1) m here (name :: xs) =
      t.follow look followLast L (m || xs.isEmpty && asksForDir target) (startOf here target)
        (Path.names target ++ xs) := by
  have hstop : (xs.isEmpty && !followLast && !m) = false := by
    rcases hgo with rfl | rfl | h <;> simp_all
  rw [follow_eq, followBy_cons hlook, if_neg hdot, if_neg hup]
  simp only [hlink, Bool.false_eq_true, if_false, hstop]
  rfl

/-- Where a path leads anywhere, its first name can be looked up. -/
theorem look_of_follow (h : t.follow look followLast L m here (name :: xs) = .ok r) :
    look here name = none := by
  rw [follow_eq, followBy] at h
  split at h
  · cases h
  next hlook => exact hlook

/-- What follows where a link has to be followed to what is written to, if so many more may be. -/
def fillJump (t : Tree) (look : Look) :
    (links : Nat) → Bool → Place → List String → Except SystemError Reached
  | 0 => fun _ _ _ => .error .tooManyLinks
  | links + 1 => fun mustBeDir here names =>
    if mustBeDir then t.slashed look links here names else t.fill look links here names

theorem fill_eq (t : Tree) (look : Look) (L : Nat) :
    t.fill look L = t.followBy look true (t.fillJump look L) false := by
  cases L <;> rfl

/-- Up to the first link that is followed, a path goes to a spot at which it ends, or from which it
is followed further. -/
theorem exists_goes_of_followBy {P : Spot → Prop}
    {jump : Bool → Place → List String → Except SystemError Reached}
    (hspot : ∀ here xs, P ⟨L, m, here, xs⟩)
    (hjump : ∀ m here xs, jump m here xs = .ok r →
      ∃ L' c, L = L' + 1 ∧ t.Goes look ⟨L', m, here, xs⟩ c ∧ t.Ends look followLast c r ∧ P c)
    (h : t.followBy look followLast jump m here xs = .ok r) :
    ∃ c, t.Goes look ⟨L, m, here, xs⟩ c ∧ t.Ends look followLast c r ∧ P c := by
  induction xs generalizing here with
  | nil =>
    rw [followBy] at h
    cases h
    exact ⟨_, .refl _, .here, hspot _ _⟩
  | cons name xs ih =>
    cases hlook : look here name with
    | some e =>
      rw [followBy, hlook] at h
      cases h
    | none =>
    rw [followBy_cons hlook] at h
    split at h
    next hdot =>
      subst hdot
      obtain ⟨c, hc, he⟩ := ih h
      exact ⟨c, .dot hlook hc, he⟩
    next hdot =>
    split at h
    next hup =>
      subst hup
      obtain ⟨c, hc, he⟩ := ih h
      exact ⟨c, .up hlook hc, he⟩
    next hup =>
    split at h
    next hnone =>
      split at h
      next hlast =>
        cases h
        rw [List.isEmpty_iff] at hlast
        subst hlast
        exact ⟨_, .refl _, .vacant hdot hup hlook hnone, hspot _ _⟩
      · cases h
    next hdir =>
      obtain ⟨c, hc, he⟩ := ih h
      exact ⟨c, .down hdot hup hlook hdir hc, he⟩
    next bytes hfile =>
      split at h
      next hlast =>
        cases h
        obtain ⟨rfl, rfl⟩ : xs = [] ∧ m = false := by simpa using hlast
        exact ⟨_, .refl _, .file hdot hup hlook hfile, hspot _ _⟩
      · cases h
    next target hlink =>
      split at h
      next hlast =>
        cases h
        obtain ⟨⟨rfl, rfl⟩, rfl⟩ : (xs = [] ∧ followLast = false) ∧ m = false := by
          simpa using hlast
        exact ⟨_, .refl _, .link hdot hup hlook rfl hlink, hspot _ _⟩
      next =>
        obtain ⟨L', c, rfl, hc, he⟩ := hjump _ _ _ h
        exact ⟨c, .jump hdot hup hlook hlink hc, he⟩

/-- Every path that leads anywhere goes to a spot at which it ends. -/
theorem exists_goes_of_follow (h : t.follow look followLast L m here xs = .ok r) :
    ∃ c, t.Goes look ⟨L, m, here, xs⟩ c ∧ t.Ends look followLast c r := by
  suffices h' : ∃ c, t.Goes look ⟨L, m, here, xs⟩ c ∧ t.Ends look followLast c r ∧ True by
    simpa using h'
  induction L generalizing m here xs with
  | zero =>
    refine exists_goes_of_followBy (fun _ _ => trivial) (fun _ _ _ h => ?_) h
    cases h
  | succ L ih =>
    refine exists_goes_of_followBy (fun _ _ => trivial) (fun _ _ _ h => ?_) h
    obtain ⟨c, hc, he⟩ := ih h
    exact ⟨L, c, rfl, hc, he⟩

/-- A slash stops every write. -/
theorem slashed_ne_ok : t.slashed look L here xs ≠ .ok r := by
  unfold slashed
  split <;> nofun

/-- What is written to ends the way of a path on which no slash asks for a directory. -/
theorem exists_goes_of_fill (h : t.fill look L here xs = .ok r) :
    ∃ c, t.Goes look ⟨L, false, here, xs⟩ c ∧ t.Ends look true c r ∧ c.mustBeDir = false := by
  induction L generalizing here xs with
  | zero =>
    refine exists_goes_of_followBy (fun _ _ => rfl) (fun _ _ _ h => ?_) h
    cases h
  | succ L ih =>
    refine exists_goes_of_followBy (fun _ _ => rfl) (fun m _ _ h => ?_) h
    split at h
    · exact absurd h slashed_ne_ok
    next hm =>
      obtain ⟨c, hc, he⟩ := ih h
      rw [Bool.not_eq_true] at hm
      exact ⟨L, c, rfl, hm ▸ hc, he⟩

/-! ### The way of a path -/

theorem Ends.length_le (h : t.Ends look followLast c r) : c.names.length ≤ 1 := by
  cases h with
  | here => exact Nat.zero_le _
  | vacant | file | link => exact Nat.le_refl _

namespace Goes

theorem trans (h : t.Goes look c c') (h' : t.Goes look c' c'') : t.Goes look c c'' := by
  induction h with
  | refl => exact h'
  | dot hlook _ ih => exact .dot hlook (ih h')
  | up hlook _ ih => exact .up hlook (ih h')
  | down hdot hup hlook hdir _ ih => exact .down hdot hup hlook hdir (ih h')
  | jump hdot hup hlook hlink _ ih => exact .jump hdot hup hlook hlink (ih h')

/-- A path goes the same way in every tree that holds the directories and the links of a tree. -/
theorem mono (ht : t.Holds t') (h : t.Goes look c c') : t'.Goes look c c' := by
  induction h with
  | refl => exact .refl _
  | dot hlook _ ih => exact .dot hlook ih
  | up hlook _ ih => exact .up hlook ih
  | down hdot hup hlook hdir _ ih => exact .down hdot hup hlook (ht.dir hdir) ih
  | jump hdot hup hlook hlink _ ih =>
    exact .jump hdot hup hlook (ht _ _ hlink (by simp [Node.kind])) ih

/-- A path goes the same way if names are looked up in another way that finds all that is there. -/
theorem relook {look' : Look} (hdots : ∀ here, (look here "." = none → look' here "." = none) ∧
      (look here ".." = none → look' here ".." = none))
    (hopen : ∀ here name n, t.get? (here ++ [name]) = some n → look here name = none →
      look' here name = none) (h : t.Goes look c c') : t.Goes look' c c' := by
  induction h with
  | refl => exact .refl _
  | dot hlook _ ih => exact .dot ((hdots _).1 hlook) ih
  | up hlook _ ih => exact .up ((hdots _).2 hlook) ih
  | down hdot hup hlook hdir _ ih => exact .down hdot hup (hopen _ _ _ hdir hlook) hdir ih
  | jump hdot hup hlook hlink _ ih => exact .jump hdot hup (hopen _ _ _ hlink hlook) hlink ih

theorem eq_of_names_nil (h : t.Goes look ⟨L, m, here, []⟩ c) : c = ⟨L, m, here, []⟩ := by
  cases h
  rfl

theorem cons_cases (h : t.Goes look ⟨L, m, here, name :: xs⟩ c) :
    c = ⟨L, m, here, name :: xs⟩ ∨ (name = "." ∧ t.Goes look ⟨L, m, here, xs⟩ c) ∨
      (name = ".." ∧ t.Goes look ⟨L, m, here.dropLast, xs⟩ c) ∨
      (name ≠ "." ∧ name ≠ ".." ∧ t.get? (here ++ [name]) = some .directory ∧
        t.Goes look ⟨L, m, here ++ [name], xs⟩ c) ∨
      (name ≠ "." ∧ name ≠ ".." ∧ ∃ L' target, L = L' + 1 ∧
        t.get? (here ++ [name]) = some (.link target) ∧
        t.Goes look ⟨L', m || xs.isEmpty && asksForDir target, startOf here target,
          Path.names target ++ xs⟩ c) := by
  cases h with
  | refl => exact .inl rfl
  | dot _ next => exact .inr (.inl ⟨rfl, next⟩)
  | up _ next => exact .inr (.inr (.inl ⟨rfl, next⟩))
  | down hdot hup _ hdir next => exact .inr (.inr (.inr (.inl ⟨hdot, hup, hdir, next⟩)))
  | jump hdot hup _ hlink next =>
    exact .inr (.inr (.inr (.inr ⟨hdot, hup, _, _, rfl, hlink, next⟩)))

/-- Of two spots to which a path goes, one is on the way to the other. -/
theorem linear (h : t.Goes look c c') (h' : t.Goes look c c'') :
    t.Goes look c' c'' ∨ t.Goes look c'' c' := by
  induction h with
  | refl => exact .inl h'
  | dot hlook next ih =>
    rcases h'.cons_cases with rfl | ⟨-, h'⟩ | ⟨hup, -⟩ | ⟨hdot, -⟩ | ⟨hdot, -⟩
    · exact .inr (.dot hlook next)
    · exact ih h'
    · exact absurd hup (by decide)
    all_goals exact absurd rfl hdot
  | up hlook next ih =>
    rcases h'.cons_cases with rfl | ⟨hdot, -⟩ | ⟨-, h'⟩ | ⟨-, hup, -⟩ | ⟨-, hup, -⟩
    · exact .inr (.up hlook next)
    · exact absurd hdot (by decide)
    · exact ih h'
    all_goals exact absurd rfl hup
  | down hdot hup hlook hdir next ih =>
    rcases h'.cons_cases with rfl | ⟨h, -⟩ | ⟨h, -⟩ | ⟨-, -, -, h'⟩ | ⟨-, -, _, _, -, hlink, -⟩
    · exact .inr (.down hdot hup hlook hdir next)
    · exact absurd h hdot
    · exact absurd h hup
    · exact ih h'
    · rw [hdir] at hlink
      cases hlink
  | jump hdot hup hlook hlink next ih =>
    rcases h'.cons_cases with rfl | ⟨h, -⟩ | ⟨h, -⟩ | ⟨-, -, hdir, -⟩ | ⟨-, -, _, _, hL, hlink', h'⟩
    · exact .inr (.jump hdot hup hlook hlink next)
    · exact absurd h hdot
    · exact absurd h hup
    · rw [hlink] at hdir
      cases hdir
    · rw [hlink] at hlink'
      cases hlink'
      cases hL
      exact ih h'

/-- Where a path goes in the end does not depend on how names are looked up. -/
theorem unique {look' : Look} {L' : Nat} {m' : Bool} {q : Place}
    (h : t.Goes look c ⟨L, m, p, []⟩) (h' : t.Goes look' c ⟨L', m', q, []⟩) : p = q := by
  have hfree : ∀ {look c'}, t.Goes look c c' → t.Goes (fun _ _ => none) c c' := fun h =>
    h.relook (fun _ => ⟨fun _ => rfl, fun _ => rfl⟩) fun _ _ _ _ _ => rfl
  rcases (hfree h).linear (hfree h') with hgo | hgo
  all_goals
    cases hgo
    rfl

/-- With more names behind it, a path goes the same way, whatever must be reached in the end. -/
theorem append (h : t.Goes look c c') (hys : ys ≠ []) (m : Bool) :
    t.Goes look ⟨c.links, m, c.here, c.names ++ ys⟩ ⟨c'.links, m, c'.here, c'.names ++ ys⟩ := by
  induction h with
  | refl => exact .refl _
  | dot hlook _ ih => exact .dot hlook ih
  | up hlook _ ih => exact .up hlook ih
  | down hdot hup hlook hdir _ ih => exact .down hdot hup hlook hdir ih
  | @jump L _ here name rest _ _ hdot hup hlook hlink _ ih =>
    have hmore : (rest ++ ys).isEmpty = false := by simp [hys]
    change t.Goes look ⟨L + 1, m, here, name :: (rest ++ ys)⟩ _
    refine .jump hdot hup hlook hlink ?_
    simpa only [hmore, Bool.false_and, Bool.or_false, List.append_assoc] using ih

/-- The way does not depend on what must be reached in the end. -/
theorem anyFlag (h : t.Goes look c c') (m : Bool) :
    ∃ m', t.Goes look ⟨c.links, m, c.here, c.names⟩ ⟨c'.links, m', c'.here, c'.names⟩ := by
  induction h generalizing m with
  | refl => exact ⟨m, .refl _⟩
  | dot hlook _ ih => exact (ih m).imp fun _ => .dot hlook
  | up hlook _ ih => exact (ih m).imp fun _ => .up hlook
  | down hdot hup hlook hdir _ ih => exact (ih m).imp fun _ => .down hdot hup hlook hdir
  | jump hdot hup hlook hlink _ ih => exact (ih _).imp fun _ => .jump hdot hup hlook hlink

/-- Where a directory must be reached, one must be reached all the way. -/
theorem mustBeDir (h : t.Goes look c c') (hc : c.mustBeDir = true) : c'.mustBeDir = true := by
  induction h with
  | refl => exact hc
  | dot _ _ ih | up _ _ ih | down _ _ _ _ _ ih => exact ih hc
  | @jump _ m _ _ rest _ target _ _ _ _ _ ih =>
    have hm : m = true := hc
    exact ih (by simp [hm])

/-- The first names of a path lead to a directory if the path gets past them. -/
theorem split (h : t.Goes look c c') (hc : c.names = xs ++ ys) (hpast : c'.names.length ≤ ys.length)
    (m : Bool) : ∃ L' m' d, t.Goes look ⟨c.links, m, c.here, xs⟩ ⟨L', m', d, []⟩ := by
  induction h generalizing xs m with
  | refl c =>
    have hlen := congrArg List.length hc
    rw [List.length_append] at hlen
    obtain rfl : xs = [] := List.eq_nil_of_length_eq_zero (by omega)
    exact ⟨_, _, _, .refl _⟩
  | dot hlook _ ih =>
    cases xs with
    | nil => exact ⟨_, _, _, .refl _⟩
    | cons x xs =>
      obtain ⟨rfl, hrest⟩ := List.cons_eq_cons.1 hc
      obtain ⟨L', m', d, h⟩ := ih hrest hpast m
      exact ⟨L', m', d, .dot hlook h⟩
  | up hlook _ ih =>
    cases xs with
    | nil => exact ⟨_, _, _, .refl _⟩
    | cons x xs =>
      obtain ⟨rfl, hrest⟩ := List.cons_eq_cons.1 hc
      obtain ⟨L', m', d, h⟩ := ih hrest hpast m
      exact ⟨L', m', d, .up hlook h⟩
  | down hdot hup hlook hdir _ ih =>
    cases xs with
    | nil => exact ⟨_, _, _, .refl _⟩
    | cons x xs =>
      obtain ⟨rfl, hrest⟩ := List.cons_eq_cons.1 hc
      obtain ⟨L', m', d, h⟩ := ih hrest hpast m
      exact ⟨L', m', d, .down hdot hup hlook hdir h⟩
  | @jump _ _ _ _ rest _ target hdot hup hlook hlink _ ih =>
    cases xs with
    | nil => exact ⟨_, _, _, .refl _⟩
    | cons x xs =>
      obtain ⟨rfl, hrest⟩ := List.cons_eq_cons.1 hc
      have hmore : Path.names target ++ rest = (Path.names target ++ xs) ++ ys := by
        rw [show rest = xs ++ ys from hrest, List.append_assoc]
      obtain ⟨L', m', d, h⟩ := ih hmore hpast _
      exact ⟨L', m', d, .jump hdot hup hlook hlink h⟩

/-- Where a path stands on its way is a directory, if it starts in one. -/
theorem standing (hs : t.Sound) (h : t.Goes look c c') (hc : t.get? c.here = some .directory) :
    t.get? c'.here = some .directory := by
  induction h with
  | refl => exact hc
  | dot _ _ ih => exact ih hc
  | up _ _ ih => exact ih (hs.dropLast hc)
  | down _ _ _ hdir _ ih => exact ih hdir
  | @jump _ _ here _ _ _ target _ _ _ _ _ ih =>
    refine ih ?_
    simp only [startOf]
    split
    · rfl
    · exact hc

theorem isSegment (hs : t.Sound) (h : t.Goes look c c') (hc : ∀ x ∈ c.names, Path.IsSegment x) :
    ∀ x ∈ c'.names, Path.IsSegment x := by
  induction h with
  | refl => exact hc
  | dot _ _ ih => exact ih fun x hx => hc x (List.mem_cons_of_mem _ hx)
  | up _ _ ih => exact ih fun x hx => hc x (List.mem_cons_of_mem _ hx)
  | down _ _ _ _ _ ih => exact ih fun x hx => hc x (List.mem_cons_of_mem _ hx)
  | jump _ _ _ hlink _ ih =>
    refine ih fun x hx => ?_
    rcases List.mem_append.1 hx with hx | hx
    · exact Path.isSegment_of_mem_names (hs.clean_of_get? hlink) hx
    · exact hc x (List.mem_cons_of_mem _ hx)

/-- Where there are no links, plain names lead down. -/
theorem plain (hlink : ∀ p target, d <+: p → t.get? p ≠ some (.link target)) (h : t.Goes look c c')
    (hd : d <+: c.here) (hplain : ∀ x ∈ c.names, x ≠ "..") :
    ∃ us vs, c.names = us ++ c'.names ∧ c'.here = c.here ++ vs ∧
      ((∀ x ∈ us, x ≠ ".") → vs = us) := by
  induction h with
  | refl => exact ⟨[], [], by simp⟩
  | dot _ _ ih =>
    obtain ⟨us, vs, hn, hh, -⟩ := ih hd fun x hx => hplain x (List.mem_cons_of_mem _ hx)
    exact ⟨"." :: us, vs, by simpa using hn, hh, fun h => absurd rfl (h "." (by simp))⟩
  | up => exact absurd rfl (hplain ".." (by simp))
  | @down _ _ here name _ _ _ _ _ _ _ ih =>
    obtain ⟨us, vs, hn, hh, he⟩ := ih (hd.trans (List.prefix_append _ _))
      fun x hx => hplain x (List.mem_cons_of_mem _ hx)
    refine ⟨name :: us, name :: vs, by simpa using hn, by simpa using hh, fun h => ?_⟩
    rw [he fun x hx => h x (List.mem_cons_of_mem _ hx)]
  | jump _ _ _ hl => exact absurd hl (hlink _ _ (hd.trans (List.prefix_append _ _)))

/-- Names lead down to a directory that stands where they say. -/
theorem through (hs : t.Sound) (hadmits : look.Admits p xs)
    (h : t.get? (p ++ xs) = some .directory) (L : Nat) (m : Bool) (ys : List String) :
    t.Goes look ⟨L, m, p, xs ++ ys⟩ ⟨L, m, p ++ xs, ys⟩ := by
  induction xs generalizing p with
  | nil => simpa using Goes.refl _
  | cons x xs ih =>
    rw [List.append_cons] at h
    have hx : t.get? (p ++ [x]) = some .directory := by
      by_cases hxs : xs = []
      · simpa [hxs] using h
      · exact hs.above hxs h
    have hplain : Path.IsPlain x := hs.isPlain hx (by simp)
    have hnext := ih hadmits.tail h
    rw [← List.append_cons] at hnext
    exact .down hplain.ne_dot hplain.ne_up hadmits.head hx hnext

/-- Names lead down to a directory or a file that stands where they say. -/
theorem exists_ends (hs : t.Sound) (hadmits : look.Admits p xs) (hp : t.get? p = some .directory)
    (hn : t.get? (p ++ xs) = some n) (hlink : n.kind ≠ .other) (L : Nat) :
    ∃ c, t.Goes look ⟨L, false, p, xs⟩ c ∧ t.Ends look true c (.node (p ++ xs) n) := by
  cases n with
  | link => exact absurd rfl hlink
  | directory =>
    have hgo := through hs hadmits hn L false []
    rw [List.append_nil] at hgo
    exact ⟨_, hgo, .here⟩
  | file b =>
    rcases List.eq_nil_or_concat xs with rfl | ⟨us, name, rfl⟩
    · rw [List.append_nil, hp] at hn
      cases hn
    · rw [List.concat_eq_append] at hadmits hn ⊢
      have hplain : Path.IsPlain name := hs.isPlain hn (by simp)
      have hlook : look (p ++ us) name = none := hadmits us name List.prefix_rfl
      rw [← List.append_assoc] at hn ⊢
      exact ⟨_, through hs (hadmits.above (List.prefix_append ..)) (hs.parent hn) L false _,
        .file hplain.ne_dot hplain.ne_up hlook hn⟩

/-- A path is followed to where it goes. -/
theorem follow (h : t.Goes look c c') :
    t.follow look true c.links c.mustBeDir c.here c.names =
      t.follow look true c'.links c'.mustBeDir c'.here c'.names := by
  induction h with
  | refl => rfl
  | dot hlook _ ih => exact (follow_dot hlook).trans ih
  | up hlook _ ih => exact (follow_up hlook).trans ih
  | down hdot hup hlook hdir _ ih => exact (follow_down hdot hup hlook hdir).trans ih
  | jump hdot hup hlook hlink _ ih =>
    exact (follow_jump hdot hup hlook hlink (.inl rfl)).trans ih

/-- On a way on which no slash asks for a directory, what is written to is where it goes. -/
theorem fill (h : t.Goes look c c') (hc' : c'.mustBeDir = false) :
    t.fill look c.links c.here c.names = t.fill look c'.links c'.here c'.names := by
  induction h with
  | refl => rfl
  | dot hlook _ ih =>
    rw [← ih hc', fill_eq, followBy_cons hlook, if_pos rfl]
  | up hlook _ ih =>
    rw [← ih hc', fill_eq, followBy_cons hlook, if_neg (by decide), if_pos rfl]
  | down hdot hup hlook hdir _ ih =>
    rw [← ih hc', fill_eq, followBy_cons hlook, if_neg hdot, if_neg hup]
    simp only [hdir]
  | @jump L m here name rest _ target hdot hup hlook hlink next ih =>
    have hm : (m || rest.isEmpty && asksForDir target) = false :=
      Bool.eq_false_iff.2 fun h => Bool.eq_false_iff.1 hc' (next.mustBeDir h)
    obtain ⟨-, hslash⟩ := Bool.or_eq_false_iff.1 hm
    rw [← ih hc', fill_eq, followBy_cons hlook, if_neg hdot, if_neg hup]
    simp only [hlink, Bool.false_eq_true, if_false, Bool.not_true, Bool.and_false,
      Bool.false_and, hslash, Bool.false_or]
    rfl

/-- With more names behind it, a path is followed to where it goes, whether a link at the end is
followed or not. -/
theorem follow_append (h : t.Goes look c c') (hys : ys ≠ []) (followLast m : Bool) :
    t.follow look followLast c.links m c.here (c.names ++ ys) =
      t.follow look followLast c'.links m c'.here (c'.names ++ ys) := by
  induction h with
  | refl => rfl
  | dot hlook _ ih => exact (follow_dot hlook).trans ih
  | up hlook _ ih => exact (follow_up hlook).trans ih
  | down hdot hup hlook hdir _ ih => exact (follow_down hdot hup hlook hdir).trans ih
  | @jump L _ here name rest _ _ hdot hup hlook hlink _ ih =>
    have hmore : (rest ++ ys).isEmpty = false := by simp [hys]
    change t.follow look followLast (L + 1) m here (name :: (rest ++ ys)) = _
    rw [follow_jump hdot hup hlook hlink (.inr (.inr (by simp [hys])))]
    simpa only [hmore, Bool.false_and, Bool.or_false, List.append_assoc] using ih

/-- A path that goes to a directory leads to something, also if a link at its end is not
followed. -/
theorem exists_node (h : t.Goes look c c') (hc : c'.names = []) (m : Bool) :
    ∃ p n, t.follow look false c.links m c.here c.names = .ok (.node p n) := by
  induction h generalizing m with
  | refl c => exact ⟨c.here, .directory, by rw [hc, follow_nil]⟩
  | dot hlook _ ih => exact (follow_dot hlook).symm ▸ ih hc m
  | up hlook _ ih => exact (follow_up hlook).symm ▸ ih hc m
  | down hdot hup hlook hdir _ ih => exact follow_down hdot hup hlook hdir ▸ ih hc m
  | @jump _ _ here name rest _ target hdot hup hlook hlink _ ih =>
    by_cases hgo : m = true ∨ rest ≠ []
    · rw [follow_jump hdot hup hlook hlink (.inr hgo)]
      exact ih hc _
    · obtain ⟨rfl, rfl⟩ : m = false ∧ rest = [] := by simpa using hgo
      refine ⟨here ++ [name], .link target, ?_⟩
      rw [follow_eq, followBy_cons hlook, if_neg hdot, if_neg hup]
      simp only [hlink]
      rfl

end Goes

theorem Ends.follow (h : t.Ends look true c r) :
    t.follow look true c.links c.mustBeDir c.here c.names = .ok r := by
  cases h with
  | here => exact follow_nil
  | vacant hdot hup hlook hnone =>
    rw [follow_eq, followBy_cons hlook, if_neg hdot, if_neg hup]
    simp [hnone]
  | file hdot hup hlook hfile =>
    rw [follow_eq, followBy_cons hlook, if_neg hdot, if_neg hup]
    simp [hfile]
  | link _ _ _ hlast => cases hlast

theorem Ends.fill (h : t.Ends look true c r) (hc : c.mustBeDir = false) :
    t.fill look c.links c.here c.names = .ok r := by
  cases h with
  | here => rw [fill_eq, followBy]
  | vacant hdot hup hlook hnone =>
    rw [fill_eq, followBy_cons hlook, if_neg hdot, if_neg hup]
    simp [hnone]
  | file hdot hup hlook hfile =>
    rw [fill_eq, followBy_cons hlook, if_neg hdot, if_neg hup]
    simp [hfile]
  | link _ _ _ hlast => cases hlast

/-! ### What a path leads to -/

/-- What a path leads to stands where it says. -/
theorem get?_of_follow (hs : t.Sound) (hhere : t.get? here = some .directory) {n : Node}
    (h : t.follow look followLast L m here xs = .ok (.node p n)) : t.get? p = some n := by
  obtain ⟨c, hgo, hend⟩ := exists_goes_of_follow h
  cases hend with
  | here => exact hgo.standing hs hhere
  | file _ _ _ hfile => exact hfile
  | link _ _ _ _ hlink => exact hlink

/-- Something can stand at a vacant place. -/
theorem vacant_of_follow (hs : t.Sound)
    (hsize : ∀ here name, look here name = none → name.utf8ByteSize ≤ maxName)
    (hhere : t.get? here = some .directory) (hxs : ∀ x ∈ xs, Path.IsSegment x)
    (h : t.follow look followLast L m here xs = .ok (.vacant p)) : t.Room p ∧ t.get? p = none := by
  obtain ⟨c, hgo, hend⟩ := exists_goes_of_follow h
  cases hend with
  | vacant hdot hup hlook hnone =>
    have hplain : Path.IsPlain _ := ⟨hgo.isSegment hs hxs _ List.mem_cons_self, hdot, hup⟩
    exact ⟨⟨_, _, rfl, hgo.standing hs hhere, hplain, hsize _ _ hlook⟩, hnone⟩

/-- A vacant place is in the directory to which all but the last name lead. -/
theorem vacant_split (hname : Path.IsPlain name)
    (h : t.follow look false L false here (xs ++ [name]) = .ok (.vacant p)) :
    ∃ L' m' r, t.Goes look ⟨L, false, here, xs⟩ ⟨L', m', r, []⟩ ∧ p = r ++ [name] := by
  obtain ⟨c, hgo, hend⟩ := exists_goes_of_follow h
  cases hend with
  | vacant =>
    obtain ⟨L', m', r, hxs⟩ :=
      hgo.split (show _ = xs ++ [name] from rfl) (Nat.le_refl 1) false
    refine ⟨L', m', r, hxs, ?_⟩
    rw [hxs.follow_append (List.cons_ne_nil name []) false false, List.nil_append, follow_eq] at h
    cases hlook : look r name with
    | some e =>
      rw [followBy, hlook] at h
      cases h
    | none =>
    rw [followBy_cons hlook, if_neg hname.ne_dot, if_neg hname.ne_up] at h
    split at h
    next => simp_all
    next => cases h
    next => simp at h
    next => simp at h

/-- What leads to a vacant place leads to a directory that is made there. -/
theorem goes_put (hp : p ≠ []) (h : t.follow look followLast L m here xs = .ok (.vacant p)) :
    ∃ L' m', (t.put p .directory).Goes look ⟨L, m, here, xs⟩ ⟨L', m', p, []⟩ := by
  obtain ⟨c, hgo, hend⟩ := exists_goes_of_follow h
  cases hend with
  | @vacant _ _ q name hdot hup hlook hnone =>
    have hdir := get?_put t (q ++ [name]) (q ++ [name]) .directory hp
    rw [if_pos rfl] at hdir
    have hmono := hgo.mono (Holds.of_within (Within.put (n := .directory) hp hnone))
    exact ⟨_, _, hmono.trans (.down hdot hup hlook hdir (.refl _))⟩

/-- In a part of a tree without links, a way of plain names leads where it says. -/
theorem follow_below (hs : t.Sound)
    (hlink : ∀ p target, d <+: p → t.get? p ≠ some (.link target))
    (hd : t.get? d = some .directory) (hplain : ∀ x ∈ xs, Path.IsPlain x)
    (h : t.follow look followLast L m d xs = .ok r) :
    (∃ n, r = .node (d ++ xs) n ∧ t.get? (d ++ xs) = some n) ∨
      (r = .vacant (d ++ xs) ∧ t.get? (d ++ xs) = none) := by
  obtain ⟨c, hgo, hend⟩ := exists_goes_of_follow h
  obtain ⟨us, vs, hn, hh, he⟩ := hgo.plain hlink List.prefix_rfl fun x hx => (hplain x hx).ne_up
  simp only at hn hh
  have hus : vs = us := he fun x hx => (hplain x (hn ▸ List.mem_append_left _ hx)).ne_dot
  subst hus
  cases hend with
  | here =>
    simp only [List.append_nil] at hn hh
    subst hn hh
    exact .inl ⟨_, rfl, hgo.standing hs hd⟩
  | vacant _ _ _ hnone =>
    simp only at hn hh
    subst hn hh
    exact .inr (by simpa using hnone)
  | file _ _ _ hfile =>
    simp only at hn hh
    subst hn hh
    rw [← List.append_assoc]
    exact .inl ⟨_, rfl, hfile⟩
  | link _ _ _ _ hl =>
    simp only at hn hh
    subst hn hh
    rw [← List.append_assoc]
    exact .inl ⟨_, rfl, hl⟩

/-! ### Dots -/

section

variable {q : Place} {n n' : Node} {m' : Bool} {zs : List String}

theorem follow_of_dot (h : t.follow look true L m here ("." :: xs) = .ok r) :
    t.follow look true L m here xs = .ok r := by
  cases hlook : look here "." with
  | none => rwa [follow_dot hlook] at h
  | some e =>
    rw [follow_eq, followBy, hlook] at h
    cases h

theorem follow_dots (hdots : xs.filter (· ≠ ".") = [])
    (h : t.follow look true L m here xs = .ok r) : r = .node here .directory := by
  induction xs with
  | nil => exact (Except.ok.inj (follow_nil.symm.trans h)).symm
  | cons x xs ih =>
    by_cases hx : x = "."
    · subst hx
      exact ih (by simpa using hdots) (follow_of_dot h)
    · simp [hx] at hdots

theorem exists_follow_of_filter (hxs : xs.filter (· ≠ ".") = name :: zs)
    (h : t.follow look true L m here xs = .ok r) : name ≠ "." ∧ ∃ ys, ys.filter (· ≠ ".") = zs ∧
      t.follow look true L m here (name :: ys) = .ok r := by
  induction xs with
  | nil => cases hxs
  | cons x xs ih =>
    by_cases hx : x = "."
    · subst hx
      exact ih (by simpa using hxs) (follow_of_dot h)
    · rw [List.filter_cons_of_pos (by simpa using hx)] at hxs
      obtain ⟨rfl, rfl⟩ := List.cons_eq_cons.1 hxs
      exact ⟨hx, xs, rfl, h⟩

theorem follow_cons_cases (hdot : name ≠ ".")
    (h : t.follow look true L m here (name :: xs) = .ok (.node p n)) :
    (name = ".." ∧ t.follow look true L m here.dropLast xs = .ok (.node p n)) ∨
      (name ≠ ".." ∧ t.get? (here ++ [name]) = some .directory ∧
        t.follow look true L m (here ++ [name]) xs = .ok (.node p n)) ∨
      (name ≠ ".." ∧ (∃ b, t.get? (here ++ [name]) = some (.file b)) ∧ p = here ++ [name]) ∨
      (name ≠ ".." ∧ ∃ L' m' target, L = L' + 1 ∧ t.get? (here ++ [name]) = some (.link target) ∧
        t.follow look true L' m' (startOf here target) (Path.names target ++ xs) =
          .ok (.node p n)) := by
  obtain ⟨c, hgo, hend⟩ := exists_goes_of_follow h
  rcases hgo.cons_cases with rfl | ⟨hdot', -⟩ | ⟨hup, hgo⟩ | ⟨-, hup, hdir, hgo⟩ |
    ⟨-, hup, L', target, rfl, hlink, hgo⟩
  · cases hend with
    | file _ hup _ hfile => exact .inr (.inr (.inl ⟨hup, ⟨_, hfile⟩, rfl⟩))
    | link _ _ _ hlast => cases hlast
  · exact absurd hdot' hdot
  · exact .inl ⟨hup, hgo.follow.trans hend.follow⟩
  · exact .inr (.inl ⟨hup, hdir, hgo.follow.trans hend.follow⟩)
  · exact .inr (.inr (.inr ⟨hup, L', _, target, rfl, hlink, hgo.follow.trans hend.follow⟩))

/-- Names that are the same but for dots lead to the same place, if both lead to something. -/
theorem follow_unique (heq : xs.filter (· ≠ ".") = ys.filter (· ≠ "."))
    (h : t.follow look true L m here xs = .ok (.node p n))
    (h' : t.follow look true L m' here ys = .ok (.node q n')) : p = q := by
  obtain ⟨zs, hzs⟩ : ∃ zs, xs.filter (· ≠ ".") = zs := ⟨_, rfl⟩
  rw [hzs] at heq
  induction L using Nat.strongRecOn generalizing m m' here xs ys zs with
  | _ L ihL =>
  induction zs generalizing here xs ys with
  | nil =>
    cases follow_dots hzs h
    cases follow_dots heq.symm h'
    rfl
  | cons z zs ih =>
    obtain ⟨hz, xs, hxs, h⟩ := exists_follow_of_filter hzs h
    obtain ⟨-, ys, hys, h'⟩ := exists_follow_of_filter heq.symm h'
    have hother := follow_cons_cases hz h'
    rcases follow_cons_cases hz h with ⟨hup, h⟩ | ⟨hup, hdir, h⟩ | ⟨hup, ⟨b, hfile⟩, rfl⟩ |
      ⟨hup, L₁, m₁, target, rfl, hlink, h⟩
    · have h' : t.follow look true L m' here.dropLast ys = .ok (.node q n') := by
        simpa [hup] using hother
      exact ih h h' hys.symm hxs
    · have h' : t.follow look true L m' (here ++ [z]) ys = .ok (.node q n') := by
        simpa [hup, hdir] using hother
      exact ih h h' hys.symm hxs
    · simpa [hup, hfile, eq_comm] using hother
    · obtain ⟨m₂, h'⟩ : ∃ m₂, t.follow look true L₁ m₂ (startOf here target)
          (Path.names target ++ ys) = .ok (.node q n') := by
        simpa [hup, hlink, eq_comm] using hother
      refine ihL L₁ (Nat.lt_succ_self L₁) h h' _ rfl ?_
      rw [List.filter_append, List.filter_append, hxs, hys]

end

end Tree

end Renaming
