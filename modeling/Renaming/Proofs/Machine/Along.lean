import Renaming.Proofs.Machine.Requests

/-!
The trees that a system passes through. `Machine.passed` lists those between two states, up to the
first command; `Along` builds the way from one state to another change by change, so that a property
of all trees on it can be proved where each change is made.
-/

namespace Renaming

/-- Whether a change is the start of a command. -/
def Change.isLaunch : Change → Bool
  | launch _ => true
  | _ => false

/-- The trees before each of some changes and after the last one, up to the first command. -/
def Tree.trail : Tree → List Change → List Tree
  | t, [] => [t]
  | t, c :: cs => t :: if c.isLaunch then [] else trail (c.apply t) cs

namespace Machine

variable {s x y : Machine} {J J' : Tree → Prop} {c : Change} {cs cs' : List Change} {t : Tree}

/-- The trees that a system passes through from one state to another, up to the first command. -/
def passed (s s' : Machine) : List Tree :=
  s.tree.trail (s'.changes.drop s.changes.length)

/-- From one state to another by changes, on which all trees have a property. No command is run. -/
inductive Along (J : Tree → Prop) (s : Machine) : Machine → Prop
  | refl (h : J s.tree) : Along J s s
  | later {x : Machine} (h : Along J s x) : Along J s x.later
  | perform {x : Machine} {c : Change} (h : Along J s x) (hc : c.isLaunch = false)
    (hj : J (c.apply x.tree)) : Along J s (x.perform c)

namespace Along

theorem last (h : Along J s x) : J x.tree := by
  induction h with
  | refl h => exact h
  | later _ ih => exact ih
  | perform _ _ hj _ => exact hj

theorem first (h : Along J s x) : J s.tree := by
  induction h with
  | refl h => exact h
  | later _ ih | perform _ _ _ ih => exact ih

theorem scene (h : Along J s x) : x.toScene = s.toScene := by
  induction h with
  | refl => rfl
  | later _ ih | perform _ _ _ ih => exact ih

theorem trans (h : Along J s x) (h' : Along J x y) : Along J s y := by
  induction h' with
  | refl => exact h
  | later _ ih => exact ih.later
  | perform _ hc hj ih => exact ih.perform hc hj

theorem mono (hJ : ∀ t, J t → J' t) (h : Along J s x) : Along J' s x := by
  induction h with
  | refl h => exact .refl (hJ _ h)
  | later _ ih => exact ih.later
  | perform _ hc hj ih => exact ih.perform hc (hJ _ hj)

end Along

theorem mem_trail_append (hcs : ∀ c ∈ cs, c.isLaunch = false) :
    t ∈ s.tree.trail (cs ++ cs') ↔
      t ∈ s.tree.trail cs ∨ t ∈ (cs.foldl (fun t c => c.apply t) s.tree).trail cs' := by
  generalize s.tree = t₀
  induction cs generalizing t₀ with
  | nil =>
    cases cs' <;> simp [Tree.trail]
  | cons c cs ih =>
    have hc := hcs c List.mem_cons_self
    simp [Tree.trail, hc, ih (fun c hc => hcs c (List.mem_cons_of_mem _ hc)), or_assoc]

theorem Along.exists_changes (h : Along J s x) : ∃ cs, x.changes = s.changes ++ cs ∧
    (∀ c ∈ cs, c.isLaunch = false) ∧ x.tree = cs.foldl (fun t c => c.apply t) s.tree ∧
      ∀ t ∈ s.tree.trail cs, J t := by
  induction h with
  | refl h => exact ⟨[], by simp, by simp, rfl, by simpa [Tree.trail] using h⟩
  | later _ ih => exact ih
  | @perform x c hx hc hj ih =>
    obtain ⟨cs, hchanges, hcs, htree, htrail⟩ := ih
    refine ⟨cs ++ [c], by simp [hchanges], ?_, by simp [htree], fun t ht => ?_⟩
    · intro c' hc'
      rcases List.mem_append.1 hc' with hc' | hc'
      · exact hcs c' hc'
      · rwa [List.mem_singleton.1 hc']
    · rcases (mem_trail_append hcs).1 ht with ht | ht
      · exact htrail t ht
      · simp only [Tree.trail, hc, Bool.false_eq_true, if_false, List.mem_cons, List.not_mem_nil,
          or_false] at ht
        rcases ht with rfl | rfl
        · exact htree ▸ hx.last
        · exact htree ▸ hj

/-- All trees that are passed have the property. -/
theorem Along.passed (h : Along J s x) : ∀ t ∈ s.passed x, J t := by
  obtain ⟨cs, hchanges, -, -, htrail⟩ := h.exists_changes
  simpa [Machine.passed, hchanges] using htrail

/-- Behind the start of a command no tree is passed any more. -/
theorem Along.passed_launch (h : Along J s x) {command : List String}
    (hy : y.changes = x.changes ++ .launch command :: cs) : ∀ t ∈ s.passed y, J t := by
  obtain ⟨cs', hchanges, hcs, htree, htrail⟩ := h.exists_changes
  intro t ht
  rw [Machine.passed, hy, hchanges, List.append_assoc, List.drop_left, mem_trail_append hcs] at ht
  rcases ht with ht | ht
  · exact htrail t ht
  · simp only [Tree.trail, Change.isLaunch, if_true, List.mem_singleton] at ht
    rw [ht, ← htree]
    exact h.last

/-- The start of a command is the first change that it brings. -/
theorem launch_changes {c : Check} {r : Except SystemError Ending} (h : s.launch c = (r, x)) :
    x = s ∨ ∃ command cs, x.changes = s.changes ++ .launch command :: cs := by
  unfold launch at h
  dsimp only at h
  repeat' split at h
  all_goals
    cases h
    first
    | exact .inl rfl
    | exact .inr ⟨_, _, rfl⟩

/-- A command leaves what is around the tree. -/
theorem toScene_launch {c : Check} {r : Except SystemError Ending} (h : s.launch c = (r, x)) :
    x.toScene = s.toScene := by
  unfold launch at h
  dsimp only at h
  repeat' split at h
  all_goals
    cases h
    rfl

end Machine

end Renaming
