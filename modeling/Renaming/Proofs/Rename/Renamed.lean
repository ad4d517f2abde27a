import Renaming.Proofs.Rename.Splice
import Renaming.Proofs.Source.Faded
import Renaming.Proofs.Source.Reread

/-!
The tokens of a renamed source. A renaming gives each place a new name (`nameAfter`), and when the
rules are tame these names do not change how the source is read.

* `Rule.Tame`: what is asked of a rule for that.
* `tokensOf_rename`: the renamed text is read as the tokens of the source with their new names, of
  which regular expressions have taken letters.
* `exists_of_place_rename`: its places are those of the source, and what is left of names.
* `matches_rename`: when the old names start with letters, nothing is left of names, and the places
  are those of the source one by one.
* `Rule.tame_of_isLetterName`: a rule whose names start with letters is tame.
-/

namespace Renaming

open Renaming.Source

/-- The name of a place after a renaming. -/
def nameAfter (rules : List Rule) (guarded : List String) (site : Site) : String :=
  match verdict rules guarded (.place site) with
  | .rename new _ => new
  | _ => site.name

/-- What is asked of the names of a rule so that a renaming does not change how a source is read.
Names of keys and attributes stand in front of a mark and behind one, so they may be any names. -/
def Rule.Tame (L : Bool → Bool → Prop) (r : Rule) : Prop :=
  match r.scope with
  | .stringLiteral => KeepsFrame r.old.toList r.new.toList ∧
    (['$', '{'] <:+: r.new.toList → ['$', '{'] <:+: r.old.toList)
  | .identifier => (IsName r.old.toList ∧ IsName r.new.toList) ∧ Steady L r.old r.new
  | _ => IsName r.old.toList ∧ IsName r.new.toList

theorem exists_of_forall₂ {α β : Type} {R : α → β → Prop} {xs : List α} {ys : List β}
    (h : List.Forall₂ R xs ys) {y : β} (hy : y ∈ ys) : ∃ x, R x y := by
  induction h with
  | nil => simp at hy
  | @cons a _ _ _ h _ ih =>
    rcases List.mem_cons.1 hy with rfl | hy
    · exact ⟨a, h⟩
    · exact ih hy

theorem flatMap_eq_of_forall₂ {α β γ : Type} {f : α → List γ} {g : β → List γ} {xs : List α}
    {ys : List β} (h : List.Forall₂ (fun x y => f x = g y) xs ys) : xs.flatMap f = ys.flatMap g := by
  induction h with
  | nil => rfl
  | cons h _ ih => rw [List.flatMap_cons, List.flatMap_cons, h, ih]

section

variable {rules : List Rule} {guarded : List String} {L : Bool → Bool → Prop}

/-! ### The names after a renaming -/

theorem redraw_nameAfter (f : Fragment) :
    f.redraw (nameAfter rules guarded) = rendered rules guarded f := by
  cases f with
  | kept t => rfl
  | place site =>
    simp only [Fragment.redraw, nameAfter, rendered]
    cases verdict rules guarded (.place site) <;> rfl

/-- A place keeps its name, or it has an unprotected one and gets that of its rule. -/
theorem nameAfter_cases (site : Site) : nameAfter rules guarded site = site.name ∨
    ∃ i r, Chosen rules site i r ∧ site.name ∉ guarded ∧ nameAfter rules guarded site = r.new := by
  unfold nameAfter
  cases hv : verdict rules guarded (.place site) with
  | keep => exact .inl rfl
  | skip => exact .inl rfl
  | rename new i =>
    have hi : (verdict rules guarded (.place site)).rule? = some i := by rw [hv]; rfl
    obtain ⟨site', r, hs, hg, hr⟩ := rule?_verdict_iff.1 hi
    obtain rfl := Fragment.place.inj hs
    refine .inr ⟨i, r, hr, hg, ?_⟩
    have hsel := select?_eq_some_iff.2 hr
    simp only [verdict, hsel, List.contains_eq_mem, hg, decide_false, Bool.false_eq_true, if_false,
      Verdict.rename.injEq] at hv
    exact hv.1.symm

theorem nameAfter_of_chosen {site : Site} {i : Nat} {r : Rule} (h : Chosen rules site i r)
    (hg : site.name ∉ guarded) : nameAfter rules guarded site = r.new := by
  simp [nameAfter, verdict, select?_eq_some_iff.2 h, hg]

theorem text_rename_eq (source : String) : (rename rules guarded source).text.toList =
    textOf (redrawn (nameAfter rules guarded) [] (tokensOf source.toList)) := by
  rw [text_rename, textOf_redrawn, fragmentsOf_eq_placed]
  exact congrArg (List.flatMap · _) (funext fun f => (redraw_nameAfter f).symm)

/-! ### Tame rules -/

theorem not_infix_of_isIdentifier {w : List Char} (h : ∀ c ∈ w, isIdentifier c = true) :
    ¬ ['$', '{'] <:+: w := by
  intro hw
  have := h '{' (hw.subset (by simp))
  cases this

theorem Rule.Tame.allowed {r : Rule} (h : r.Tame L) {site : Site} (hname : r.old = site.name)
    (hadmits : r.scope.admits site = true) : Allowed L site r.new := by
  obtain ⟨old, new, scope⟩ := r
  simp only at hname hadmits
  subst hname
  cases scope with
  | identifier =>
    obtain ⟨⟨h1, h2⟩, hk⟩ := h
    exact .word hadmits h1 h2 (.inl hk)
  | jsxAttribute =>
    simp only [Scope.admits, Site.isAttribute, Bool.and_eq_true] at hadmits
    obtain ⟨hcode, ⟨ha, -⟩, -⟩ := hadmits
    exact .word hcode h.1 h.2 (.inr (separates_of_assignmentFollows ha))
  | objectKey =>
    simp only [Scope.admits, Site.isKey, Bool.and_eq_true] at hadmits
    cases hcode : site.inCode with
    | true =>
      exact .word hcode h.1 h.2 (.inr (separates_of_colonFollows hadmits.1))
    | false =>
      exact .content hcode (keepsFrame_of_isIdentifier h.1.isIdentifier h.2.isIdentifier)
        fun hopen => absurd hopen (not_infix_of_isIdentifier h.2.isIdentifier)
  | stringLiteral => exact .content (by simpa [Scope.admits] using hadmits) h.1 h.2

/-- Rules that are tame where they are used give all places names that they may get. -/
theorem safe_of_chosen
    (h : ∀ site i r, Chosen rules site i r → site.name ∉ guarded → r.Tame L) (before : List Mark)
    (ps : List Piece) : Safe (nameAfter rules guarded) L before ps := by
  intro site _
  rcases nameAfter_cases site with hs | ⟨i, r, hr, hg, hs⟩
  · rw [hs]
    exact .same
  · rw [hs]
    exact (h site i r hr hg).allowed hr.1.2.1 hr.1.2.2

theorem safe_nameAfter (h : ∀ r ∈ rules, r.old ∉ guarded → r.Tame L) (before : List Mark)
    (ps : List Piece) : Safe (nameAfter rules guarded) L before ps := by
  apply safe_of_chosen
  intro site i r hr hg
  exact h r (List.mem_of_getElem? hr.1.1) (by rwa [hr.1.2.1])

/-- **A renamed source** is read as the tokens of the source with their new names, of which regular
expressions have taken letters. -/
theorem tokensOf_rename (h : ∀ r ∈ rules, r.old ∉ guarded → r.Tame L) (source : String) :
    tokensOf (rename rules guarded source).text.toList =
      settle (redrawn (nameAfter rules guarded) [] (tokensOf source.toList)) := by
  rw [text_rename_eq]
  exact tokensOf_redrawn (safe_nameAfter h [] _)

/-- **The places of a renamed source** are those of the source with their new names, and what is
left of names. -/
theorem exists_of_place_rename (hL : Coherent L) (h : ∀ r ∈ rules, r.old ∉ guarded → r.Tame L)
    {source : String} {s : Site}
    (hs : .place s ∈ fragmentsOf (rename rules guarded source).text.toList) :
    (∃ s₀ s', Fragment.Matches L (nameAfter rules guarded) (.place s₀) (.place s') ∧ s.Agrees s') ∨
      LeftOver (nameAfter rules guarded) [] (tokensOf source.toList) s := by
  have hsafe := safe_nameAfter (L := L) h [] (tokensOf source.toList)
  rw [fragmentsOf_eq_placed, tokensOf_rename h] at hs
  refine (exists_of_placed_settle (wellCut_tokens .start _) hsafe hs).imp_left ?_
  rintro ⟨s', hs', hagrees⟩
  have hmatch := matches_placed hL hsafe (wellCut_tokens .start _) (.nil _) (seamed_nil _)
  obtain ⟨f, hf⟩ := exists_of_forall₂ hmatch hs'
  cases hf with
  | @place s₀ => exact ⟨s₀, s', .place ‹_› ‹_› ‹_› ‹_›, hagrees⟩

/-- When the old names start with letters, regular expressions take none. -/
theorem settle_nameAfter (h : ∀ r ∈ rules, r.old ∉ guarded → r.Tame L)
    (hletter : ∀ r ∈ rules, startsWithLetter r.old.toList = true) (source : String) :
    settle (redrawn (nameAfter rules guarded) [] (tokensOf source.toList)) =
      redrawn (nameAfter rules guarded) [] (tokensOf source.toList) := by
  refine settle_redrawn (wellCut_tokens .start _) (safe_nameAfter h [] _) fun site _ _ hs => ?_
  rcases nameAfter_cases site with hn | ⟨i, r, hr, -, -⟩
  · rwa [hn] at hs
  · rw [← hr.1.2.1]
    exact hletter r (List.mem_of_getElem? hr.1.1)

theorem matches_rename (hL : Coherent L) (h : ∀ r ∈ rules, r.old ∉ guarded → r.Tame L)
    (hletter : ∀ r ∈ rules, startsWithLetter r.old.toList = true) (source : String) :
    List.Forall₂ (Fragment.Matches L (nameAfter rules guarded)) (fragmentsOf source.toList)
      (fragmentsOf (rename rules guarded source).text.toList) := by
  rw [fragmentsOf_eq_placed, fragmentsOf_eq_placed, tokensOf_rename h, settle_nameAfter h hletter]
  exact matches_placed hL (safe_nameAfter h [] _) (wellCut_tokens .start _) (.nil _) (seamed_nil _)

end

/-! ### Names that start with a letter -/

/-- Whether a name is a letter and then letters, digits, underscores and dollars. -/
def isLetterName (name : String) : Bool :=
  match name.toList with
  | [] => false
  | c :: r => c.isAlpha && r.all isIdentifier

theorem startsName_of_isAlpha {c : Char} (h : c.isAlpha = true) : startsName c = true := by
  have hd : c.isDigit = false := by
    rw [Bool.eq_false_iff]
    intro hd
    simp only [Char.isDigit, Bool.and_eq_true, decide_eq_true_eq, UInt32.le_iff_toNat_le] at hd
    have hnine : c.toNat ≤ 57 := hd.2
    have := isAlpha_iff.1 h
    omega
  simp [startsName, isIdentifier, Char.isAlphanum, h, hd]

theorem isName_of_isLetterName {name : String} (h : isLetterName name = true) :
    IsName name.toList ∧ startsWithLetter name.toList = true := by
  unfold isLetterName at h
  cases ht : name.toList with
  | nil => simp [ht] at h
  | cons c r =>
    simp only [ht, Bool.and_eq_true] at h
    have hc := startsName_of_isAlpha h.1
    exact ⟨⟨⟨c, r, rfl, hc⟩, List.forall_mem_cons.2
      ⟨isIdentifier_of_startsName hc, List.all_eq_true.1 h.2⟩⟩, h.1⟩

/-- A rule whose names start with letters and say the same in front of a slash. -/
theorem Rule.tame_of_isLetterName {L : Bool → Bool → Prop} {r : Rule}
    (hold : isLetterName r.old = true) (hnew : isLetterName r.new = true)
    (hk : Steady L r.old r.new) : r.Tame L := by
  obtain ⟨ho, -⟩ := isName_of_isLetterName hold
  obtain ⟨hn, -⟩ := isName_of_isLetterName hnew
  unfold Rule.Tame
  cases r.scope with
  | identifier => exact ⟨⟨ho, hn⟩, hk⟩
  | jsxAttribute => exact ⟨ho, hn⟩
  | objectKey => exact ⟨ho, hn⟩
  | stringLiteral =>
    exact ⟨keepsFrame_of_isIdentifier ho.isIdentifier hn.isIdentifier,
      fun hopen => absurd hopen (not_infix_of_isIdentifier hn.isIdentifier)⟩

end Renaming
