import Mathlib.Computability.RegularExpressions
import Renaming.Proofs.Rule.Conflict
import Renaming.Proofs.Source.Segment

/-!
Fit rules. `Rule.Fit` says what a rule must be, with the names of code given by the regular
expression `namePattern`.

* `isIdentifierName_iff_matches`: a name is an identifier when the pattern matches all of it.
* `Rule.unfit?_eq_none_iff_fit`: nothing makes a rule unfit when it is fit.
* `RuleSet.accepted_iff_fit`: lists of fit rules, and no others, make a rule set, which holds them as
  they are; of the unfit rules of a list the first one is reported.
-/

namespace Renaming

open Renaming.Source

/-! ### Names by a regular expression -/

/-- One of some characters. -/
def oneOf (cs : List Char) : RegularExpression Char := (cs.map RegularExpression.char).sum

/-- The ASCII letters with the underscore and the dollar. -/
def nameStarts : List Char := "ABCDEFGHIJKLMNOPQRSTUVWXYZabcdefghijklmnopqrstuvwxyz_$".toList

/-- The characters of names: those that a name may start with, and the digits. -/
def nameChars : List Char := nameStarts ++ "0123456789".toList

/-- The names of code: `[A-Za-z_$][A-Za-z0-9_$]*`. -/
def namePattern : RegularExpression Char := oneOf nameStarts * (oneOf nameChars).star

theorem mem_matches_oneOf {cs : List Char} {w : List Char} :
    w ∈ (oneOf cs).matches' ↔ ∃ c ∈ cs, w = [c] := by
  induction cs with
  | nil => simp [oneOf, Language.notMem_zero]
  | cons c cs ih =>
    have hchar : w ∈ (RegularExpression.char c).matches' ↔ w = [c] := Iff.rfl
    rw [oneOf, List.map_cons, List.sum_cons, RegularExpression.matches'_add, Language.mem_add,
      ← oneOf, ih, hchar]
    simp

theorem mem_matches_star_oneOf {cs w : List Char} :
    w ∈ (oneOf cs).star.matches' ↔ ∀ c ∈ w, c ∈ cs := by
  rw [RegularExpression.matches'_star, Language.mem_kstar]
  constructor
  · rintro ⟨ws, rfl, hws⟩ c hc
    obtain ⟨v, hv, hc⟩ := List.mem_flatten.1 hc
    obtain ⟨d, hd, rfl⟩ := mem_matches_oneOf.1 (hws v hv)
    rwa [List.mem_singleton.1 hc]
  · intro h
    refine ⟨w.map fun c => [c], by rw [← List.flatMap_def, List.flatMap_singleton'], ?_⟩
    intro v hv
    obtain ⟨c, hc, rfl⟩ := List.mem_map.1 hv
    exact mem_matches_oneOf.2 ⟨c, h c hc, rfl⟩

/-- A list of ASCII characters holds those of a class of ASCII characters when it does so below
0x80. -/
theorem mem_iff_of_ascii {cs : List Char} {p : Char → Bool}
    (hcs : ∀ n ∈ cs.map Char.toNat, n < 0x80)
    (hp : ∀ c : Char, 0x80 ≤ c.toNat → p c = false)
    (h : ∀ n, n < 0x80 → (Char.ofNat n ∈ cs ↔ p (Char.ofNat n) = true)) (c : Char) :
    c ∈ cs ↔ p c = true := by
  by_cases hc : c.toNat < 0x80
  · rw [← Char.ofNat_toNat c]
    exact h c.toNat hc
  · have hnot : c ∉ cs := fun hmem => hc (hcs _ (List.mem_map_of_mem hmem))
    simp [hnot, hp c (by omega)]

theorem mem_nameStarts_iff (c : Char) : c ∈ nameStarts ↔ startsName c = true := by
  refine mem_iff_of_ascii (by decide +kernel) (fun c hc => ?_) (by decide +kernel) c
  rw [startsName, Segment.isIdentifier_of_le hc, Bool.false_and]

theorem mem_nameChars_iff (c : Char) : c ∈ nameChars ↔ isIdentifier c = true :=
  mem_iff_of_ascii (by decide +kernel) (fun _ hc => Segment.isIdentifier_of_le hc)
    (by decide +kernel) c

/-- A name is an identifier when the pattern matches all of it. -/
theorem isIdentifierName_iff_matches {name : String} :
    isIdentifierName name = true ↔ name.toList ∈ namePattern.matches' := by
  rw [isName_iff, namePattern, RegularExpression.matches'_mul, Language.mem_mul]
  constructor
  · rintro ⟨⟨c, t, hw, hc⟩, hall⟩
    rw [hw] at hall ⊢
    refine ⟨[c], mem_matches_oneOf.2 ⟨c, (mem_nameStarts_iff c).2 hc, rfl⟩, t, ?_, rfl⟩
    exact mem_matches_star_oneOf.2 fun d hd =>
      (mem_nameChars_iff d).2 (hall d (List.mem_cons_of_mem _ hd))
  · rintro ⟨u, hu, t, ht, hw⟩
    obtain ⟨c, hc, rfl⟩ := mem_matches_oneOf.1 hu
    have hstart := (mem_nameStarts_iff c).1 hc
    rw [← hw]
    refine ⟨⟨c, t, rfl, hstart⟩, List.forall_mem_cons.2 ⟨isIdentifier_of_startsName hstart, ?_⟩⟩
    exact fun d hd => (mem_nameChars_iff d).1 (mem_matches_star_oneOf.1 ht d hd)

/-! ### Fit rules -/

/-- A rule that may be applied: it gives a name another one, and both can stand where it renames,
as names of code or between quotes of any kind. -/
structure Rule.Fit (r : Rule) : Prop where
  old_ne_empty : r.old ≠ ""
  new_ne_empty : r.new ≠ ""
  old_ne_new : r.old ≠ r.new
  names : r.scope ≠ .stringLiteral →
    r.old.toList ∈ namePattern.matches' ∧ r.new.toList ∈ namePattern.matches'
  texts : r.scope = .stringLiteral →
    ∀ c ∈ ['\'', '"', '\x60', '\\', '\r', '\n'], c ∉ r.old.toList ∧ c ∉ r.new.toList

theorem isPlainText_iff {name : String} : isPlainText name = true ↔
    ∀ c ∈ ['\'', '"', '\x60', '\\', '\r', '\n'], c ∉ name.toList := by
  have hsame : ∀ c, c ∈ "'\"\x60\\\n\r".toList ↔ c ∈ ['\'', '"', '\x60', '\\', '\r', '\n'] := by
    intro c
    simp [or_left_comm, or_comm]
  rw [isPlainText, List.all_eq_true]
  constructor
  · intro h c hc hmem
    have := h c hmem
    rw [Bool.not_eq_true', List.contains_eq_mem, decide_eq_false_iff_not, hsame] at this
    exact this hc
  · intro h c hmem
    rw [Bool.not_eq_true', List.contains_eq_mem, decide_eq_false_iff_not, hsame]
    exact fun hc => h c hc hmem

theorem Scope.unfit?_eq_none_iff {scope : Scope} {name : String} : scope.unfit? name = none ↔
    (scope ≠ .stringLiteral → name.toList ∈ namePattern.matches') ∧
      (scope = .stringLiteral →
        ∀ c ∈ ['\'', '"', '\x60', '\\', '\r', '\n'], c ∉ name.toList) := by
  rw [← isIdentifierName_iff_matches, ← isPlainText_iff]
  cases scope <;> simp [Scope.unfit?]

theorem Rule.unfit?_eq_none_iff_fit {r : Rule} : r.unfit? = none ↔ r.Fit := by
  rw [Rule.unfit?_eq_none_iff, Scope.unfit?_eq_none_iff, Scope.unfit?_eq_none_iff]
  constructor
  · rintro ⟨⟨hold, hnew⟩, hne, ⟨hn, ht⟩, ⟨hn', ht'⟩⟩
    exact ⟨hold, hnew, hne, fun hs => ⟨hn hs, hn' hs⟩,
      fun hs c hc => ⟨ht hs c hc, ht' hs c hc⟩⟩
  · intro h
    exact ⟨⟨h.old_ne_empty, h.new_ne_empty⟩, h.old_ne_new,
      ⟨fun hs => (h.names hs).1, fun hs c hc => (h.texts hs c hc).1⟩,
      ⟨fun hs => (h.names hs).2, fun hs c hc => (h.texts hs c hc).2⟩⟩

/-- A line feed behind a name is part of it. -/
example : ¬ Rule.Fit ⟨"userId", "user_id\n", .identifier⟩ := by
  rw [← Rule.unfit?_eq_none_iff_fit]
  decide

namespace RuleSet

/-! ### The first unfit rule -/

/-- A failure tells the first unfit rule of the list. -/
theorem exists_unfit_of_ofRules {rules : List Rule} {extra : List String} {f : Failure}
    (h : ofRules rules extra = .error f) : ∃ i r u, rules[i]? = some r ∧ r.unfit? = some u ∧
      (∀ (j : Nat) (r' : Rule), j < i → rules[j]? = some r' → r'.unfit? = none) ∧
      f = (Cause.badValue (ruleKey i) (some r.label) u.message : Cause) := by
  rw [ofRules] at h
  split at h
  next r i u hfind =>
    obtain ⟨before, ⟨r', i'⟩, after, heq, hunfit, hbefore⟩ := List.findSome?_eq_some_iff.1 hfind
    obtain ⟨u', hu', hsame⟩ := Option.map_eq_some_iff.1 hunfit
    simp only [Prod.mk.injEq] at hsame
    obtain ⟨rfl, rfl, rfl⟩ := hsame
    have hplace : (r', i') ∈ rules.zipIdx := by simp [heq]
    have hi := List.mem_zipIdx_iff_getElem?.1 hplace
    -- the rule stands behind as many rules as its position says
    have hlength : before.length = i' := by
      have hat : rules.zipIdx[before.length]? = some (r', i') := by
        rw [heq, List.getElem?_append_right (Nat.le_refl _), Nat.sub_self]
        rfl
      rw [List.getElem?_zipIdx, Option.map_eq_some_iff] at hat
      obtain ⟨_, -, hpair⟩ := hat
      have := congrArg Prod.snd hpair
      omega
    refine ⟨i', r', u', hi, hu', fun j r hj hr => ?_, (Except.error.inj h).symm⟩
    have hmem : (r, j) ∈ before := by
      have hat : rules.zipIdx[j]? = some (r, j) := by simp [List.getElem?_zipIdx, hr]
      rw [heq, List.getElem?_append_left (by omega)] at hat
      exact List.mem_of_getElem? hat
    simpa using hbefore _ hmem
  · cases h

/-- **Lists of fit rules make a rule set**, and no others do. It holds the rules as they are and in
their order, and its protected names are the built-in ones and the given ones. For any other list
the failure names the first rule that is not fit. -/
theorem accepted_iff_fit (rules : List Rule) (extra : List String) :
    ((∃ set, ofRules rules extra = .ok set) ↔ ∀ r ∈ rules, r.Fit) ∧
    (∀ set, ofRules rules extra = .ok set → set.rules = rules ∧
      ∀ name, name ∈ set.guarded ↔ name ∈ builtinNames ∨ name ∈ extra) ∧
    ∀ f, ofRules rules extra = .error f → ∃ (i : Nat) (r : Rule), rules[i]? = some r ∧ ¬ r.Fit ∧
      (∀ (j : Nat) (r' : Rule), j < i → rules[j]? = some r' → r'.Fit) ∧
      f.cause.code = "config.invalid_value" ∧
      f.cause.details.get? "key" = some (.str ("rules[" ++ toString i ++ "]")) := by
  refine ⟨?_, ?_, ?_⟩
  · simp only [ofRules_eq_ok_iff, Rule.unfit?_eq_none_iff_fit]
    exact ⟨fun ⟨_, h, _⟩ => h, fun h => ⟨_, h, rfl⟩⟩
  · intro set hset
    obtain ⟨-, rfl⟩ := ofRules_eq_ok_iff.1 hset
    exact ⟨rfl, fun name => List.mem_append⟩
  · intro f hf
    obtain ⟨i, r, u, hi, hu, hfirst, rfl⟩ := exists_unfit_of_ofRules hf
    refine ⟨i, r, hi, ?_, ?_, rfl, ?_⟩
    · rw [← Rule.unfit?_eq_none_iff_fit, hu]
      simp
    · intro j r' hj hr'
      exact Rule.unfit?_eq_none_iff_fit.1 (hfirst j r' hj hr')
    · simp [Cause.details, Json.get?, ruleKey]

end RuleSet

end Renaming
