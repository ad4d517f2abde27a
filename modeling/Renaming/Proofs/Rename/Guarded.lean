import Renaming.Proofs.Rename.Skipped
import Renaming.Proofs.Source.Bytes

/-!
Protected names as a filter. A renaming with protected names finds the same places with the same
rules as one without: it makes those edits whose old name is not protected, and lists the others as
skips: `rename_guarded`.

The verdicts on one fragment under all protected names go back to one rule (`verdict_cases`), so the
edits and the skips of both renamings can be compared fragment by fragment.
-/

namespace Renaming

open Renaming.Source

/-- The old name of the rule at a position. -/
def oldName (rules : List Rule) (i : Nat) : String := ((rules[i]?).map Rule.old).getD ""

/-- The skip that an edit of a source becomes when its old name is protected. Its line is told by
the line feeds among the bytes in front of the edit. -/
def skipOf (rules : List Rule) (source : String) (e : Edit) : Skip :=
  ⟨oldName rules e.rule, 1 + ((utf8 source.toList).take e.start).count 10⟩

/-! ### Line feeds among bytes -/

theorem count_utf8_singleton (c : Char) : (utf8 [c]).count 10 = feeds [c] := by
  by_cases hc : c.toNat < 0x80
  · have hbyte : UInt8.ofNat c.toNat = 10 ↔ c = '\n' := by
      constructor
      · intro h
        rw [← ofUInt8_ofNat hc, h]
        rfl
      · rintro rfl
        rfl
    rw [utf8_of_lt hc, feeds, List.count_singleton, List.count_singleton]
    simp only [beq_iff_eq, hbyte]
  · have hfeed : c ≠ '\n' := by
      rintro rfl
      exact hc (by decide)
    have hbyte : (10 : UInt8) ∉ utf8 [c] := by
      intro h
      have hle := le_of_mem_utf8 (by omega) h
      revert hle
      decide
    rw [List.count_eq_zero.2 hbyte, feeds_eq_zero]
    simpa using hfeed.symm

theorem count_utf8 (text : List Char) : (utf8 text).count 10 = feeds text := by
  induction text with
  | nil => rfl
  | cons c t ih =>
    rw [← List.singleton_append, utf8_append, List.count_append, count_utf8_singleton, ih,
      feeds_append]

section

variable {rules : List Rule} {guarded : List String} {f : Fragment}

/-! ### The verdicts on one fragment -/

theorem oldName_of_chosen {s : Site} {i : Nat} {r : Rule} (h : Chosen rules s i r) :
    oldName rules i = s.name := by
  rw [oldName, h.1.1]
  exact h.1.2.1

/-- A fragment is kept whatever names are protected, or it is a place with a rule, and then only
its own name matters. -/
theorem verdict_cases (rules : List Rule) (f : Fragment) :
    (∀ guarded, verdict rules guarded f = .keep) ∨
      ∃ s i r, f = .place s ∧ Chosen rules s i r ∧ ∀ guarded, verdict rules guarded f =
        if s.name ∈ guarded then .skip s else .rename r.new i := by
  cases f with
  | kept t => exact .inl fun _ => rfl
  | place s =>
    cases hs : select? rules s with
    | none =>
      left
      intro guarded
      simp only [verdict, hs]
    | some q =>
      obtain ⟨r, i⟩ := q
      refine .inr ⟨s, i, r, rfl, chosen_of_select? hs, ?_⟩
      intro guarded
      simp [verdict, hs]

theorem rule?_verdict_guarded (f : Fragment) : (verdict rules guarded f).rule? =
    (verdict rules [] f).rule?.filter fun i => oldName rules i ∉ guarded := by
  rcases verdict_cases rules f with h | ⟨s, i, r, -, hr, h⟩
  · rw [h, h]
    rfl
  · rw [h, h]
    by_cases hg : s.name ∈ guarded <;> simp [Verdict.rule?, Option.filter_some, oldName_of_chosen hr, hg]

theorem skipName?_verdict_guarded (f : Fragment) : (verdict rules guarded f).skipName? =
    ((verdict rules [] f).rule?.filter fun i => oldName rules i ∈ guarded).map (oldName rules) := by
  rcases verdict_cases rules f with h | ⟨s, i, r, -, hr, h⟩
  · rw [h, h]
    rfl
  · rw [h, h]
    by_cases hg : s.name ∈ guarded <;>
      simp [Verdict.rule?, Verdict.skipName?, Option.filter_some, oldName_of_chosen hr, hg]

/-! ### The edits and the skips -/

theorem editsFrom_guarded (pos : Nat) (fs : List Fragment) : editsFrom rules guarded pos fs =
    (editsFrom rules [] pos fs).filter fun e => oldName rules e.rule ∉ guarded := by
  induction fs generalizing pos with
  | nil => rfl
  | cons f fs ih =>
    rw [editsFrom, editsFrom, rule?_verdict_guarded, ih]
    cases (verdict rules [] f).rule? with
    | none => rfl
    | some i => by_cases hg : oldName rules i ∈ guarded <;> simp [Option.filter_some, hg]

/-- The skips among the fragments behind the text `front` are the edits with protected names. The
lines of the skips are counted from the start of `front`. -/
theorem skipsFrom_eq (front : List Char) (fs : List Fragment) {source : String}
    (h : source.toList = front ++ fs.flatMap Fragment.text) :
    skipsFrom rules guarded (1 + feeds front) fs =
      ((editsFrom rules [] (byteLength front) fs).filter fun e => oldName rules e.rule ∈ guarded).map
        (skipOf rules source) := by
  induction fs generalizing front with
  | nil => rfl
  | cons f fs ih =>
    have ih := ih (front ++ f.text) (by rw [h, List.flatMap_cons, List.append_assoc])
    rw [feeds_append, byteLength_append, ← Nat.add_assoc] at ih
    rw [skipsFrom, editsFrom, skipName?_verdict_guarded, ih]
    cases (verdict rules [] f).rule? with
    | none => rfl
    | some i =>
      have hline : skipOf rules source ⟨byteLength front, byteLength front + byteLength f.text, i⟩ =
          ⟨oldName rules i, 1 + feeds front⟩ := by
        rw [skipOf, h, take_utf8_append, count_utf8]
      by_cases hg : oldName rules i ∈ guarded <;> simp [Option.filter_some, hg, hline]

theorem editsOf_guarded (source : String) : editsOf rules guarded source =
    (editsOf rules [] source).filter fun e => oldName rules e.rule ∉ guarded :=
  editsFrom_guarded 0 _

theorem skipped_eq (source : String) : (rename rules guarded source).skipped =
    ((editsOf rules [] source).filter fun e => oldName rules e.rule ∈ guarded).map
      (skipOf rules source) := by
  rw [skipped_rename]
  exact skipsFrom_eq [] _ (flatMap_text_fragmentsOf source.toList).symm

theorem hits_guarded (source : String) {i : Nat} {r : Rule} (hr : rules[i]? = some r) :
    (rename rules guarded source).hits[i]? =
      if r.old ∈ guarded then some 0 else (rename rules [] source).hits[i]? := by
  have hi : i < rules.length := (List.getElem?_eq_some_iff.1 hr).1
  have hold : oldName rules i = r.old := by rw [oldName, hr]; rfl
  rw [(rewrites_editsOf rules guarded source).hits i hi, (rewrites_editsOf rules [] source).hits i hi,
    editsOf_guarded, List.countP_filter]
  split_ifs with hg
  · congr 1
    rw [List.countP_eq_zero]
    intro e _ he
    simp only [Bool.and_eq_true, beq_iff_eq, decide_eq_true_eq] at he
    obtain ⟨rfl, hnot⟩ := he
    rw [hold] at hnot
    exact hnot hg
  · congr 1
    apply List.countP_congr
    intro e _
    simp only [Bool.and_eq_true, beq_iff_eq, decide_eq_true_eq, and_iff_left_iff_imp]
    rintro rfl
    rwa [hold]

end

/-- **Protection only filters.** There are edits that the renaming without protected names consists
of, and under any protected names the renaming consists of those whose old name is not protected.
The others are its skips, in the order of the source and each with its line. So a rule whose old
name is not protected keeps its count, the others count nothing, and the places that are renamed and
those that are skipped are together as many as without protected names. -/
theorem rename_guarded (rules : List Rule) (source : String) :
    let bare := rename rules [] source
    ∃ found, Rewrites rules [] source bare found ∧ bare.skipped = [] ∧
      ∀ guarded : List String,
        let o := rename rules guarded source
        Rewrites rules guarded source o (found.filter fun e => oldName rules e.rule ∉ guarded) ∧
          o.skipped = (found.filter fun e => oldName rules e.rule ∈ guarded).map
            (skipOf rules source) ∧
          (∀ (i : Nat) (r : Rule), rules[i]? = some r →
            o.hits[i]? = if r.old ∈ guarded then some 0 else bare.hits[i]?) ∧
          o.occurrences + o.skipped.length = bare.occurrences := by
  intro bare
  refine ⟨editsOf rules [] source, rewrites_editsOf rules [] source, ?_, ?_⟩
  · simp [bare, skipped_eq]
  · intro guarded o
    have hrewrites := rewrites_editsOf rules guarded source
    rw [editsOf_guarded] at hrewrites
    have hskipped : o.skipped = _ := skipped_eq source
    refine ⟨hrewrites, hskipped, fun i r hr => hits_guarded source hr, ?_⟩
    rw [hskipped, List.length_map, hrewrites.occurrences,
      (rewrites_editsOf rules [] source).occurrences,
      List.length_eq_length_filter_add (l := editsOf rules [] source)
        fun e => decide (oldName rules e.rule ∉ guarded)]
    simp

end Renaming
