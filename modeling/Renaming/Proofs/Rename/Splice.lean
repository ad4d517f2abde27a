import Mathlib.Algebra.BigOperators.Group.Finset.Basic
import Mathlib.Algebra.GroupWithZero.Nat
import Renaming.Proofs.Rule.Choice
import Renaming.Proofs.Source.Occurrence

/-!
Renaming as a list of edits. `Rewrites` says what a renaming is without its fragments: the bytes of
the result are those of the source with some ranges replaced, and the ranges are the places that
have a rule and an unprotected name. The main statement is `exists_rewrites`.

The edits of a renaming are `editsOf`; the bytes they leave alone are followed by the invariant of
`splice_editsFrom`, where `kept` is the text since the last edit.
-/

namespace Renaming

open Renaming.Source

/-! ### Bytes -/

/-- The bytes of a text in UTF-8. -/
def utf8 (text : List Char) : List UInt8 := text.flatMap String.utf8EncodeChar

@[simp] theorem utf8_nil : utf8 [] = [] := rfl

@[simp] theorem utf8_append (a b : List Char) : utf8 (a ++ b) = utf8 a ++ utf8 b := by
  simp [utf8]

theorem length_utf8 (text : List Char) : (utf8 text).length = byteLength text := by
  induction text with
  | nil => simp
  | cons c t ih =>
    rw [← List.singleton_append, utf8_append, List.length_append, ih, byteLength_append]
    simp [utf8, byteLength]

theorem take_utf8_append (a b : List Char) : (utf8 (a ++ b)).take (byteLength a) = utf8 a := by
  rw [utf8_append, ← length_utf8, List.take_left]

theorem drop_utf8_append (a b : List Char) : (utf8 (a ++ b)).drop (byteLength a) = utf8 b := by
  rw [utf8_append, ← length_utf8, List.drop_left]

theorem utf8_injective {a b : List Char} (h : utf8 a = utf8 b) : a = b := by
  have hbytes : List.utf8Encode a = List.utf8Encode b := congrArg List.toByteArray h
  rw [← String.ofList_inj]
  simp only [String.ofList, hbytes]

/-! ### Edits -/

/-- An edit: the bytes from `start` to `stop` of a source give way to the new name of a rule. -/
structure Edit where
  start : Nat
  stop : Nat
  /-- The position of the rule. -/
  rule : Nat
  deriving DecidableEq, Repr

/-- The new name of the rule at a position. -/
def newName (rules : List Rule) (i : Nat) : List Char :=
  ((rules[i]?).map fun r => r.new.toList).getD []

/-- The bytes of a source from the position `pos` on after some edits. -/
def splice (rules : List Rule) (pos : Nat) : List Edit → List UInt8 → List UInt8
  | [], bytes => bytes
  | e :: es, bytes =>
    bytes.take (e.start - pos) ++ utf8 (newName rules e.rule) ++
      splice rules e.stop es (bytes.drop (e.stop - pos))

/-- The edits are the simultaneous renaming of a source by rules, and the outcome is theirs. -/
structure Rewrites (rules : List Rule) (guarded : List String) (source : String) (o : Outcome)
    (edits : List Edit) : Prop where
  /-- The ranges are in order, and there is a byte between any two of them. -/
  ordered : edits.Pairwise fun e f => e.stop < f.start
  proper : ∀ e ∈ edits, e.start ≤ e.stop
  /-- The result is the source with each range replaced, and nothing else is touched. -/
  text : utf8 o.text.toList = splice rules 0 edits (utf8 source.toList)
  /-- The ranges are the unprotected places that a rule applies to, each with the first such. -/
  mem_iff : ∀ e, e ∈ edits ↔ ∃ site r, Occurs source.toList e.start e.stop site ∧
    site.name ∉ guarded ∧ Chosen rules site e.rule r
  /-- What stands in a range is the old name of its rule. -/
  name : ∀ e ∈ edits, ∃ r, rules[e.rule]? = some r ∧
    ((utf8 source.toList).drop e.start).take (e.stop - e.start) = utf8 r.old.toList
  /-- No place that a rule applies to is missed, unless its name is protected. -/
  complete : ∀ start stop site, Occurs source.toList start stop site → site.name ∉ guarded →
    ∀ i r, Applies rules site i r → ∃ e ∈ edits, e.start = start ∧ e.stop = stop
  occurrences : o.occurrences = edits.length
  length_hits : o.hits.length = rules.length
  hits : ∀ i < rules.length, o.hits[i]? = some (edits.countP (·.rule == i))
  sum_hits : o.hits.sum = o.occurrences

/-- The edits on fragments, the first of which starts at the position `pos`. -/
def editsFrom (rules : List Rule) (guarded : List String) (pos : Nat) : List Fragment → List Edit
  | [] => []
  | f :: fs =>
    let stop := pos + byteLength f.text
    match (verdict rules guarded f).rule? with
    | some i => ⟨pos, stop, i⟩ :: editsFrom rules guarded stop fs
    | none => editsFrom rules guarded stop fs

/-- The edits of a renaming. -/
def editsOf (rules : List Rule) (guarded : List String) (source : String) : List Edit :=
  editsFrom rules guarded 0 (fragmentsOf source.toList)

section

variable {rules : List Rule} {guarded : List String}

/-! ### Verdicts -/

/-- The text of a fragment after its verdict. -/
def rendered (rules : List Rule) (guarded : List String) (f : Fragment) : List Char :=
  (verdict rules guarded f).render f

theorem text_rename (source : String) : (rename rules guarded source).text.toList =
    (fragmentsOf source.toList).flatMap (rendered rules guarded) := by
  simp only [rename, List.flatMap_map, String.toList_ofList]
  rfl

theorem rule?_verdict_iff {f : Fragment} {i : Nat} :
    (verdict rules guarded f).rule? = some i ↔
      ∃ site r, f = .place site ∧ site.name ∉ guarded ∧ Chosen rules site i r := by
  cases f with
  | kept t => simp [verdict, Verdict.rule?]
  | place site =>
    simp only [verdict, Fragment.place.injEq]
    cases hs : select? rules site with
    | none =>
      simp only [Verdict.rule?, reduceCtorEq, false_iff]
      rintro ⟨site', r, rfl, -, hr⟩
      rw [select?_eq_some_iff.2 hr] at hs
      cases hs
    | some q =>
      obtain ⟨r, j⟩ := q
      have hr := select?_eq_some_iff.1 hs
      by_cases hg : site.name ∈ guarded
      · simp only [List.contains_eq_mem, hg, decide_true, if_true, Verdict.rule?, reduceCtorEq,
          false_iff]
        rintro ⟨site', r', rfl, hg', -⟩
        exact hg' hg
      · simp only [List.contains_eq_mem, hg, decide_false, Bool.false_eq_true, if_false,
          Verdict.rule?, Option.some.injEq]
        constructor
        · rintro rfl
          exact ⟨site, r, rfl, hg, hr⟩
        · rintro ⟨site', r', rfl, -, hr'⟩
          exact (hr.unique hr').1

theorem rendered_of_rule? {f : Fragment} {i : Nat}
    (h : (verdict rules guarded f).rule? = some i) :
    rendered rules guarded f = newName rules i := by
  obtain ⟨site, r, rfl, hg, hr⟩ := rule?_verdict_iff.1 h
  have hs := select?_eq_some_iff.2 hr
  simp [rendered, verdict, hs, hg, Verdict.render, newName, hr.1.1]

theorem rendered_of_rule?_eq_none {f : Fragment} (h : (verdict rules guarded f).rule? = none) :
    rendered rules guarded f = f.text := by
  unfold rendered
  cases hv : verdict rules guarded f with
  | keep => rfl
  | skip => rfl
  | rename new i => rw [hv] at h; cases h

/-! ### The edits of a renaming -/

theorem splice_editsFrom (pos : Nat) (kept : List Char) (fs : List Fragment) :
    splice rules pos (editsFrom rules guarded (pos + byteLength kept) fs)
        (utf8 (kept ++ fs.flatMap Fragment.text)) =
      utf8 (kept ++ fs.flatMap (rendered rules guarded)) := by
  induction fs generalizing pos kept with
  | nil => simp [editsFrom, splice]
  | cons f fs ih =>
    rw [editsFrom, List.flatMap_cons, List.flatMap_cons]
    cases hv : (verdict rules guarded f).rule? with
    | none =>
      have := ih pos (kept ++ f.text)
      rw [byteLength_append, ← Nat.add_assoc] at this
      rw [rendered_of_rule?_eq_none hv, ← List.append_assoc, ← List.append_assoc]
      exact this
    | some i =>
      have hdrop : pos + byteLength kept + byteLength f.text - pos =
          byteLength (kept ++ f.text) := by
        rw [byteLength_append]
        omega
      have := ih (pos + byteLength kept + byteLength f.text) []
      simp only [splice]
      rw [Nat.add_sub_cancel_left, take_utf8_append, hdrop, ← List.append_assoc kept,
        drop_utf8_append, rendered_of_rule? hv, utf8_append, utf8_append, List.append_assoc]
      simpa using this

theorem mem_editsFrom_iff {pos : Nat} {fs : List Fragment} {e : Edit} :
    e ∈ editsFrom rules guarded pos fs ↔ ∃ xs f ys, fs = xs ++ f :: ys ∧
      e.start = pos + byteLength (xs.flatMap Fragment.text) ∧
      e.stop = e.start + byteLength f.text ∧ (verdict rules guarded f).rule? = some e.rule := by
  induction fs generalizing pos with
  | nil => simp [editsFrom]
  | cons f fs ih =>
    have hrest : e ∈ editsFrom rules guarded (pos + byteLength f.text) fs ↔
        ∃ xs g ys, f :: fs = f :: xs ++ g :: ys ∧
          e.start = pos + byteLength ((f :: xs).flatMap Fragment.text) ∧
          e.stop = e.start + byteLength g.text ∧ (verdict rules guarded g).rule? = some e.rule := by
      rw [ih]
      simp [Nat.add_assoc]
    have hsplit : e ∈ editsFrom rules guarded pos (f :: fs) ↔
        (e.start = pos ∧ e.stop = pos + byteLength f.text ∧
          (verdict rules guarded f).rule? = some e.rule) ∨
        e ∈ editsFrom rules guarded (pos + byteLength f.text) fs := by
      rw [editsFrom]
      cases hv : (verdict rules guarded f).rule? with
      | none => simp
      | some i =>
        rw [List.mem_cons]
        refine or_congr_left ?_
        cases e
        simp [eq_comm]
    rw [hsplit, hrest]
    constructor
    · rintro (⟨h1, h2, h3⟩ | ⟨xs, g, ys, h1, h2, h3, h4⟩)
      · exact ⟨[], f, fs, rfl, by simp [h1], by rw [h1, h2], h3⟩
      · exact ⟨f :: xs, g, ys, h1, h2, h3, h4⟩
    · rintro ⟨xs, g, ys, h1, h2, h3, h4⟩
      rcases xs with _ | ⟨x, xs⟩
      · obtain ⟨rfl, rfl⟩ := List.cons.inj h1
        have h2' : e.start = pos := by simpa using h2
        exact .inl ⟨h2', by rw [h3, h2'], h4⟩
      · obtain ⟨rfl, -⟩ := List.cons.inj h1
        exact .inr ⟨xs, g, ys, h1, h2, h3, h4⟩

theorem map_rule_editsFrom (pos : Nat) (fs : List Fragment) :
    (editsFrom rules guarded pos fs).map Edit.rule =
      fs.filterMap fun f => (verdict rules guarded f).rule? := by
  induction fs generalizing pos with
  | nil => rfl
  | cons f fs ih =>
    rw [editsFrom, List.filterMap_cons]
    cases (verdict rules guarded f).rule? with
    | none => exact ih _
    | some i => exact congrArg (i :: ·) (ih _)

/-! ### Places are apart -/

/-- Behind each place some text is kept before the next one. -/
def Apart : List Fragment → Prop
  | [] => True
  | f :: fs => ((∃ site, f = .place site) → ∀ g ∈ fs.head?, ∃ t, t ≠ [] ∧ g = .kept t) ∧ Apart fs

theorem apart_append {fs gs : List Fragment} (hf : Apart fs) (hg : Apart gs)
    (h : ∀ f ∈ fs.getLast?, (∃ site, f = .place site) →
      ∀ g ∈ gs.head?, ∃ t, t ≠ [] ∧ g = .kept t) : Apart (fs ++ gs) := by
  induction fs with
  | nil => exact hg
  | cons f fs ih =>
    rcases fs with _ | ⟨f', fs⟩
    · exact ⟨fun hsite => h f rfl hsite, hg⟩
    · exact ⟨hf.1, ih hf.2 fun x hx => h x hx⟩

theorem apart_fragments (p : Piece) (before : List Mark) (after : List Char)
    (hne : p.text ≠ []) : Apart (p.fragments before after) := by
  unfold Piece.fragments
  split
  · split <;> simp [Apart]
  · split
    · simp [Apart, hne]
    · simp [Apart]

/-- What is not a word of the code starts with text that is kept. -/
theorem head?_fragments {p : Piece} (before : List Mark) (after : List Char) (hne : p.text ≠ [])
    (hw : p.isWord = false) : ∀ g ∈ (p.fragments before after).head?, ∃ t, t ≠ [] ∧ g = .kept t := by
  unfold Piece.fragments
  rw [if_neg (by simp [hw])]
  split
  · intro g hg
    exact ⟨_, by simpa using hne, (Option.some.inj hg).symm⟩
  · intro g hg
    exact ⟨_, hne, (Option.some.inj hg).symm⟩

theorem getLast?_fragments {p : Piece} {before : List Mark} {after : List Char}
    (hw : p.isWord = false) : ∀ f ∈ (p.fragments before after).getLast?, ∃ t, f = .kept t := by
  unfold Piece.fragments
  rw [if_neg (by simp [hw])]
  split <;> simp

theorem apart_placed {ps : List Piece} (h : WellCut ps) (before : List Mark) :
    Apart (placed before ps) := by
  induction h generalizing before with
  | nil => trivial
  | @word w ps hne hw hnext hcut ih =>
    rw [placed]
    refine apart_append (apart_fragments _ _ _ hne) (ih _) fun _ _ _ g hg => ?_
    rcases ps with _ | ⟨q, ps⟩
    · simp [placed] at hg
    · have hq : q.text ≠ [] := hcut.text_ne_nil q (List.mem_cons_self ..)
      have hqw : q.isWord = false := by
        obtain ⟨c, r, hc⟩ := List.exists_cons_of_ne_nil hq
        have := hnext c (by rw [textOf_cons, hc]; rfl)
        simp [Piece.isWord, hc, this]
      have hfne : q.fragments ((Piece.marks ⟨.code, w⟩).reverse ++ before) (textOf ps) ≠ [] := by
        intro h0
        have := flatMap_text_fragments_piece q ((Piece.marks ⟨.code, w⟩).reverse ++ before) (textOf ps)
        rw [h0] at this
        exact hq this.symm
      rw [placed, List.head?_append_of_ne_nil _ hfne] at hg
      exact head?_fragments _ _ hq hqw g hg
  | @mark c ps hc hcut ih =>
    rw [placed]
    refine apart_append (apart_fragments _ _ _ (by simp)) (ih _) fun f hf hsite => ?_
    obtain ⟨t, rfl⟩ := getLast?_fragments (by simp [Piece.isWord, hc]) f hf
    simp at hsite
  | @other p ps hk hne _ _ hcut ih =>
    rw [placed]
    refine apart_append (apart_fragments _ _ _ hne) (ih _) fun f hf hsite => ?_
    obtain ⟨t, rfl⟩ := getLast?_fragments (by simp [Piece.isWord, hk]) f hf
    simp at hsite

theorem le_start_of_mem {pos : Nat} {fs : List Fragment} {e : Edit}
    (h : e ∈ editsFrom rules guarded pos fs) : pos ≤ e.start ∧ e.start ≤ e.stop := by
  obtain ⟨xs, f, ys, -, h1, h2, -⟩ := mem_editsFrom_iff.1 h
  omega

theorem byteLength_pos {t : List Char} (h : t ≠ []) : 0 < byteLength t := by
  obtain ⟨c, r, rfl⟩ := List.exists_cons_of_ne_nil h
  rw [← List.singleton_append, byteLength_append]
  have := c.utf8Size_pos
  simp [byteLength]
  omega

theorem lt_start_of_mem {pos : Nat} {fs : List Fragment}
    (hfs : ∀ g ∈ fs.head?, ∃ t, t ≠ [] ∧ g = Fragment.kept t) {e : Edit}
    (h : e ∈ editsFrom rules guarded pos fs) : pos < e.start := by
  rcases fs with _ | ⟨g, fs⟩
  · simp [editsFrom] at h
  · obtain ⟨t, ht, rfl⟩ := hfs g rfl
    have hpos : 0 < byteLength (Fragment.kept t).text := byteLength_pos ht
    have h' : e ∈ editsFrom rules guarded (pos + byteLength (Fragment.kept t).text) fs := h
    have hle := (le_start_of_mem h').1
    omega

theorem pairwise_editsFrom {fs : List Fragment} (h : Apart fs) (pos : Nat) :
    (editsFrom rules guarded pos fs).Pairwise fun e f => e.stop < f.start := by
  induction fs generalizing pos with
  | nil => exact .nil
  | cons f fs ih =>
    rw [editsFrom]
    cases hv : (verdict rules guarded f).rule? with
    | none => exact ih h.2 _
    | some i =>
      obtain ⟨site, r, hf, -⟩ := rule?_verdict_iff.1 hv
      exact List.pairwise_cons.2 ⟨fun e he => lt_start_of_mem (h.1 ⟨site, hf⟩) he, ih h.2 _⟩

/-! ### Counting -/

theorem sum_count_range {n : Nat} {used : List Nat} (h : ∀ i ∈ used, i < n) :
    ((List.range n).map used.count).sum = used.length := by
  have := Multiset.sum_count_eq_card (s := Finset.range n) (m := (used : Multiset Nat))
    (by simpa using h)
  rw [Finset.sum_eq_multiset_sum, Finset.range_val, ← Multiset.coe_range] at this
  simpa using this

/-! ### The renaming is its edits -/

theorem mem_editsOf_iff {source : String} {e : Edit} : e ∈ editsOf rules guarded source ↔
    ∃ site r, Occurs source.toList e.start e.stop site ∧ site.name ∉ guarded ∧
      Chosen rules site e.rule r := by
  rw [editsOf, mem_editsFrom_iff]
  constructor
  · rintro ⟨xs, f, ys, hf, h1, h2, h3⟩
    obtain ⟨site, r, rfl, hg, hr⟩ := rule?_verdict_iff.1 h3
    exact ⟨site, r, occurs_iff.2 ⟨xs, ys, hf, by simpa using h1, h2⟩, hg, hr⟩
  · rintro ⟨site, r, hs, hg, hr⟩
    obtain ⟨xs, ys, hf, h1, h2⟩ := occurs_iff.1 hs
    exact ⟨xs, _, ys, hf, by simpa using h1, h2, rule?_verdict_iff.2 ⟨site, r, rfl, hg, hr⟩⟩

/-- The bytes of a place are its name. -/
theorem utf8_of_occurs {source : List Char} {start stop : Nat} {site : Site}
    (h : Occurs source start stop site) :
    ((utf8 source).drop start).take (stop - start) = utf8 site.name.toList := by
  obtain ⟨fs, gs, hf, rfl, rfl⟩ := occurs_iff.1 h
  have hs := flatMap_text_fragmentsOf source
  rw [hf, List.flatMap_append, List.flatMap_cons] at hs
  rw [← hs, drop_utf8_append, Nat.add_sub_cancel_left]
  exact take_utf8_append _ _

theorem map_rule_editsOf (source : String) : (editsOf rules guarded source).map Edit.rule =
    (fragmentsOf source.toList).filterMap fun f => (verdict rules guarded f).rule? :=
  map_rule_editsFrom 0 _

theorem hits_rename (source : String) : (rename rules guarded source).hits =
    (List.range rules.length).map ((editsOf rules guarded source).map Edit.rule).count := by
  rw [map_rule_editsOf]
  simp only [rename, List.filterMap_map]
  rfl

theorem occurrences_rename (source : String) :
    (rename rules guarded source).occurrences = (editsOf rules guarded source).length := by
  have h : ((editsOf rules guarded source).map Edit.rule).length = _ :=
    congrArg List.length (map_rule_editsOf source)
  rw [List.length_map] at h
  rw [h]
  simp only [rename, List.filterMap_map]
  rfl

theorem rewrites_editsOf (rules : List Rule) (guarded : List String) (source : String) :
    Rewrites rules guarded source (rename rules guarded source) (editsOf rules guarded source) where
  ordered := by
    rw [editsOf, fragmentsOf_eq_placed]
    exact pairwise_editsFrom (apart_placed (wellCut_tokens .start _) []) 0
  proper e he := (le_start_of_mem he).2
  text := by
    have h : splice rules 0 (editsOf rules guarded source) (utf8 ((fragmentsOf source.toList).flatMap
        Fragment.text)) = utf8 ((fragmentsOf source.toList).flatMap (rendered rules guarded)) :=
      splice_editsFrom 0 [] (fragmentsOf source.toList)
    rw [flatMap_text_fragmentsOf] at h
    rw [text_rename]
    exact h.symm
  mem_iff _ := mem_editsOf_iff
  name e he := by
    obtain ⟨site, r, hs, -, hr⟩ := mem_editsOf_iff.1 he
    exact ⟨r, hr.1.1, by rw [utf8_of_occurs hs, hr.1.2.1]⟩
  complete start stop site hs hg i r hr := by
    obtain ⟨r', j, hsel⟩ := exists_select? hr
    exact ⟨⟨start, stop, j⟩, mem_editsOf_iff.2 ⟨site, r', hs, hg, chosen_of_select? hsel⟩, rfl, rfl⟩
  occurrences := occurrences_rename source
  length_hits := by rw [hits_rename]; simp
  hits i hi := by
    rw [hits_rename]
    simp [hi, List.count, List.countP_map, Function.comp_def]
  sum_hits := by
    rw [hits_rename, occurrences_rename, sum_count_range, List.length_map]
    intro i hi
    obtain ⟨e, he, rfl⟩ := List.mem_map.1 hi
    obtain ⟨site, r, -, -, hr⟩ := mem_editsOf_iff.1 he
    exact (List.getElem?_eq_some_iff.1 hr.1.1).1

end

/-- **Renaming is the simultaneous rewrite of the source.** For every source, every list of rules
and all protected names there are edits that say what the renaming did. -/
theorem exists_rewrites (rules : List Rule) (guarded : List String) (source : String) :
    ∃ edits, Rewrites rules guarded source (rename rules guarded source) edits :=
  ⟨_, rewrites_editsOf rules guarded source⟩

end Renaming
