import Renaming.Proofs.Checked.Words
import Renaming.Proofs.Rename.Guarded
import Renaming.Proofs.Source.Form

/-!
Renaming by positions has no fault. The text is put together along the fragments of the source:
`rebuild_eq` follows the text that is kept since the last replacement, and all stretches that are cut
out start and end between fragments. The lines of skips are found in the list of all line starts
(`lineAt_lineStarts`). So the outcome is that of the renaming: `rename_eq_ok`.
-/

namespace Renaming.Checked

open Renaming.Source
open Renaming.Source.Segment (encoded segmentsAt)

/-! ### Counts -/

/-- The counts after the rules at some positions have been used. -/
def raised (counts used : List Nat) : List Nat := counts.mapIdx fun i n => n + used.count i

@[simp] theorem raised_nil (counts : List Nat) : raised counts [] = counts := by
  refine List.ext_getElem? fun j => ?_
  simp [raised]

theorem raised_set {counts : List Nat} {i n : Nat} (h : counts[i]? = some n) (used : List Nat) :
    raised (counts.set i (n + 1)) used = raised counts (i :: used) := by
  refine List.ext_getElem? fun j => ?_
  simp only [raised, List.getElem?_mapIdx, List.getElem?_set, List.count_cons]
  by_cases hj : i = j
  · subst hj
    have hi := (List.getElem?_eq_some_iff.1 h).1
    rw [if_pos rfl, if_pos hi, h, Option.map_some, Option.map_some, beq_self_eq_true, if_pos rfl]
    congr 1
    omega
  · simp [hj]

theorem raised_replicate (n : Nat) (used : List Nat) :
    raised (List.replicate n 0) used = (List.range n).map used.count := by
  refine List.ext_getElem? fun j => ?_
  by_cases hj : j < n <;> simp [raised, hj]

theorem raise_eq {counts : List Nat} {i : Nat} (h : i < counts.length) :
    ∃ n, counts[i]? = some n ∧ raise counts i = .ok (counts.set i (n + 1)) := by
  refine ⟨_, List.getElem?_eq_getElem h, ?_⟩
  rw [raise, List.getElem?_eq_getElem h, item_some, ok_bind]

/-! ### The lines of a source -/

theorem countP_feeds_zipIdx (bytes : List UInt8) (k n : Nat) :
    (((bytes.zipIdx k).filter (·.1 == 10)).map (·.2 + 1)).countP (· ≤ k + n) =
      (bytes.take n).count 10 := by
  induction bytes generalizing k n with
  | nil => simp
  | cons b bytes ih =>
    cases n with
    | zero =>
      rw [List.take_zero, List.count_nil, List.countP_eq_zero]
      intro i hi
      obtain ⟨⟨c, j⟩, hj, rfl⟩ := List.mem_map.1 hi
      have := List.le_snd_of_mem_zipIdx (List.mem_of_mem_filter hj)
      simp only [decide_eq_true_eq]
      omega
    | succ n =>
      have ih := ih (k + 1) n
      rw [Nat.add_right_comm, Nat.add_assoc] at ih
      rw [List.zipIdx_cons, List.take_succ_cons, List.count_cons, ← ih]
      by_cases hb : b = 10
      · subst hb
        simp
      · simp [hb]

section

variable {rules : List Rule} {guarded : List String} {source : String}

/-- The line of a position is told by the line feeds in front of it. -/
theorem lineAt_lineStarts {front rest : List Char} (h : source.toList = front ++ rest) :
    lineAt (lineStarts source) (byteLength front) = 1 + feeds front := by
  have hcount := countP_feeds_zipIdx (utf8 source.toList) 0 (byteLength front)
  rw [h, take_utf8_append, count_utf8, ← h, Nat.zero_add] at hcount
  rw [lineAt, lineStarts, toUTF8_eq, encoded, List.countP_cons_of_pos (by simp), hcount,
    Nat.add_comm]

/-! ### Replacements and skips -/

theorem replacement?_acted (pos : Nat) (f : Fragment) :
    (acted rules guarded pos f).filterMap Action.replacement? =
      ((verdict rules guarded f).rule?.map (⟨pos, pos + byteLength f.text, ·⟩)).toList := by
  unfold acted
  cases verdict rules guarded f <;> rfl

theorem skip?_acted (starts : List Nat) (pos : Nat) (f : Fragment) :
    (acted rules guarded pos f).filterMap (Action.skip? starts) =
      ((verdict rules guarded f).skipName?.map (Skip.mk · (lineAt starts pos))).toList := by
  unfold acted
  cases verdict rules guarded f <;> rfl

/-- The skips have the lines of their places. -/
theorem skip?_actionsFrom (rules : List Rule) (guarded : List String) (front : List Char)
    (fs : List Fragment) (h : source.toList = front ++ fs.flatMap Fragment.text) :
    (actionsFrom rules guarded (byteLength front) fs).filterMap
        (Action.skip? (lineStarts source)) = skipsFrom rules guarded (1 + feeds front) fs := by
  induction fs generalizing front with
  | nil => rfl
  | cons f fs ih =>
    have ih := ih (front ++ f.text) (by rw [h, List.flatMap_cons, List.append_assoc])
    rw [byteLength_append, feeds_append, ← Nat.add_assoc] at ih
    rw [actionsFrom, skipsFrom, List.filterMap_append, ih, skip?_acted, lineAt_lineStarts h]

theorem length_replacement?_actionsFrom (pos : Nat) (fs : List Fragment) :
    ((actionsFrom rules guarded pos fs).filterMap Action.replacement?).length =
      (fs.filterMap fun f => (verdict rules guarded f).rule?).length := by
  induction fs generalizing pos with
  | nil => rfl
  | cons f fs ih =>
    rw [actionsFrom, List.filterMap_append, List.length_append, ih, replacement?_acted,
      List.filterMap_cons]
    cases (verdict rules guarded f).rule? with
    | none => exact Nat.zero_add _
    | some i => exact Nat.add_comm 1 _

/-- **The text is put together** from what lies between the replacements. The text `kept` stands
between the last replacement and the fragments. -/
theorem rebuild_eq (rules : List Rule) (guarded : List String) {counts : List Nat}
    (hcounts : counts.length = rules.length) (front kept : List Char) (fs : List Fragment)
    (h : source.toList = front ++ kept ++ fs.flatMap Fragment.text) :
    rebuild rules source (byteLength front) counts
        ((actionsFrom rules guarded (byteLength (front ++ kept)) fs).filterMap
          Action.replacement?) =
      .ok (String.ofList (kept ++ fs.flatMap (rendered rules guarded)),
        raised counts (fs.filterMap fun f => (verdict rules guarded f).rule?)) := by
  induction fs generalizing front kept counts with
  | nil =>
    rw [List.flatMap_nil] at h
    have htext := text_eq h
    rw [← List.append_nil (front ++ kept), ← h, Segment.byteLength_toList] at htext
    rw [actionsFrom, List.filterMap_nil, rebuild, htext, ok_bind]
    simp
  | cons f fs ih =>
    rw [List.flatMap_cons, ← List.append_assoc] at h
    rw [actionsFrom, List.filterMap_append, replacement?_acted, ← byteLength_append,
      List.flatMap_cons, List.filterMap_cons]
    cases hv : (verdict rules guarded f).rule? with
    | none =>
      rw [rendered_of_rule?_eq_none hv, ← List.append_assoc, List.append_assoc front]
      exact ih hcounts front (kept ++ f.text) (by rw [h, List.append_assoc front])
    | some i =>
      obtain ⟨site, r, -, -, hr⟩ := rule?_verdict_iff.1 hv
      have hi := (List.getElem?_eq_some_iff.1 hr.1.1).1
      have hi' : i < counts.length := by rwa [hcounts]
      obtain ⟨n, hn, hraise⟩ := raise_eq hi'
      have hlen : (counts.set i (n + 1)).length = rules.length := by rw [List.length_set, hcounts]
      have hrest := ih hlen
        (front ++ kept ++ f.text) [] (by rw [h, List.append_nil])
      have htext : source.toList = front ++ kept ++ (f.text ++ fs.flatMap Fragment.text) := by
        rw [h, List.append_assoc]
      rw [List.append_nil, List.nil_append, raised_set hn] at hrest
      rw [Option.map_some, Option.toList_some, List.singleton_append, rebuild, text_eq htext,
        ok_bind, ruleAt_of_getElem? hr.1.1, ok_bind, hraise, ok_bind, hrest, ok_bind,
        rendered_of_rule? hv, newName, hr.1.1]
      simp [String.ofList_append, String.append_assoc]

end

theorem marksOf_pieces (source : List Char) :
    marksOf (pieces source) = marksOf (tokensOf source) := by
  rw [pieces_eq_mergeAll]
  exact flatMap_mergeAll (f := fun k t => t.map (Mark.mk · (k = .code)))
    (fun _ _ => List.map_append) _

/-- What is done in a source is what the verdicts on its fragments say. -/
theorem mapM_actionsIn (rules : List Rule) (guarded : List String) (source : String) :
    ∃ ass, (segmentsOf source).mapM (actionsIn rules guarded source (encoded source.toList)
        (flagsOf (marksOf (pieces source.toList))) (indexed rules)) = .ok ass ∧
      ass.flatten = actionsFrom rules guarded 0 (fragmentsOf source.toList) := by
  have htext : source.toList = textOf (tokensOf source.toList) := (textOf_tokens _ _).symm
  have h := mapM_done htext rules guarded (List.nil_append _).symm
    (wellCut_tokens .start source.toList)
  rw [textOf_nil, byteLength_nil, ← pieces_eq_mergeAll, ← segmentsOf_eq,
    marksOf_nil, List.reverse_nil, ← fragmentsOf_eq_placed] at h
  rw [marksOf_pieces]
  exact h

/-- The text of a segment and its content are read without a fault. -/
theorem exists_text_content? {source : String} {s : Segment} (h : s ∈ segmentsOf source) :
    ∃ t c, text source s.start s.stop = .ok t ∧ content? source s = .ok c := by
  obtain ⟨kind, start, stop⟩ := s
  obtain ⟨xs, p, ys, -, rfl, a, htext, rfl, rfl⟩ := Segment.exists_piece h
  exact ⟨_, _, text_eq htext, content?_eq htext⟩

/-- **Renaming has no fault.** Whatever the source, the rules and the protected names are, no access
fails when the source is cut into segments, when the text or the content of one of them is read, and
when the source is renamed. The outcomes are those of the accesses that are not checked. -/
theorem rename_eq_ok (rules : List Rule) (guarded : List String) (source : String) :
    segments source = .ok (segmentsOf source) ∧
      (∀ s ∈ segmentsOf source,
        ∃ t c, text source s.start s.stop = .ok t ∧ content? source s = .ok c) ∧
      rename rules guarded source = .ok (Renaming.rename rules guarded source) := by
  refine ⟨segments_eq source, fun s hs => exists_text_content? hs, ?_⟩
  have htext : source.toList = (fragmentsOf source.toList).flatMap Fragment.text :=
    (flatMap_text_fragmentsOf source.toList).symm
  obtain ⟨ass, hass, hflat⟩ := mapM_actionsIn rules guarded source
  have hlen : (List.replicate rules.length 0).length = rules.length := List.length_replicate
  have hrebuild := rebuild_eq rules guarded hlen [] [] (fragmentsOf source.toList) htext
  have hskips := skip?_actionsFrom rules guarded [] _ htext
  simp only [List.nil_append, byteLength_nil, feeds_nil, Nat.add_zero] at hrebuild hskips
  rw [rename, toUTF8_eq, segments_eq]
  simp only [ok_bind, codeFlags_eq, index_eq, hass, hflat, hrebuild, hskips, raised_replicate,
    length_replacement?_actionsFrom]
  rw [← skipped_rename]
  simp only [Renaming.rename, List.filterMap_map, List.flatMap_map]
  rfl

end Renaming.Checked
