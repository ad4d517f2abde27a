import Renaming.Proofs.Checked.Choice
import Renaming.Proofs.Checked.Place

/-!
What is done in a source, token by token. A stretch of code is searched for its words, which are its
tokens that are words (`wordsBetween_word`, `wordsBetween_mark`), so what is done in a piece of code
is done in the tokens that were joined to it: `done_code_cons`. For all pieces of a source that is
what their fragments say, each at its position: `mapM_done`.
-/

namespace Renaming.Checked

open Renaming.Source
open Renaming.Source.Segment (byteAt? encoded segmentsAt)

/-! ### Words between positions -/

section

variable {bytes : Array UInt8} {i j stop : Nat} {c : Char}

theorem wordsBetween_of_le (h : stop ≤ i) : wordsBetween bytes i stop = .ok [] := by
  rw [wordsBetween, if_neg (Nat.not_lt.2 h)]

theorem wordEnd_eq (hij : i ≤ j) (hj : j ≤ stop)
    (hword : ∀ k, i ≤ k → k < j → ∃ c, byteAt? bytes k = some c ∧ isWord c = true)
    (hend : j < stop → ∃ c, byteAt? bytes j = some c ∧ isWord c = false) :
    wordEnd bytes stop i = .ok j := by
  fun_induction wordEnd bytes stop i with
  | case1 i hi ih =>
    rcases Nat.eq_or_lt_of_le hij with rfl | hlt
    · obtain ⟨c, hc, hw⟩ := hend hi
      rw [byte_of_byteAt? hc, ok_bind, hw]
      rfl
    · obtain ⟨c, hc, hw⟩ := hword i (Nat.le_refl i) hlt
      rw [byte_of_byteAt? hc, ok_bind, if_pos hw]
      exact ih hlt fun k hk => hword k (Nat.le_of_succ_le hk)
  | case2 i hi => rw [Nat.le_antisymm hij (Nat.le_trans hj (Nat.not_lt.1 hi))]

theorem wordsBetween_word (hij : i < j) (hj : j ≤ stop) (hi : byteAt? bytes i = some c)
    (hword : ∀ k, i ≤ k → k < j → ∃ c, byteAt? bytes k = some c ∧ isWord c = true)
    (hend : j < stop → ∃ c, byteAt? bytes j = some c ∧ isWord c = false) :
    wordsBetween bytes i stop = (do
      let rest ← wordsBetween bytes j stop
      .ok ((if c.isDigit then [] else [(i, j)]) ++ rest)) := by
  obtain ⟨c', hc', hw⟩ := hword i (Nat.le_refl i) hij
  obtain rfl := Option.some.inj (hc'.symm.trans hi)
  have hstop := wordEnd_eq hij hj (fun k hk => hword k (Nat.le_of_succ_le hk)) hend
  rw [wordsBetween, if_pos (Nat.lt_of_lt_of_le hij hj), byte_of_byteAt? hi]
  simp only [if_pos hw]
  split
  · next e he =>
    rw [hstop] at he
    cases he
  · next j' hj' =>
    rw [hstop] at hj'
    obtain rfl := Except.ok.inj hj'
    congr 1
    funext rest
    split <;> rfl

theorem wordsBetween_mark (hi : i < stop) (hc : byteAt? bytes i = some c) (hw : isWord c = false) :
    wordsBetween bytes i stop = wordsBetween bytes (i + 1) stop := by
  rw [wordsBetween, if_pos hi, byte_of_byteAt? hc]
  simp [hw]

end

/-! ### The bytes of words -/

section

variable {cs a r : List Char}

theorem exists_byteAt?_isWord {c : Char} (h : cs = a ++ c :: r) :
    ∃ d, byteAt? (encoded cs) (byteLength a) = some d ∧ isWord d = isWord c ∧
      d.isDigit = c.isDigit := by
  obtain ⟨d, hd, hclass⟩ := byteAt?_first h
  refine ⟨d, hd, Bool.not_inj (hclass (!isWord ·) fun x hx => ?_),
    hclass Char.isDigit fun x hx => ?_⟩
  · rw [isWord_of_le hx]
    rfl
  · have := Segment.isIdentifier_of_le hx
    simp only [isIdentifier, Char.isAlphanum, Bool.or_eq_false_iff] at this
    exact this.1.1.2

theorem byteAt?_of_word {w : List Char} (h : cs = a ++ w ++ r) (hw : ∀ c ∈ w, isWord c = true)
    {k : Nat} (hk : byteLength a ≤ k) (hk' : k < byteLength (a ++ w)) :
    ∃ d, byteAt? (encoded cs) k = some d ∧ isWord d = true := by
  obtain ⟨n, rfl⟩ := Nat.exists_eq_add_of_le hk
  have hn : n < (utf8 w).length := by
    rw [length_utf8]
    rw [byteLength_append] at hk'
    omega
  rw [Segment.byteAt?_add (h.trans (List.append_assoc ..)), utf8_append,
    List.getElem?_append_left hn, List.getElem?_eq_getElem hn]
  refine ⟨_, rfl, ?_⟩
  obtain ⟨c, hc, hb⟩ := List.mem_flatMap.1 (List.getElem_mem hn)
  have hmem : Char.ofUInt8 (utf8 w)[n] ∈ wide [c] := by
    rw [wide, utf8, List.flatMap_singleton]
    exact List.mem_map_of_mem hb
  by_cases hlt : c.toNat < 0x80
  · rw [wide_of_lt hlt] at hmem
    rw [List.mem_singleton.1 hmem, hw c hc]
  · exact isWord_of_le (le_of_mem_wide (Nat.not_lt.1 hlt) hmem)

variable {stop : Nat}

theorem byteAt?_of_head? (h : cs = a ++ r) (hr : ∀ c ∈ r.head?, isWord c = false)
    (hlt : byteLength a < stop) (hstop : stop ≤ byteLength cs) :
    ∃ c, byteAt? (encoded cs) (byteLength a) = some c ∧ isWord c = false := by
  cases r with
  | nil =>
    rw [h, List.append_nil] at hstop
    omega
  | cons c r =>
    obtain ⟨d, hd, hword, -⟩ := exists_byteAt?_isWord h
    exact ⟨d, hd, hword.trans (hr c rfl)⟩

theorem wordsBetween_append_word {c : Char} {w : List Char} (h : cs = a ++ c :: w ++ r)
    (hw : ∀ d ∈ c :: w, isWord d = true) (hnext : ∀ d ∈ r.head?, isWord d = false)
    (hle : byteLength (a ++ c :: w) ≤ stop) (hstop : stop ≤ byteLength cs) :
    wordsBetween (encoded cs) (byteLength a) stop = (do
      let rest ← wordsBetween (encoded cs) (byteLength (a ++ c :: w)) stop
      .ok ((if c.isDigit then [] else [(byteLength a, byteLength (a ++ c :: w))]) ++ rest)) := by
  have hlt : byteLength a < byteLength (a ++ c :: w) := by
    have := byteLength_pos (List.cons_ne_nil c w)
    rw [byteLength_append]
    omega
  obtain ⟨d, hd, -, hdigit⟩ := exists_byteAt?_isWord (h.trans (List.append_assoc ..))
  rw [← hdigit]
  exact wordsBetween_word hlt hle hd (fun k hk hk' => byteAt?_of_word h hw hk hk')
    (fun hlt => byteAt?_of_head? h hnext hlt hstop)

theorem wordsBetween_append_mark {c : Char} (h : cs = a ++ c :: r) (hc : isWord c = false)
    (hle : byteLength (a ++ [c]) ≤ stop) :
    wordsBetween (encoded cs) (byteLength a) stop =
      wordsBetween (encoded cs) (byteLength (a ++ [c])) stop := by
  have hlt : c.toNat < 0x80 := by
    refine Nat.not_le.1 fun hhigh => ?_
    rw [isWord_of_le hhigh] at hc
    cases hc
  rw [← Segment.byteLength_add_one hlt] at hle ⊢
  exact wordsBetween_mark hle (Segment.byteAt?_of_lt h hlt) hc

end

/-! ### What is done in the fragments -/

section

variable {rules : List Rule} {guarded : List String} {source : String}

/-- What is done about fragments, the first of which starts at the position `pos`. -/
def actionsFrom (rules : List Rule) (guarded : List String) (pos : Nat) :
    List Fragment → List Action
  | [] => []
  | f :: fs => acted rules guarded pos f ++ actionsFrom rules guarded (pos + byteLength f.text) fs

theorem actionsFrom_append (pos : Nat) (fs gs : List Fragment) :
    actionsFrom rules guarded pos (fs ++ gs) = actionsFrom rules guarded pos fs ++
      actionsFrom rules guarded (pos + byteLength (fs.flatMap Fragment.text)) gs := by
  induction fs generalizing pos with
  | nil => simp [actionsFrom]
  | cons f fs ih =>
    rw [List.cons_append, actionsFrom, actionsFrom, ih, List.flatMap_cons, byteLength_append,
      Nat.add_assoc, List.append_assoc]

@[simp] theorem acted_kept (pos : Nat) (t : List Char) :
    acted rules guarded pos (.kept t) = [] := rfl

/-- What is done in a segment of a source whose tokens are `ts`. -/
def done (rules : List Rule) (guarded : List String) (source : String) (ts : List Piece)
    (s : Segment) : Except Fault (List Action) :=
  actionsIn rules guarded source (encoded source.toList) (flagsOf (marksOf ts))
    (indexed rules) s

variable {xs ps : List Piece} {p : Piece}

theorem consider_token {ts : List Piece} (rules : List Rule) (guarded : List String) (site : Site)
    (hsource : source.toList = textOf ts) (hts : ts = xs ++ p :: ps)
    (hbefore : site.before = (marksOf xs).reverse) (hafter : site.after = textOf ps)
    (hname : site.inCode = true → site.name.toList = p.text ∧ p.text ≠ []) (start : Nat) :
    consider rules guarded (encoded source.toList) (flagsOf (marksOf ts))
        (indexed rules) site.name start
        (start + byteLength site.name.toList) (byteLength (textOf xs))
        (byteLength (textOf xs ++ p.text)) site.inCode =
      .ok (acted rules guarded start (.place site)) := by
  refine consider_eq (fun scope => ?_) start
  have hus : (marksOf (p :: ps)).map Mark.char = p.text ++ textOf ps := map_char_marksOf _
  have h := admits_eq hus hbefore hafter hname scope
  rwa [← marksOf_append, ← hts, map_char_marksOf, map_char_marksOf, ← hsource] at h

/-! ### The segments of tokens -/

/-- A token in front of segments: code is a part of the code behind it, other tokens are segments of
their own. -/
theorem segmentsAt_mergeAll_cons (start : Nat) (p : Piece) (ps : List Piece) :
    (p.kind = .code ∧ ∃ stop ss,
      segmentsAt (start + byteLength p.text) (mergeAll ps) =
        ⟨.code, start + byteLength p.text, stop⟩ :: ss ∧
      segmentsAt start (mergeAll (p :: ps)) = ⟨.code, start, stop⟩ :: ss ∧
      start + byteLength p.text ≤ stop ∧ stop ≤ start + byteLength (textOf (p :: ps))) ∨
    segmentsAt start (mergeAll (p :: ps)) =
      ⟨p.kind, start, start + byteLength p.text⟩ ::
        segmentsAt (start + byteLength p.text) (mergeAll ps) := by
  rcases mergeAll_cons p ps with ⟨hk, q, qs, hm, hqk, hj⟩ | hj
  · refine .inl ⟨hk, start + byteLength p.text + byteLength q.text,
      segmentsAt (start + byteLength p.text + byteLength q.text) qs, ?_, ?_,
      Nat.le_add_right .., ?_⟩
    · rw [hm, ← hqk]
      rfl
    · rw [hj, Nat.add_assoc, ← byteLength_append]
      rfl
    · rw [textOf_cons, ← textOf_mergeAll ps, hm, textOf_cons]
      simp only [byteLength_append]
      omega
  · rw [hj]
    exact .inr rfl

/-! ### What is done in a token -/

theorem done_code_of_words {ts : List Piece} {i j stop : Nat} {new : List (Nat × Nat)}
    {acts : List (List Action)} {as : List Action}
    (hwords : wordsBetween (encoded source.toList) i stop = (do
      let rest ← wordsBetween (encoded source.toList) j stop
      .ok (new ++ rest)))
    (hnew : new.mapM (fun (start, stop) => considerWord rules guarded source
      (encoded source.toList) (flagsOf (marksOf ts)) (indexed rules) start stop) = .ok acts)
    (h : done rules guarded source ts ⟨.code, j, stop⟩ = .ok as) :
    done rules guarded source ts ⟨.code, i, stop⟩ = .ok (acts.flatten ++ as) := by
  rw [done, actionsIn] at h ⊢
  dsimp only at h ⊢
  cases hrest : wordsBetween (encoded source.toList) j stop with
  | error e =>
    rw [hrest] at h
    cases h
  | ok rest =>
    rw [hrest, ok_bind] at h hwords
    rw [hwords, ok_bind, List.mapM_append, hnew, ok_bind]
    cases hacts : rest.mapM (fun (start, stop) => considerWord rules guarded source
        (encoded source.toList) (flagsOf (marksOf ts)) (indexed rules) start stop) with
    | error e =>
      rw [hacts] at h
      cases h
    | ok acts' =>
      rw [hacts, ok_bind] at h
      rw [ok_bind, ← Except.ok.inj h, ← List.flatten_append]
      rfl

section

variable {ts : List Piece} {stop : Nat} {as : List Action} (hsource : source.toList = textOf ts)
include hsource

theorem toList_of_token (hts : ts = xs ++ p :: ps) :
    source.toList = textOf xs ++ p.text ++ textOf ps := by
  rw [hsource, hts, textOf_append, textOf_cons, List.append_assoc]

theorem considerWord_token {w : List Char} (hts : ts = xs ++ ⟨.code, w⟩ :: ps) (hne : w ≠ []) :
    considerWord rules guarded source (encoded source.toList) (flagsOf (marksOf ts)) (indexed rules)
        (byteLength (textOf xs)) (byteLength (textOf xs ++ w)) =
      .ok (acted rules guarded (byteLength (textOf xs))
        (.place ⟨String.ofList w, true, (marksOf xs).reverse, textOf ps⟩)) := by
  have h := consider_token rules guarded
    ⟨String.ofList w, true, (marksOf xs).reverse, textOf ps⟩ hsource hts rfl rfl
    (fun _ => ⟨String.toList_ofList, hne⟩) (byteLength (textOf xs))
  simp only [String.toList_ofList, ← byteLength_append] at h
  rw [considerWord, text_eq (toList_of_token hsource hts), ok_bind, h]

theorem done_code_word {w : List Char} (hts : ts = xs ++ ⟨.code, w⟩ :: ps) (hne : w ≠ [])
    (hw : ∀ c ∈ w, isWord c = true) (hnext : ∀ c ∈ (textOf ps).head?, isWord c = false)
    (hle : byteLength (textOf xs ++ w) ≤ stop) (hstop : stop ≤ byteLength source.toList)
    (h : done rules guarded source ts ⟨.code, byteLength (textOf xs ++ w), stop⟩ = .ok as) :
    done rules guarded source ts ⟨.code, byteLength (textOf xs), stop⟩ =
      .ok (actionsFrom rules guarded (byteLength (textOf xs))
        (Piece.fragments (marksOf xs).reverse (textOf ps) ⟨.code, w⟩) ++ as) := by
  obtain ⟨c, w, rfl⟩ := List.exists_cons_of_ne_nil hne
  have hwords := wordsBetween_append_word (toList_of_token hsource hts) hw hnext hle hstop
  have hfragments : Piece.fragments (marksOf xs).reverse (textOf ps) ⟨.code, c :: w⟩ =
      if c.isDigit then [.kept (c :: w)]
      else [.place ⟨String.ofList (c :: w), true, (marksOf xs).reverse, textOf ps⟩] := by
    rw [Piece.fragments, if_pos (isWord_piece hw)]
    rfl
  rw [hfragments]
  cases hc : c.isDigit with
  | true =>
    rw [hc] at hwords
    exact done_code_of_words hwords rfl h
  | false =>
    rw [hc] at hwords
    have hnew : [(byteLength (textOf xs), byteLength (textOf xs ++ c :: w))].mapM
        (fun (start, stop) => considerWord rules guarded source (encoded source.toList)
          (flagsOf (marksOf ts)) (indexed rules) start stop) =
        .ok [acted rules guarded (byteLength (textOf xs))
          (.place ⟨String.ofList (c :: w), true, (marksOf xs).reverse, textOf ps⟩)] := by
      rw [List.mapM_cons]
      dsimp only
      rw [considerWord_token hsource hts hne]
      rfl
    rw [done_code_of_words hwords hnew h]
    simp [actionsFrom]

theorem done_code_mark {c : Char} (hts : ts = xs ++ ⟨.code, [c]⟩ :: ps) (hc : isWord c = false)
    (hle : byteLength (textOf xs ++ [c]) ≤ stop)
    (h : done rules guarded source ts ⟨.code, byteLength (textOf xs ++ [c]), stop⟩ = .ok as) :
    done rules guarded source ts ⟨.code, byteLength (textOf xs), stop⟩ =
      .ok (actionsFrom rules guarded (byteLength (textOf xs))
        (Piece.fragments (marksOf xs).reverse (textOf ps) ⟨.code, [c]⟩) ++ as) := by
  have htext := (toList_of_token hsource hts).trans (List.append_assoc ..)
  have hfragments : Piece.fragments (marksOf xs).reverse (textOf ps) ⟨.code, [c]⟩ =
      [.kept [c]] := by
    simp [Piece.fragments, Piece.isWord, hc, Piece.content?]
  have hkept : actionsFrom rules guarded (byteLength (textOf xs)) [.kept [c]] = [] := rfl
  rw [hfragments, hkept, List.nil_append, ← h]
  simp only [done, actionsIn, wordsBetween_append_mark htext hc hle]

theorem done_code_cons (hts : ts = xs ++ p :: ps) (hcut : WellCut (p :: ps)) (hp : p.kind = .code)
    (hle : byteLength (textOf xs ++ p.text) ≤ stop) (hstop : stop ≤ byteLength source.toList)
    (h : done rules guarded source ts ⟨.code, byteLength (textOf xs ++ p.text), stop⟩ = .ok as) :
    done rules guarded source ts ⟨.code, byteLength (textOf xs), stop⟩ =
      .ok (actionsFrom rules guarded (byteLength (textOf xs))
        (p.fragments (marksOf xs).reverse (textOf ps)) ++ as) := by
  cases hcut with
  | word hne hw hnext => exact done_code_word hsource hts hne hw hnext hle hstop h
  | mark hc => exact done_code_mark hsource hts hc hle h
  | other hk => exact absurd hp hk

theorem done_of_kind_ne (hts : ts = xs ++ p :: ps) (hp : p.kind ≠ .code) :
    done rules guarded source ts
        ⟨p.kind, byteLength (textOf xs), byteLength (textOf xs ++ p.text)⟩ =
      .ok (actionsFrom rules guarded (byteLength (textOf xs))
        (p.fragments (marksOf xs).reverse (textOf ps))) := by
  have hword : p.isWord = false := by simp [Piece.isWord, hp]
  rw [done, actionsIn, Piece.fragments, if_neg (by simp [hword])]
  cases hk : p.kind with
  | code => exact absurd hk hp
  | comment =>
    simp [Piece.content?, hk, actionsFrom]
  | literal =>
    have hcontent := content?_eq (toList_of_token hsource hts)
    rw [hk] at hcontent
    dsimp only
    rw [hcontent, ok_bind]
    cases hm : p.content? with
    | none => simp [actionsFrom]
    | some m =>
      obtain ⟨-, q, hq, ht⟩ := Piece.text_of_content? hm
      have h := consider_token rules guarded
        ⟨String.ofList m, false, (marksOf xs).reverse, textOf ps⟩ hsource hts rfl rfl
        (fun h => absurd h Bool.false_ne_true) (byteLength (textOf xs) + 1)
      simp only [String.toList_ofList] at h
      have hlen : (String.ofList m).utf8ByteSize = byteLength m := rfl
      rw [Option.map_some]
      dsimp only
      rw [hlen, h]
      simp [actionsFrom, ht, Fragment.text, byteLength_quote hq]

theorem done_token (hts : ts = xs ++ p :: ps) (hcut : WellCut (p :: ps)) :
    done rules guarded source ts
        ⟨p.kind, byteLength (textOf xs), byteLength (textOf xs ++ p.text)⟩ =
      .ok (actionsFrom rules guarded (byteLength (textOf xs))
        (p.fragments (marksOf xs).reverse (textOf ps))) := by
  by_cases hk : p.kind = .code
  · have hle : byteLength (textOf xs ++ p.text) ≤ byteLength source.toList := by
      rw [toList_of_token hsource hts, byteLength_append _ (textOf ps)]
      omega
    have hend : done rules guarded source ts
        ⟨.code, byteLength (textOf xs ++ p.text), byteLength (textOf xs ++ p.text)⟩ = .ok [] := by
      rw [done, actionsIn]
      dsimp only
      rw [wordsBetween_of_le (Nat.le_refl _)]
      rfl
    rw [hk, done_code_cons hsource hts hcut hk (Nat.le_refl _) hle hend, List.append_nil]
  · exact done_of_kind_ne hsource hts hk

/-- **What is done in the pieces of a source** is done in its tokens, at their positions. -/
theorem mapM_done (rules : List Rule) (guarded : List String) (hts : ts = xs ++ ps)
    (hcut : WellCut ps) :
    ∃ ass, (segmentsAt (byteLength (textOf xs)) (mergeAll ps)).mapM
        (done rules guarded source ts) = .ok ass ∧
      ass.flatten = actionsFrom rules guarded (byteLength (textOf xs))
        (placed (marksOf xs).reverse ps) := by
  induction ps generalizing xs with
  | nil => exact ⟨[], rfl, rfl⟩
  | cons p ps ih =>
    have hbefore : p.marks.reverse ++ (marksOf xs).reverse = (marksOf (xs ++ [p])).reverse := by
      rw [marksOf_append, List.reverse_append, marksOf_cons, marksOf_nil, List.append_nil]
    have hactions : actionsFrom rules guarded (byteLength (textOf xs))
        (placed (marksOf xs).reverse (p :: ps)) = actionsFrom rules guarded (byteLength (textOf xs))
          (p.fragments (marksOf xs).reverse (textOf ps)) ++
        actionsFrom rules guarded (byteLength (textOf xs ++ p.text))
          (placed (marksOf (xs ++ [p])).reverse ps) := by
      rw [placed, actionsFrom_append, flatMap_text_fragments_piece, hbefore, byteLength_append]
    have hpos : textOf (xs ++ [p]) = textOf xs ++ p.text := by simp
    have hnext : ts = xs ++ [p] ++ ps := by simpa using hts
    obtain ⟨ass, hass, hflat⟩ := ih hnext hcut.tail
    rw [hpos] at hass hflat
    rw [hactions, ← hflat]
    rcases segmentsAt_mergeAll_cons (byteLength (textOf xs)) p ps with
      ⟨hk, stop, ss, hbehind, hjoined, hle, hstop⟩ | halone
    · -- the token is joined to the piece behind it, which is searched from the token on
      rw [← byteLength_append] at hbehind hle hstop
      rw [hbehind] at hass
      obtain ⟨as, rest, has, hrest, rfl⟩ := mapM_cons_eq_ok_iff.1 hass
      have hend : stop ≤ byteLength source.toList := by rwa [hsource, hts, textOf_append]
      have hfirst := done_code_cons hsource hts hcut hk hle hend has
      rw [hjoined]
      exact ⟨_, mapM_cons_eq_ok_iff.2 ⟨_, _, hfirst, hrest, rfl⟩, List.append_assoc ..⟩
    · rw [halone, ← byteLength_append]
      exact ⟨_, mapM_cons_eq_ok_iff.2 ⟨_, _, done_token hsource hts hcut, hass, rfl⟩, rfl⟩

end

end

end Renaming.Checked
