import Renaming.Proofs.Rule.Conflict
import Renaming.Proofs.Source.Bytes

/-!
Whole identifiers. A word of the code that is renamed is as long as possible within its piece of the
code, so it is delimited in the source unless the text goes on with a word where the piece starts or
ends. It never does behind a word. In front of one it does at exactly one kind of place, behind the
flags of a regular expression, and then the word starts with an underscore or a dollar.

* `delimited_iff`: which of the renamed words are delimited.
* `not_delimited_flags`: a quotient that is read as a regular expression with flags, behind which
  the end of a longer name is renamed.
-/

namespace Renaming

open Renaming.Source

/-! ### Bytes of words -/

/-- The bytes of words: ASCII letters and digits, underscore and dollar, and all bytes of characters
outside ASCII. -/
def isWordByte (b : UInt8) : Bool := 0x80 ≤ b.toNat || isIdentifier (Char.ofUInt8 b)

theorem isWordByte_of_mem {c : Char} {b : UInt8} (h : b ∈ utf8 [c]) : isWordByte b = isWord c := by
  by_cases hc : c.toNat < 0x80
  · rw [utf8_of_lt hc, List.mem_singleton] at h
    have hb : b.toNat = c.toNat := by rw [h, UInt8.toNat_ofNat']; omega
    rw [isWordByte, isWord, h, ofUInt8_ofNat hc, ← h, hb, Bool.or_comm]
  · have hb := le_of_mem_utf8 (Nat.not_lt.1 hc) h
    simp [isWordByte, isWord, hb, Nat.not_lt.1 hc]

theorem utf8_singleton_ne_nil (c : Char) : utf8 [c] ≠ [] := by
  rw [utf8, List.flatMap_singleton]
  exact String.utf8EncodeChar_ne_nil

theorem head?_utf8 (text : List Char) :
    (utf8 text).head?.map isWordByte = text.head?.map isWord := by
  rcases text with _ | ⟨c, t⟩
  · rfl
  · obtain ⟨b, u, hu⟩ := List.exists_cons_of_ne_nil (utf8_singleton_ne_nil c)
    have hb : isWordByte b = isWord c := isWordByte_of_mem (by rw [hu]; exact List.mem_cons_self ..)
    rw [← List.singleton_append, utf8_append, hu]
    simp [hb]

theorem getLast?_utf8 (text : List Char) :
    (utf8 text).getLast?.map isWordByte = text.getLast?.map isWord := by
  rcases List.eq_nil_or_concat text with rfl | ⟨t, c, rfl⟩
  · rfl
  · rcases List.eq_nil_or_concat (utf8 [c]) with hu | ⟨u, b, hu⟩
    · exact absurd hu (utf8_singleton_ne_nil c)
    · have hb : isWordByte b = isWord c := isWordByte_of_mem (by rw [hu]; simp)
      rw [List.concat_eq_append, utf8_append, hu]
      simp [hb]

/-- Neither the byte in front of the range nor the one behind it, where there is one, is one of a
word. -/
structure Delimited (bytes : List UInt8) (start stop : Nat) : Prop where
  front : ∀ b ∈ (bytes.take start).getLast?, isWordByte b = false
  behind : ∀ b ∈ (bytes.drop stop).head?, isWordByte b = false

theorem delimited_utf8_iff {a w b : List Char} :
    Delimited (utf8 (a ++ w ++ b)) (byteLength a) (byteLength (a ++ w)) ↔
      (∀ c ∈ a.getLast?, isWord c = false) ∧ ∀ c ∈ b.head?, isWord c = false := by
  have hfront : (utf8 (a ++ w ++ b)).take (byteLength a) = utf8 a := by
    rw [List.append_assoc, take_utf8_append]
  have hforall : ∀ {α : Type} {p : α → Bool} {o : Option α},
      (∀ x ∈ o, p x = false) ↔ ∀ t ∈ o.map p, t = false := by simp
  constructor
  · rintro ⟨h1, h2⟩
    rw [hfront, hforall, getLast?_utf8, ← hforall] at h1
    rw [drop_utf8_append, hforall, head?_utf8, ← hforall] at h2
    exact ⟨h1, h2⟩
  · rintro ⟨h1, h2⟩
    refine ⟨?_, ?_⟩
    · rwa [hfront, hforall, getLast?_utf8, ← hforall]
    · rwa [drop_utf8_append, hforall, head?_utf8, ← hforall]

/-! ### Where a word follows a word -/

/-- Of all that is no word, only a regular expression with flags has a word on both sides of its
end. -/
theorem Source.Reader.isRegex_next (s : Reader) {c : Char} (hc : isWord c = false) (r : List Char)
    (hlast : ∃ z ∈ (s.next c r).1.text.getLast?, isWord z = true)
    (hrest : ∃ d ∈ (s.next c r).1.rest.head?, isWord d = true) :
    (s.next c r).1.piece.isRegex = true ∧ ∃ z ∈ (s.next c r).1.text.getLast?, isFlag z = true := by
  obtain ⟨z, hz, hzw⟩ := hlast
  obtain ⟨d, hd, hdw⟩ := hrest
  have hne : ∀ {t : List Char}, d ∈ t.head? → t ≠ [] := by
    rintro _ hd rfl
    cases hd
  -- the last character is known, and it is none of a word
  have hmark : ∀ {t : List Char} {y : Char}, z ∈ t.getLast? → t.getLast? = some y →
      isWord y = false → False := by
    intro t y hz hy hyw
    rw [hy, Option.mem_def, Option.some.injEq] at hz
    rw [hz, hzw] at hyw
    cases hyw
  have hpiece : ∀ {t : List Char} {e : Char}, d ∈ (template false t).1.rest.head? →
      z ∈ (e :: (template false t).1.text).getLast? → False := by
    intro t e hd hz
    obtain ⟨h1, h2⟩ := getLast?_template false t
    cases hb : (template false t).2 with
    | true => exact hmark hz (getLast?_cons_of_eq_some (h1 hb)) (by decide)
    | false => exact hmark hz (getLast?_cons_of_eq_some (h2 hb (hne hd))) (by decide)
  have hreads := s.reads_next c r
  revert hz hd hreads
  generalize s.next c r = o
  intro hz hd hreads
  cases hreads with
  | line u =>
    have := head?_lineComment u d hd
    rw [this] at hdw
    cases hdw
  | block u =>
    have hl := getLast?_blockComment (hne hd)
    exact (hmark hz (getLast?_cons_of_eq_some (getLast?_cons_of_eq_some hl)) (by decide)).elim
  | regex cut _ _ hcut =>
    obtain ⟨t, f, ht, hf, -⟩ := regex_eq hcut
    refine ⟨rfl, z, hz, ?_⟩
    rcases List.eq_nil_or_concat f with rfl | ⟨f, y, rfl⟩
    · exact (hmark hz (by simp [Reader.expression, ht, List.getLast?_cons]) hc).elim
    · have hy : z = y := by simpa [Reader.expression, ht, List.getLast?_cons, eq_comm] using hz
      rw [hy]
      exact hf y (by simp)
  | slash => exact (hmark hz rfl hc).elim
  | string hq =>
    rcases getLast?_quoted (hne hd) with hn | hl
    · have hd' : (quoted c false r).rest.head? = some d := hd
      rw [hd', Option.some.injEq] at hn
      rw [hn] at hdw
      cases hdw
    · exact (hmark hz (getLast?_cons_of_eq_some hl) hc).elim
  | template r => exact (hpiece hd hz).elim
  | resume opened _ => exact (hpiece hd hz).elim
  | openBrace r => exact (hmark hz rfl hc).elim
  | closeBrace => exact (hmark hz rfl hc).elim
  | mark => exact (hmark hz rfl hc).elim

theorem isRegex_of_tokens {s : Reader} {cs : List Char} {xs : List Piece} {q : Piece}
    {ys : List Piece} (h : tokens s cs = xs ++ q :: ys) (hq : q.isWord = false)
    (hlast : ∃ z ∈ q.text.getLast?, isWord z = true)
    (hrest : ∃ d ∈ (textOf ys).head?, isWord d = true) :
    q.isRegex = true ∧ ∃ z ∈ q.text.getLast?, isFlag z = true := by
  obtain ⟨s', c, r, hc, rfl, hnext⟩ := exists_next_of_tokens h hq
  rw [← hnext] at hrest
  exact s'.isRegex_next hc r hlast hrest

/-- A regular expression with flags ends at the position `pos`. -/
def FlagsEnd (source : List Char) (pos : Nat) : Prop :=
  ∃ ps p qs, pieces source = ps ++ p :: qs ∧ p.isRegex = true ∧
    (∃ z ∈ p.text.getLast?, isFlag z = true) ∧ pos = byteLength (textOf ps ++ p.text)

section

variable {source : List Char} {xs ys : List Piece} {p : Piece}

theorem exists_regex (h : tokensOf source = xs ++ p :: ys) (hp : p.isWord = true)
    (hlast : ∃ z ∈ (textOf xs).getLast?, isWord z = true) :
    ∃ xs' q, xs = xs' ++ [q] ∧ q.isRegex = true ∧ ∃ z ∈ q.text.getLast?, isFlag z = true := by
  have hcut : WellCut (xs ++ p :: ys) := h ▸ wellCut_tokens .start source
  have hhead : ∃ d ∈ (textOf (p :: ys)).head?, isWord d = true := by
    obtain ⟨d, t, ht⟩ := List.exists_cons_of_ne_nil (hcut.text_ne_nil p (by simp))
    simp only [Piece.isWord, ht, List.all_cons, Bool.and_eq_true] at hp
    exact ⟨d, by simp [ht], hp.2.1⟩
  rcases List.eq_nil_or_concat xs with rfl | ⟨xs', q, rfl⟩
  · obtain ⟨z, hz, -⟩ := hlast
    cases hz
  · rw [List.concat_eq_append] at *
    rw [List.append_assoc, List.singleton_append] at h hcut
    have hne := hcut.text_ne_nil q (by simp)
    have hlast' : ∃ z ∈ q.text.getLast?, isWord z = true := by
      rw [textOf_append, textOf_cons, textOf_nil, List.append_nil, List.getLast?_append,
        List.getLast?_eq_some_getLast hne, Option.some_or] at hlast
      rwa [List.getLast?_eq_some_getLast hne]
    have hq : q.isWord = false := by
      -- no word follows a word
      rw [Bool.eq_false_iff]
      intro hq
      obtain ⟨d, hd, hdw⟩ := hhead
      rw [hcut.of_append.next hq d hd] at hdw
      cases hdw
    exact ⟨xs', q, rfl, isRegex_of_tokens h hq hlast' hhead⟩

theorem flagsEnd_iff (h : tokensOf source = xs ++ p :: ys) (hp : p.isWord = true) :
    FlagsEnd source (byteLength (textOf xs)) ↔ ∃ z ∈ (textOf xs).getLast?, isWord z = true := by
  have hcut : WellCut (xs ++ p :: ys) := h ▸ wellCut_tokens .start source
  constructor
  · rintro ⟨us, q, vs, hm, -, ⟨z, hz, hf⟩, hpos⟩
    have hsource : source = textOf us ++ q.text ++ textOf vs := by
      rw [← flatMap_text_pieces source, hm]
      simp [textOf]
    have hsource' : source = textOf xs ++ textOf (p :: ys) := by
      rw [← textOf_append, ← h]
      exact (textOf_tokens .start source).symm
    have hbytes : utf8 (textOf xs) = utf8 (textOf us ++ q.text) := by
      rw [← take_utf8_append (textOf xs) (textOf (p :: ys)), ← hsource', hpos, hsource,
        take_utf8_append]
    have hlast : (textOf us ++ q.text).getLast? = some z := by
      rw [List.getLast?_append, Option.mem_def.1 hz, Option.some_or]
    have := getLast?_utf8 (textOf xs)
    rw [hbytes, getLast?_utf8, hlast, Option.map_some, isWord_of_isFlag hf, eq_comm,
      Option.map_eq_some_iff] at this
    exact this
  · intro hlast
    obtain ⟨xs', q, rfl, hregex, hflag⟩ := exists_regex h hp hlast
    have hk : q.kind ≠ .code := by
      rintro hk
      simp [Piece.isRegex, hk] at hregex
    rw [List.append_assoc, List.singleton_append] at h hcut
    obtain ⟨us, vs, hm, hmarks, -⟩ := exists_piece_of_ne hcut hk
    rw [← h, ← pieces_eq_mergeAll] at hm
    exact ⟨us, q, vs, hm, hregex, hflag, by rw [textOf_eq_of_marksOf hmarks, textOf_append,
      textOf_cons, textOf_nil, List.append_nil]⟩

theorem not_isFlag_of_flagsEnd (h : tokensOf source = xs ++ p :: ys) (hp : p.isWord = true)
    (hflags : FlagsEnd source (byteLength (textOf xs))) : ∀ c ∈ p.text.head?, isFlag c = false := by
  have hcut : WellCut (xs ++ p :: ys) := h ▸ wellCut_tokens .start source
  obtain ⟨xs', q, rfl, hregex, -⟩ := exists_regex h hp ((flagsEnd_iff h hp).1 hflags)
  rw [List.append_assoc, List.singleton_append] at hcut
  intro c hc
  rcases hcut.of_append.seam with hseam | ⟨hregex', -⟩
  · refine hseam c ?_
    rw [textOf_cons, List.head?_append, Option.mem_def.1 hc]
    rfl
  · rw [hregex] at hregex'
    cases hregex'

end

/-! ### Renamed words -/

theorem head?_of_apart {fs gs : List Fragment} {site : Site}
    (h : Apart (fs ++ .place site :: gs)) : ∀ g ∈ gs.head?, ∃ t, t ≠ [] ∧ g = .kept t := by
  induction fs with
  | nil => exact h.1 ⟨site, rfl⟩
  | cons f fs ih => exact ih h.2

/-- There is one place at most in a range. -/
theorem Source.Occurs.unique {source : List Char} {start stop : Nat} {s s' : Site}
    (h : Occurs source start stop s) (h' : Occurs source start stop s') : s = s' := by
  -- behind a place, some text is kept before the next one
  have hearly : ∀ {fs u gs gs' : List Fragment} {s s' : Site}, Apart (fs ++ .place s :: gs) →
      byteLength (fs.flatMap Fragment.text) = byteLength ((fs ++ u).flatMap Fragment.text) →
      .place s :: gs = u ++ .place s' :: gs' → s = s' := by
    intro fs u gs gs' s s' hapart hlen hu
    have hkept := head?_of_apart hapart
    rcases u with _ | ⟨f, u⟩
    · exact Fragment.place.inj (List.cons.inj hu).1
    · obtain ⟨-, rfl⟩ := List.cons.inj hu
      rcases u with _ | ⟨g, u⟩
      · obtain ⟨t, -, ht⟩ := hkept _ rfl
        cases ht
      · obtain ⟨t, ht, rfl⟩ := hkept _ rfl
        have hpos : 0 < byteLength (Fragment.kept t).text := byteLength_pos ht
        simp only [List.flatMap_append, List.flatMap_cons, byteLength_append] at hlen
        omega
  obtain ⟨fs, gs, hf, h1, -⟩ := occurs_iff.1 h
  obtain ⟨fs', gs', hf', h1', -⟩ := occurs_iff.1 h'
  have hapart : Apart (fragmentsOf source) := by
    rw [fragmentsOf_eq_placed]
    exact apart_placed (wellCut_tokens .start source) []
  have heq : fs ++ .place s :: gs = fs' ++ .place s' :: gs' := hf.symm.trans hf'
  rcases List.append_eq_append_iff.1 heq with ⟨u, rfl, hu⟩ | ⟨u, rfl, hu⟩
  · exact hearly (hf ▸ hapart) (h1.symm.trans h1') hu
  · exact (hearly (hf' ▸ hapart) (h1'.symm.trans h1) hu).symm

theorem delimited_of_occurs {source : List Char} {start stop : Nat} {site : Site}
    (h : Occurs source start stop site) (hcode : site.inCode = true)
    (hname : IsName site.name.toList) :
    (∀ b ∈ ((utf8 source).drop stop).head?, isWordByte b = false) ∧
      (Delimited (utf8 source) start stop ↔ ¬ FlagsEnd source start) ∧
      (FlagsEnd source start → site.name.toList.head? = some '_' ∨
        site.name.toList.head? = some '$') := by
  obtain ⟨fs, gs, hf, rfl, rfl⟩ := occurs_iff.1 h
  have hcut := wellCut_tokens .start source
  rw [fragmentsOf_eq_placed] at hf
  obtain ⟨xs, p, ys, t, hps, hp, hlead⟩ := held_of_placed hcut.text_ne_nil hf
  cases hp with
  | content => cases hcode
  | word hw hd hne =>
    have htoken : tokensOf source = xs ++ p :: ys := hps
    have hsource : source = textOf xs ++ p.text ++ textOf ys := by
      have := textOf_tokens .start source
      rw [hps, textOf_append, textOf_cons, ← List.append_assoc] at this
      exact this.symm
    have hbehind : ∀ c ∈ (textOf ys).head?, isWord c = false := by
      rw [hps] at hcut
      exact hcut.of_append.next hw
    rw [hlead, List.append_nil, String.toList_ofList, ← byteLength_append, flagsEnd_iff htoken hw]
    have hdelimited := delimited_utf8_iff (a := textOf xs) (w := p.text) (b := textOf ys)
    rw [← hsource] at hdelimited
    refine ⟨?_, ?_, fun hflags => ?_⟩
    · have hhead := head?_utf8 (textOf ys)
      intro b hb
      rw [hsource, drop_utf8_append] at hb
      rw [Option.mem_def.1 hb, Option.map_some, eq_comm, Option.map_eq_some_iff] at hhead
      obtain ⟨c, hc, hcb⟩ := hhead
      rw [← hcb]
      exact hbehind c hc
    · rw [hdelimited, and_iff_left hbehind]
      simp
    · obtain ⟨c, r, hc, hstart⟩ := hname.head
      rw [String.toList_ofList] at hc
      have hflag : c.isAlpha = false :=
        not_isFlag_of_flagsEnd htoken hw ((flagsEnd_iff htoken hw).2 hflags) c (by rw [hc]; rfl)
      simp only [startsName, isIdentifier, Char.isAlphanum, hflag, Bool.false_or, Bool.and_eq_true,
        Bool.or_eq_true, beq_iff_eq, Bool.not_eq_true'] at hstart
      obtain ⟨(hdigit | hc') | hc', hnot⟩ := hstart
      · rw [hnot] at hdigit
        cases hdigit
      · exact .inl (by rw [hc, hc']; rfl)
      · exact .inr (by rw [hc, hc']; rfl)

/-- **Renamed words are delimited** in the source, unless a regular expression with flags ends in
front of them. Behind one the name starts with an underscore or a dollar. -/
theorem delimited_iff {rules : List Rule} {extra : List String} {set : RuleSet}
    (hset : RuleSet.ofRules rules extra = .ok set) (guarded : List String) (source : String) :
    ∃ edits, Rewrites set.rules guarded source (rename set.rules guarded source) edits ∧
      ∀ e ∈ edits, ∀ site, Occurs source.toList e.start e.stop site → site.inCode = true →
        (∀ b ∈ ((utf8 source.toList).drop e.stop).head?, isWordByte b = false) ∧
        (Delimited (utf8 source.toList) e.start e.stop ↔ ¬ FlagsEnd source.toList e.start) ∧
        (FlagsEnd source.toList e.start → site.name.toList.head? = some '_' ∨
          site.name.toList.head? = some '$') := by
  obtain ⟨hfit, rfl⟩ := RuleSet.ofRules_eq_ok_iff.1 hset
  refine ⟨_, rewrites_editsOf rules guarded source, fun e he site hs hcode => ?_⟩
  obtain ⟨site', r, hs', -, hr⟩ := mem_editsOf_iff.1 he
  obtain rfl := hs'.unique hs
  obtain ⟨-, -, hold, -⟩ := Rule.unfit?_eq_none_iff.1 (hfit r (List.mem_of_getElem? hr.1.1))
  -- a rule for the contents of strings applies to no word of the code
  have hscope : r.scope ≠ .stringLiteral := by
    intro hscope
    have hadm := hr.1.2.2
    simp [hscope, Scope.admits, hcode] at hadm
  have hname := Scope.isName_of_unfit? hold hscope
  rw [hr.1.2.1] at hname
  exact delimited_of_occurs hs hcode hname

/-- A name of its own and the end of a longer one behind flags. -/
theorem delimited_iff_quotient : ∃ set, RuleSet.ofRules [⟨"_id", "key", .identifier⟩] [] = .ok set ∧
    (rename set.rules set.guarded "_id + x++ /y/g_id").occurrences = 2 ∧ ∃ edits,
      Rewrites set.rules set.guarded "_id + x++ /y/g_id"
        (rename set.rules set.guarded "_id + x++ /y/g_id") edits ∧
      ∀ e ∈ edits, ∀ site, Occurs "_id + x++ /y/g_id".toList e.start e.stop site →
        site.inCode = true →
        (∀ b ∈ ((utf8 "_id + x++ /y/g_id".toList).drop e.stop).head?, isWordByte b = false) ∧
        (Delimited (utf8 "_id + x++ /y/g_id".toList) e.start e.stop ↔
          ¬ FlagsEnd "_id + x++ /y/g_id".toList e.start) ∧
        (FlagsEnd "_id + x++ /y/g_id".toList e.start → site.name.toList.head? = some '_' ∨
          site.name.toList.head? = some '$') := by
  have hset : RuleSet.ofRules [⟨"_id", "key", .identifier⟩] [] =
      .ok { rules := [⟨"_id", "key", .identifier⟩], extra := [] } := rfl
  exact ⟨_, hset, by decide +kernel, delimited_iff hset _ _⟩

/-- A quotient whose second slash is taken for the end of a regular expression: its divisor is read
as a flag, and what is left of the name behind it is renamed as a word of its own. -/
theorem not_delimited_flags : ∃ set, RuleSet.ofRules [⟨"_id", "key", .identifier⟩] [] = .ok set ∧
    ¬ ∃ edits, Rewrites set.rules set.guarded "x++ /y/g_id"
        (rename set.rules set.guarded "x++ /y/g_id") edits ∧
      ∀ e ∈ edits, ∀ site, Occurs "x++ /y/g_id".toList e.start e.stop site → site.inCode = true →
        Delimited (utf8 "x++ /y/g_id".toList) e.start e.stop := by
  have hset : RuleSet.ofRules [⟨"_id", "key", .identifier⟩] [] =
      .ok { rules := [⟨"_id", "key", .identifier⟩], extra := [] } := rfl
  refine ⟨_, hset, ?_⟩
  rintro ⟨edits, hedits, h⟩
  have hmem : ⟨8, 11, 0⟩ ∈ editsOf [⟨"_id", "key", .identifier⟩]
      ({ rules := [⟨"_id", "key", .identifier⟩], extra := [] } : RuleSet).guarded
      "x++ /y/g_id" := by
    decide +kernel
  obtain ⟨site, r, hs, hg, hr⟩ := mem_editsOf_iff.1 hmem
  have hcode : site.inCode = true := by
    obtain rfl : _ = r := Option.some.inj hr.1.1
    exact hr.1.2.2
  have hfront := (h _ ((hedits.mem_iff _).2 ⟨site, r, hs, hg, hr⟩) site hs hcode).front 0x67
    (by decide)
  exact absurd hfront (by decide)

end Renaming
