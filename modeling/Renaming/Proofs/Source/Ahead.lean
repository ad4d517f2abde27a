import Renaming.Proofs.Source.Alike

/-!
Comments and literals in front of another text. A comment or a literal is read again when other
text follows it (`lineComment_append` and its like), and a closed string when its content is
another one (`quoted_content` and `template_content`). `Ahead` says what is asked of the other text.
-/

namespace Renaming.Source

/-! ### Comments and literals in front of another text -/

/-- Where the first text ends, or its line does, the second one does too. -/
structure SameEnd (y y' : List Char) : Prop where
  nil : y = [] → y' = []
  line : y.head? = some '\n' → y'.head? = some '\n'

theorem Alike.sameEnd {F : List Char → List Char → Prop} {y y' : List Char} (h : Alike F y y') :
    SameEnd y y' where
  nil := by
    rintro rfl
    exact h.eq_nil
  line hy := h.head_eq hy (by decide)

/-- What is read ahead in the first text is read ahead in the second one too: a token in front of
them ends at the same place. -/
structure Ahead (y y' : List Char) : Prop where
  sameEnd : SameEnd y y'
  /-- No comment opens where none did. -/
  head : ∀ c ∈ ['/', '*'], y.head? ≠ some c → y'.head? ≠ some c
  /-- No regular expression ends where none did. -/
  regex : regex false false y = none → regex false false y' = none

theorem Alike.ahead {y y' : List Char} (h : Alike KeepsFrame y y') : Ahead y y' where
  sameEnd := h.sameEnd
  head c hc hy := by
    have hs : startsName c = false := by
      simp only [List.mem_cons, List.not_mem_nil, or_false] at hc
      rcases hc with rfl | rfl <;> decide
    exact h.head_ne hs hy
  regex hy := by
    rw [← Option.not_isSome_iff_eq_none]
    intro hsome
    have := h.isSome_regex (e := false) (k := false) id hsome
    rw [hy] at this
    cases this

theorem lineComment_append {u y' : List Char} (h : SameEnd (lineComment u).rest y') :
    lineComment ((lineComment u).text ++ y') = ⟨(lineComment u).text, y'⟩ := by
  induction u with
  | nil =>
    obtain rfl := h.nil rfl
    rfl
  | cons c u ih =>
    have hcons : ∀ r, lineComment (c :: r) =
        if c = '\n' then ⟨[], c :: r⟩ else (lineComment r).push c := fun _ => rfl
    rw [hcons] at h ⊢
    by_cases hc : c = '\n'
    · subst hc
      obtain ⟨r, rfl⟩ := List.head?_eq_some_iff.1 (h.line rfl)
      rfl
    · rw [if_neg hc] at h ⊢
      rw [Cut.text_push, List.cons_append, hcons, if_neg hc, ih h]
      rfl

theorem blockComment_append {u y' : List Char} (h : (blockComment u).rest = [] → y' = []) :
    blockComment ((blockComment u).text ++ y') = ⟨(blockComment u).text, y'⟩ := by
  fun_induction blockComment u with
  | case1 =>
    obtain rfl := h rfl
    rfl
  | case2 r => rfl
  | case3 c r hne ih =>
    have hr := whole_blockComment r
    rw [Cut.text_push, List.cons_append, blockComment, ih h]
    · rfl
    · -- the text behind the character starts as it did
      rintro u rfl hu
      cases hs : (blockComment r).text with
      | cons d t =>
        rw [hs, List.cons_append] at hu
        rw [Cut.whole, hs, List.cons_append, (List.cons.inj hu).1] at hr
        exact hne _ rfl hr.symm
      | nil =>
        rw [hs, List.nil_append] at hu
        cases hrest : (blockComment r).rest with
        | nil =>
          rw [h hrest] at hu
          cases hu
        | cons d t =>
          have := getLast?_blockComment (r := r) (by simp [hrest])
          rw [hs] at this
          cases this

theorem quoted_append {q : Char} {e : Bool} {u y' : List Char} (h : SameEnd (quoted q e u).rest y') :
    quoted q e ((quoted q e u).text ++ y') = ⟨(quoted q e u).text, y'⟩ := by
  fun_induction quoted q e u with
  | case1 e =>
    obtain rfl := h.nil rfl
    cases e <;> rfl
  | case2 c r ih => rw [Cut.text_push, List.cons_append, quoted, ih h]; rfl
  | case3 r ih => rw [Cut.text_push, List.cons_append, quoted, if_pos rfl, ih h]; rfl
  | case4 r =>
    obtain ⟨t, ht⟩ := List.head?_eq_some_iff.1 (h.line rfl)
    rw [ht, List.nil_append, quoted]
    rfl
  | case5 r h1 h2 => simp [quoted, h1, h2]
  | case6 c r h1 h2 h3 ih =>
    rw [Cut.text_push, List.cons_append, quoted, if_neg h1, if_neg h2, if_neg h3, ih h]
    rfl

theorem template_append {e : Bool} {u y' : List Char} (h : (template e u).1.rest = [] → y' = []) :
    template e ((template e u).1.text ++ y') = (⟨(template e u).1.text, y'⟩, (template e u).2) := by
  fun_induction template e u with
  | case1 e =>
    obtain rfl := h rfl
    cases e <;> rfl
  | case2 c r s b hs ih =>
    rw [hs] at ih
    have hr : template false (s.text ++ y') = (⟨s.text, y'⟩, b) := ih h
    rw [Cut.text_push, List.cons_append, template, hr]
    rfl
  | case3 r s b hs ih =>
    rw [hs] at ih
    have hr : template true (s.text ++ y') = (⟨s.text, y'⟩, b) := ih h
    rw [Cut.text_push, List.cons_append, template, if_pos rfl, hr]
    · rfl
    · exact fun u h _ => absurd h (by decide)
  | case4 r h1 => rfl
  | case5 u h1 h2 => rfl
  | case6 c r hne s b hs h1 h2 ih =>
    rw [hs] at ih
    have hr : template false (s.text ++ y') = (⟨s.text, y'⟩, b) := ih h
    rw [Cut.text_push, List.cons_append, template, if_neg h1, if_neg h2, hr]
    · rfl
    · -- the text behind the character starts as it did
      rintro u rfl hu
      have hwhole := whole_template false r
      obtain ⟨hl, hl'⟩ := getLast?_template false r
      rw [hs] at hwhole hl hl'
      cases ht : s.text with
      | cons d t =>
        rw [ht, List.cons_append] at hu
        rw [Cut.whole, ht, List.cons_append, (List.cons.inj hu).1] at hwhole
        exact hne _ rfl hwhole.symm
      | nil =>
        simp only [ht, List.getLast?_nil, reduceCtorEq, imp_false, Bool.not_eq_true,
          Decidable.not_not] at hl hl'
        rw [ht, List.nil_append, h (hl' hl)] at hu
        cases hu

/-- A regular expression takes the letters that follow it. -/
theorem regex_append {e k : Bool} {u : List Char} {cut : Cut} (hcut : regex e k u = some cut)
    (y : List Char) :
    regex e k (cut.text ++ y) = some ⟨cut.text ++ y.takeWhile isFlag, y.dropWhile isFlag⟩ := by
  fun_induction regex e k u generalizing cut with
  | case1 => simp at hcut
  | case2 k c r ih =>
    obtain ⟨t, ht, rfl⟩ := Option.map_eq_some_iff.1 hcut
    rw [Cut.text_push, List.cons_append, regex, ih ht]
    rfl
  | case3 k r ih =>
    obtain ⟨t, ht, rfl⟩ := Option.map_eq_some_iff.1 hcut
    rw [Cut.text_push, List.cons_append, regex, if_pos rfl, ih ht]
    rfl
  | case4 => simp at hcut
  | case5 k r _ _ ih =>
    obtain ⟨t, ht, rfl⟩ := Option.map_eq_some_iff.1 hcut
    rw [Cut.text_push, List.cons_append, regex]
    simp [ih ht, Cut.push]
  | case6 k r _ _ _ ih =>
    obtain ⟨t, ht, rfl⟩ := Option.map_eq_some_iff.1 hcut
    rw [Cut.text_push, List.cons_append, regex]
    simp [ih ht, Cut.push]
  | case7 k c r h1 h2 h3 h4 h5 =>
    obtain rfl := Option.some.inj hcut
    have hflags : ∀ d ∈ r.takeWhile isFlag, isFlag d = true :=
      fun d hd => List.all_eq_true.1 List.all_takeWhile d hd
    rw [List.cons_append, regex, if_neg h1, if_neg h2, if_neg h3, if_neg h4, if_pos h5,
      List.takeWhile_append_of_pos hflags, List.dropWhile_append_of_pos hflags]
    rfl
  | case8 k c r h1 h2 h3 h4 h5 ih =>
    obtain ⟨t, ht, rfl⟩ := Option.map_eq_some_iff.1 hcut
    rw [Cut.text_push, List.cons_append, regex, if_neg h1, if_neg h2, if_neg h3, if_neg h4,
      if_neg h5, ih ht]
    rfl

/-! ### Other contents -/

theorem ne_of_needsEscape {c d : Char} (h : needsEscape c = false) (hd : needsEscape d = true) :
    c ≠ d := by
  rintro rfl
  rw [h] at hd
  cases hd

/-- A string goes on behind a text that neither ends it nor escapes anything. -/
theorem quoted_plain {q : Char} {m : List Char} (hq : needsEscape q = true)
    (hm : ∀ c ∈ m, needsEscape c = false) (y : List Char) :
    quoted q false (m ++ y) = ⟨m ++ (quoted q false y).text, (quoted q false y).rest⟩ := by
  induction m with
  | nil => rfl
  | cons c m ih =>
    have hc := hm c (List.mem_cons_self ..)
    rw [List.cons_append, quoted, if_neg (ne_of_needsEscape hc (by decide)),
      if_neg (ne_of_needsEscape hc (by decide)), if_neg (ne_of_needsEscape hc hq),
      ih fun d hd => hm d (List.mem_cons_of_mem _ hd)]
    rfl

theorem quoted_content {q : Char} {m : List Char} (hq : isQuote q = true)
    (hm : ∀ c ∈ m, needsEscape c = false) (y : List Char) :
    quoted q false (m ++ q :: y) = ⟨m ++ [q], y⟩ := by
  rw [quoted_plain (by simp [needsEscape, hq]) hm]
  simp only [isQuote, Bool.or_eq_true, beq_iff_eq] at hq
  rcases hq with (rfl | rfl) | rfl <;> simp [quoted]

theorem template_content {m : List Char} (hm : ∀ c ∈ m, needsEscape c = false)
    (hs : ¬ ['$', '{'] <:+: m) (y : List Char) :
    template false (m ++ '\x60' :: y) = (⟨m ++ ['\x60'], y⟩, false) := by
  induction m with
  | nil => simp [template]
  | cons c m ih =>
    have hc := hm c (List.mem_cons_self ..)
    have hs' : ¬ ['$', '{'] <:+: m := fun h => hs (h.trans (List.suffix_cons c m).isInfix)
    rw [List.cons_append, template, if_neg (ne_of_needsEscape hc (by decide)),
      if_neg (ne_of_needsEscape hc (by decide)), ih (fun d hd => hm d (List.mem_cons_of_mem _ hd)) hs']
    · rfl
    · rintro u rfl hu
      rcases m with _ | ⟨d, m⟩
      · simp at hu
      · rw [List.cons_append, List.cons.injEq] at hu
        obtain ⟨rfl, -⟩ := hu
        exact hs ⟨[], m, rfl⟩

/-- A content that opens a substitution ends the piece of the template. -/
theorem template_opens {m : List Char} (hm : ∀ c ∈ m, needsEscape c = false)
    (hs : ['$', '{'] <:+: m) (y : List Char) : (template false (m ++ y)).2 = true := by
  induction m with
  | nil => simp at hs
  | cons c m ih =>
    have hc := hm c (List.mem_cons_self ..)
    by_cases hopen : ∃ u, c :: m = '$' :: '{' :: u
    · obtain ⟨u, hu⟩ := hopen
      rw [hu]
      rfl
    · have hrest : ['$', '{'] <:+: m := by
        rcases List.infix_cons_iff.1 hs with ⟨u, hu⟩ | hrest
        · exact absurd ⟨u, hu.symm⟩ hopen
        · exact hrest
      rw [List.cons_append, template, if_neg (ne_of_needsEscape hc (by decide)),
        if_neg (ne_of_needsEscape hc (by decide))]
      · exact ih (fun d hd => hm d (List.mem_cons_of_mem _ hd)) hrest
      · rintro u rfl hu
        rcases m with _ | ⟨d, m⟩
        · simp at hrest
        · rw [List.cons_append, List.cons.injEq] at hu
          obtain ⟨rfl, -⟩ := hu
          exact hopen ⟨m, rfl⟩

end Renaming.Source
