import Renaming.Proofs.Source.Token

/-!
Texts that differ in names only. `Alike` relates two texts where some names of the code and some
contents of strings are others. What is read ahead in such texts is the same.

* `Alike.isSome_regex`: a regular expression that starts here ends in the second text only if it ends
  in the first.
* `Alike.colonFollows` and `Alike.assignmentFollows`: so it is with the tests of what follows a
  place.
-/

namespace Renaming.Source

open Renaming.Text (isBlank)

/-! ### Names and frames -/

/-- The characters that a name can start with. -/
def startsName (c : Char) : Bool := isIdentifier c && !c.isDigit

/-- A text that is an identifier from its first character to its last. -/
structure IsName (w : List Char) : Prop where
  head : ∃ c t, w = c :: t ∧ startsName c = true
  isIdentifier : ∀ c ∈ w, isIdentifier c = true

theorem isName_iff {name : String} : isIdentifierName name = true ↔ IsName name.toList := by
  unfold isIdentifierName
  constructor
  · intro h
    cases ht : name.toList with
    | nil => simp [ht] at h
    | cons c t =>
      simp only [ht, Bool.and_eq_true] at h
      exact ⟨⟨c, t, rfl, by simp [startsName, h.1.1, h.1.2]⟩,
        List.forall_mem_cons.2 ⟨h.1.1, List.all_eq_true.1 h.2⟩⟩
  · rintro ⟨⟨c, t, ht, hc⟩, hall⟩
    simp only [startsName, Bool.and_eq_true] at hc
    rw [ht] at hall
    simpa [ht, hc.1, hc.2] using fun d hd => hall d (List.mem_cons_of_mem _ hd)

theorem isIdentifier_of_startsName {c : Char} (h : startsName c = true) : isIdentifier c = true := by
  simp only [startsName, Bool.and_eq_true] at h
  exact h.1

theorem isWord_of_isIdentifier {c : Char} (h : isIdentifier c = true) : isWord c = true := by
  simp [isWord, h]

theorem isIdentifier_of_not_isWord {c : Char} (h : isWord c = false) : isIdentifier c = false := by
  rw [Bool.eq_false_iff]
  intro hi
  rw [isWord_of_isIdentifier hi] at h
  cases h

theorem isWord_of_startsName {c : Char} (h : startsName c = true) : isWord c = true :=
  isWord_of_isIdentifier (isIdentifier_of_startsName h)

theorem ne_of_isWord {c d : Char} (h : isWord c = true) (hd : isWord d = false) : c ≠ d := by
  rintro rfl
  rw [h] at hd
  cases hd

theorem IsName.isWord {w : List Char} (h : IsName w) : ∀ c ∈ w, isWord c = true :=
  fun c hc => isWord_of_isIdentifier (h.isIdentifier c hc)

theorem IsName.ne_nil {w : List Char} (h : IsName w) : w ≠ [] := by
  obtain ⟨c, t, rfl, -⟩ := h.head
  simp

/-- The characters that a string cannot hold without an escape. -/
def needsEscape (c : Char) : Bool := isQuote c || c == '\\' || c == '\n'

/-- Whether the reader of a regular expression is in a class of characters behind the text, unless
the expression has ended in it. -/
def sweep : (inClass : Bool) → List Char → Option Bool
  | k, [] => some k
  | k, c :: m =>
    if c = '[' then sweep true m
    else if c = ']' then sweep false m
    else if c = '/' && !k then none
    else sweep k m

/-- Where a regular expression does not end in the first text it does not end in the second, which
leaves no class of characters that the first one stays in. -/
def Shelters (m m' : List Char) : Prop :=
  ∀ k b, sweep k m = some b → ∃ b', sweep k m' = some b' ∧ (b = true → b' = true)

/-- Two contents of a string, of which the second one ends no regular expression that the first
one does not end. -/
structure KeepsFrame (m m' : List Char) : Prop where
  plain : ∀ c ∈ m, needsEscape c = false
  plain' : ∀ c ∈ m', needsEscape c = false
  shelters : Shelters m m'

theorem needsEscape_of_isIdentifier {c : Char} (h : isIdentifier c = true) :
    needsEscape c = false := by
  rw [Bool.eq_false_iff]
  intro hf
  simp only [needsEscape, isQuote, Bool.or_eq_true, beq_iff_eq] at hf
  rcases hf with (((rfl | rfl) | rfl) | rfl) | rfl <;> revert h <;> decide

/-- A name neither ends a regular expression nor leaves a class of characters. -/
theorem sweep_of_isIdentifier {w : List Char} (h : ∀ c ∈ w, isIdentifier c = true) (k : Bool) :
    sweep k w = some k := by
  induction w with
  | nil => rfl
  | cons c w ih =>
    have hne : ∀ d, isIdentifier d = false → c ≠ d := by
      rintro d hd rfl
      rw [h c (List.mem_cons_self ..)] at hd
      cases hd
    rw [sweep, if_neg (hne _ (by decide)), if_neg (hne _ (by decide)),
      if_neg (by simp [hne '/' (by decide)]), ih fun d hd => h d (List.mem_cons_of_mem _ hd)]

theorem keepsFrame_of_isIdentifier {w w' : List Char} (h : ∀ c ∈ w, isIdentifier c = true)
    (h' : ∀ c ∈ w', isIdentifier c = true) : KeepsFrame w w' where
  plain c hc := needsEscape_of_isIdentifier (h c hc)
  plain' c hc := needsEscape_of_isIdentifier (h' c hc)
  shelters k b hb := by
    rw [sweep_of_isIdentifier h, Option.some.injEq] at hb
    exact ⟨k, sweep_of_isIdentifier h' k, by simp [hb]⟩

/-- Inside a class of characters a text ends no regular expression that it does not end outside. -/
theorem sweep_mono {m : List Char} {k k' b : Bool} (hk : k = true → k' = true)
    (h : sweep k m = some b) : ∃ b', sweep k' m = some b' ∧ (b = true → b' = true) := by
  induction m generalizing k k' with
  | nil =>
    obtain rfl := Option.some.inj h
    exact ⟨k', rfl, hk⟩
  | cons c m ih =>
    rw [sweep] at h ⊢
    split at h
    · next hc => simpa [hc] using ih id h
    · next hc =>
      split at h
      · next hc' => simpa [hc'] using ih id h
      · next hc' =>
        split at h
        · cases h
        · next hs =>
          obtain ⟨b', hb', hle⟩ := ih hk h
          refine ⟨b', ?_, hle⟩
          have hs' : ¬ (c == '/' && !k') = true := by
            cases k <;> cases k' <;> simp_all
          rw [if_neg hc, if_neg hc', if_neg (by simpa using hs'), hb']

/-! ### Texts that differ in names -/

/-- Two texts that differ in names of the code and in contents of strings only. What the contents
have to do with each other is said by `F`. -/
inductive Alike (F : List Char → List Char → Prop) : List Char → List Char → Prop
  | nil : Alike F [] []
  | same (c : Char) {y y' : List Char} : Alike F y y' → Alike F (c :: y) (c :: y')
  | word {w w' y y' : List Char} : IsName w → IsName w' → Alike F y y' →
    Alike F (w ++ y) (w' ++ y')
  | content {q : Char} {m m' y y' : List Char} : isQuote q = true → F m m' → Alike F y y' →
    Alike F (q :: (m ++ y)) (q :: (m' ++ y'))

namespace Alike

variable {F : List Char → List Char → Prop}

theorem symm {y y' : List Char} (h : Alike F y y') : Alike (fun m m' => F m' m) y' y := by
  induction h with
  | nil => exact .nil
  | same c _ ih => exact .same c ih
  | word hw hw' _ ih => exact .word hw' hw ih
  | content hq hm _ ih => exact .content hq hm ih

theorem append (t : List Char) {y y' : List Char} (h : Alike F y y') :
    Alike F (t ++ y) (t ++ y') := by
  induction t with
  | nil => exact h
  | cons c t ih => exact .same c ih

/-- Both texts start with the same character, or each of them with a name. -/
theorem head_cases {y y' : List Char} (h : Alike F y y') : y.head? = y'.head? ∨
    ∃ c c', y.head? = some c ∧ y'.head? = some c' ∧ startsName c = true ∧ startsName c' = true := by
  cases h with
  | nil => exact .inl rfl
  | same => exact .inl rfl
  | word hw hw' =>
    obtain ⟨c, t, rfl, hc⟩ := hw.head
    obtain ⟨c', t', rfl, hc'⟩ := hw'.head
    exact .inr ⟨c, c', rfl, rfl, hc, hc'⟩
  | content => exact .inl rfl

theorem head_eq {y y' : List Char} (h : Alike F y y') {c : Char} (hc : y.head? = some c)
    (hs : startsName c = false) : y'.head? = some c := by
  rcases h.head_cases with he | ⟨d, d', hd, -, hs', -⟩
  · rw [← he, hc]
  · rw [hc, Option.some.injEq] at hd
    rw [← hd, hs] at hs'
    cases hs'

theorem eq_nil {y' : List Char} (h : Alike F [] y') : y' = [] := by
  rcases h.head_cases with he | ⟨d, d', hd, -⟩
  · exact List.head?_eq_none_iff.1 he.symm
  · cases hd

/-- What follows a mark is alike when the texts are. -/
theorem tail {c : Char} {y z : List Char} (h : Alike F (c :: y) z) (hs : startsName c = false)
    (hq : isQuote c = false) : ∃ z', z = c :: z' ∧ Alike F y z' := by
  generalize hx : c :: y = x at h
  cases h with
  | nil => cases hx
  | same d h =>
    obtain ⟨rfl, rfl⟩ := List.cons.inj hx
    exact ⟨_, rfl, h⟩
  | word hw =>
    obtain ⟨d, t, rfl, hd⟩ := hw.head
    obtain ⟨rfl, -⟩ := List.cons.inj hx
    rw [hs] at hd
    cases hd
  | content hq' =>
    obtain ⟨rfl, -⟩ := List.cons.inj hx
    rw [hq] at hq'
    cases hq'

end Alike

/-! ### Regular expressions ahead -/

theorem isSome_regex_append {m : List Char} (hm : ∀ c ∈ m, needsEscape c = false) (k : Bool)
    (r : List Char) : (regex false k (m ++ r)).isSome =
      match sweep k m with
      | none => true
      | some k' => (regex false k' r).isSome := by
  induction m generalizing k with
  | nil => rfl
  | cons c m ih =>
    have hc := hm c (List.mem_cons_self ..)
    have h1 : c ≠ '\\' := by rintro rfl; cases hc
    have h2 : c ≠ '\n' := by rintro rfl; cases hc
    have ih := fun k => ih (fun d hd => hm d (List.mem_cons_of_mem _ hd)) k
    rw [List.cons_append, regex, sweep]
    simp only [h1, h2, if_false]
    split
    · rw [Option.isSome_map, ih]
    · split
      · rw [Option.isSome_map, ih]
      · split
        · rfl
        · rw [Option.isSome_map, ih]

theorem isSome_regex_name {w : List Char} (hw : ∀ c ∈ w, isIdentifier c = true) (k : Bool)
    (r : List Char) : (regex false k (w ++ r)).isSome = (regex false k r).isSome := by
  rw [isSome_regex_append fun c hc => needsEscape_of_isIdentifier (hw c hc),
    sweep_of_isIdentifier hw]

/-- **Regular expressions ahead.** One that ends in the second of two texts that are alike ends in
the first one too, also when only the second text starts in a class of characters. -/
theorem Alike.isSome_regex {y y' : List Char} (h : Alike KeepsFrame y y') {e k k' : Bool}
    (hk : k = true → k' = true) (hs : (regex e k' y').isSome = true) :
    (regex e k y).isSome = true := by
  induction h generalizing e k k' with
  | nil => cases e <;> cases hs
  | same c _ ih =>
    cases e with
    | true =>
      simp only [regex, Option.isSome_map] at hs ⊢
      exact ih hk hs
    | false =>
      simp only [regex] at hs ⊢
      split
      · next h1 => simpa [h1] using ih hk (by simpa [h1] using hs)
      · next h1 =>
        split
        · next h2 => simp [h2] at hs
        · next h2 =>
          split
          · next h3 => simpa using ih id (by simpa [h3] using hs)
          · next h3 =>
            split
            · next h4 => simpa using ih id (by simpa [h4] using hs)
            · next h4 =>
              split
              · rfl
              · next h5 =>
                -- the slash is in a class in both texts, or it is none
                have h5' : ¬ (c == '/' && !k') = true := by
                  cases k <;> cases k' <;> simp_all
                rw [if_neg h1, if_neg h2, if_neg h3, if_neg h4, if_neg (by simpa using h5'),
                  Option.isSome_map] at hs
                rw [Option.isSome_map]
                exact ih hk hs
  | @word w w' y y' hw hw' _ ih =>
    cases e with
    | true =>
      -- a backslash stands before the names and takes the first character of each
      obtain ⟨c, t, rfl, -⟩ := hw.head
      obtain ⟨c', t', rfl, -⟩ := hw'.head
      simp only [List.cons_append, regex, Option.isSome_map] at hs ⊢
      rw [isSome_regex_name fun d hd => hw'.isIdentifier d (List.mem_cons_of_mem _ hd)] at hs
      rw [isSome_regex_name fun d hd => hw.isIdentifier d (List.mem_cons_of_mem _ hd)]
      exact ih hk hs
    | false =>
      rw [isSome_regex_name hw'.isIdentifier] at hs
      rw [isSome_regex_name hw.isIdentifier]
      exact ih hk hs
  | @content q m m' y y' hq hm _ ih =>
    have hquote : ∀ k r, (regex e k (q :: r)).isSome = (regex false k r).isSome := by
      intro k r
      simp only [isQuote, Bool.or_eq_true, beq_iff_eq] at hq
      rcases hq with (rfl | rfl) | rfl <;> cases e <;> simp [regex]
    rw [hquote, isSome_regex_append hm.plain'] at hs
    rw [hquote, isSome_regex_append hm.plain]
    cases hb : sweep k m with
    | none => rfl
    | some b =>
      obtain ⟨b', hb', hle⟩ := hm.shelters k b hb
      obtain ⟨b'', hb'', hle'⟩ := sweep_mono hk hb'
      rw [hb''] at hs
      exact ih (fun h => hle' (hle h)) hs

/-! ### What follows a place -/

theorem isBlank_of_isQuote {c : Char} (h : isQuote c = true) : isBlank c = false := by
  simp only [isQuote, Bool.or_eq_true, beq_iff_eq] at h
  rcases h with (rfl | rfl) | rfl <;> decide

/-- Whether a mark follows that separates a name from its value. -/
def Separates (after : List Char) : Prop :=
  ∃ c ∈ (skipBlanks after).head?, c = ':' ∨ c = '?' ∨ c = '='

theorem separates_of_colonFollows {after : List Char} (h : colonFollows after = true) :
    Separates after := by
  unfold colonFollows at h
  split at h
  · next hs => exact ⟨':', by rw [hs]; rfl, .inl rfl⟩
  · next hs => exact ⟨'?', by rw [hs]; rfl, .inr (.inl rfl)⟩
  · cases h

theorem separates_of_assignmentFollows {after : List Char} (h : assignmentFollows after = true) :
    Separates after := by
  unfold assignmentFollows at h
  split at h
  · next hs => exact ⟨'=', by rw [hs]; rfl, .inr (.inr rfl)⟩
  · cases h

theorem not_separates_of_ne {c : Char} {r : List Char} (hb : isBlank c = false)
    (hc : c ∉ [':', '?', '=']) : ¬ Separates (c :: r) := by
  rintro ⟨d, hd, hsep⟩
  rw [skipBlanks, List.dropWhile_cons_of_neg (by simp [hb])] at hd
  obtain rfl : c = d := by simpa using hd
  exact hc (by simpa using hsep)

theorem not_separates_of_isWord {c : Char} {r : List Char} (h : isWord c = true) :
    ¬ Separates (c :: r) := by
  refine not_separates_of_ne (isBlank_of_isWord h) fun hc => ?_
  simp only [List.mem_cons, List.not_mem_nil, or_false] at hc
  rcases hc with rfl | rfl | rfl <;> revert h <;> decide

namespace Alike

variable {F : List Char → List Char → Prop}

theorem skipBlanks {y y' : List Char} (h : Alike F y y') :
    Alike F (skipBlanks y) (skipBlanks y') := by
  have hpos : ∀ {c : Char} (r : List Char), isBlank c = false → Source.skipBlanks (c :: r) = c :: r :=
    fun r hc => List.dropWhile_cons_of_neg (by simp [hc])
  induction h with
  | nil => exact .nil
  | same c h ih =>
    by_cases hc : isBlank c = true
    · rw [Source.skipBlanks, Source.skipBlanks, List.dropWhile_cons_of_pos hc,
        List.dropWhile_cons_of_pos hc]
      exact ih
    · rw [Bool.not_eq_true] at hc
      rw [hpos _ hc, hpos _ hc]
      exact .same c h
  | word hw hw' h ih =>
    obtain ⟨c, t, rfl, hc⟩ := hw.head
    obtain ⟨c', t', rfl, hc'⟩ := hw'.head
    have := Alike.word hw hw' h
    rw [List.cons_append, List.cons_append] at this ⊢
    rwa [hpos _ (isBlank_of_isWord (isWord_of_startsName hc)),
      hpos _ (isBlank_of_isWord (isWord_of_startsName hc'))]
  | content hq hm h ih =>
    rw [hpos _ (isBlank_of_isQuote hq), hpos _ (isBlank_of_isQuote hq)]
    exact .content hq hm h

theorem head_ne {y y' : List Char} (h : Alike F y y') {d : Char} (hs : startsName d = false)
    (hd : y.head? ≠ some d) : y'.head? ≠ some d :=
  fun h' => hd (h.symm.head_eq h' hs)

theorem colonFollows_of {y y' : List Char} (h : Alike F y y') (hy : colonFollows y = true) :
    colonFollows y' = true := by
  have hs := h.skipBlanks
  unfold colonFollows at hy ⊢
  split at hy
  · next r hr =>
    rw [hr] at hs
    obtain ⟨r', hr', hrr⟩ := hs.tail (by decide) (by decide)
    rw [hr']
    simpa using hrr.head_ne (by decide) (by simpa using hy)
  · next r hr =>
    rw [hr] at hs
    obtain ⟨r₁, hr₁, h₁⟩ := hs.tail (by decide) (by decide)
    obtain ⟨r₂, rfl, h₂⟩ := h₁.tail (by decide) (by decide)
    rw [hr₁]
    simpa using h₂.head_ne (by decide) (by simpa using hy)
  · cases hy

theorem assignmentFollows_of {y y' : List Char} (h : Alike F y y')
    (hy : assignmentFollows y = true) : assignmentFollows y' = true := by
  have hs := h.skipBlanks
  unfold assignmentFollows at hy ⊢
  split at hy
  · next r hr =>
    rw [hr] at hs
    obtain ⟨r', hr', hrr⟩ := hs.tail (by decide) (by decide)
    rw [hr']
    simp only [Bool.and_eq_true, bne_iff_ne] at hy ⊢
    exact ⟨hrr.head_ne (by decide) hy.1, hrr.head_ne (by decide) hy.2⟩
  · cases hy

/-- **A colon ahead** follows in both of two texts that are alike, or in neither. -/
theorem colonFollows {y y' : List Char} (h : Alike F y y') : colonFollows y = colonFollows y' :=
  Bool.eq_iff_iff.2 ⟨h.colonFollows_of, h.symm.colonFollows_of⟩

/-- **An assignment ahead** follows in both of two texts that are alike, or in neither. -/
theorem assignmentFollows {y y' : List Char} (h : Alike F y y') :
    assignmentFollows y = assignmentFollows y' :=
  Bool.eq_iff_iff.2 ⟨h.assignmentFollows_of, h.symm.assignmentFollows_of⟩

end Alike

end Renaming.Source
