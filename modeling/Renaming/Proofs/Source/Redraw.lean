import Renaming.Proofs.Source.Alike
import Renaming.Proofs.Source.Occurrence

/-!
Sources with new names. `redrawn` gives each place among the tokens of a source the name that a
function has for it; `Safe` asks that these names do not change how the source is read. The names
may change what the tests of declarations say, and `L` relates what they say before and after.

The main statement is `alike_redrawn`: the texts before and after are alike. That the new text is
read as the new tokens is shown in `Renaming.Proofs.Source.Reread`.
-/

namespace Renaming.Source

/-! ### Names that may take the place of others -/

/-- Whether a text starts with a letter, which a regular expression in front of it would take. -/
def startsWithLetter (w : List Char) : Bool := (w.head?.map isFlag).getD false

/-- No word of a list of words of letters holds another character. -/
theorem not_contains_of_mem {words : List String} {w : String} {d : Char}
    (hall : ∀ v ∈ words, v.toList.all isFlag = true) (hd : d ∈ w.toList) (h : isFlag d = false) :
    words.contains w = false := by
  rw [List.contains_eq_mem, decide_eq_false_iff_not]
  intro hw
  rw [List.all_eq_true.1 (hall w hw) d hd] at h
  cases h

/-- Letters that may touch a name in front of it: they are the flags of a regular expression, which
would take a letter of the name too. -/
structure Touches (p w : List Char) : Prop where
  flags : ∀ c ∈ p, isFlag c = true
  apart : p ≠ [] → startsWithLetter w = false

/-- A name behind letters that touch it. -/
def joined (p : List Char) (w : String) : String := String.ofList (p ++ w.toList)

@[simp] theorem joined_nil (w : String) : joined [] w = w := by simp [joined]

/-- A name that starts with no letter is no keyword, whatever touches it. -/
theorem not_mem_joined {words : List String} (hall : ∀ v ∈ words, v.toList.all isFlag = true)
    {w : String} (hw : startsWithLetter w.toList = false) (hne : w.toList ≠ []) (p : List Char) :
    joined p w ∉ words := by
  obtain ⟨c, t, ht⟩ := List.exists_cons_of_ne_nil hne
  have hc : isFlag c = false := by simpa [startsWithLetter, ht] using hw
  have hmem : c ∈ (joined p w).toList := by simp [joined, ht]
  have := not_contains_of_mem hall hmem hc
  simpa using this

/-- Two words that are keywords before a regular expression both or neither, also behind letters
that touch them. What they say as words of declarations is related by `L`. -/
structure Steady (L : Bool → Bool → Prop) (w w' : String) : Prop where
  regex : ∀ p, Touches p w.toList →
    regexKeywords.contains (joined p w') = regexKeywords.contains (joined p w)
  declares : ∀ p, Touches p w.toList →
    L (!declarationKeywords.contains (joined p w)) (!declarationKeywords.contains (joined p w'))
  returns : ∀ p, Touches p w.toList → L (joined p w == "return") (joined p w' == "return")

/-- Nothing touches a name that starts with a letter. -/
theorem Steady.of_letter {L : Bool → Bool → Prop} {w w' : String}
    (hw : startsWithLetter w.toList = true)
    (hr : regexKeywords.contains w' = regexKeywords.contains w)
    (hd : L (!declarationKeywords.contains w) (!declarationKeywords.contains w'))
    (ht : L (w == "return") (w' == "return")) : Steady L w w' := by
  have hnil : ∀ p, Touches p w.toList → p = [] := by
    intro p hp
    refine Decidable.byContradiction fun hne => ?_
    rw [hp.apart hne] at hw
    cases hw
  refine ⟨?_, ?_, ?_⟩
  all_goals
    intro p hp
    rw [hnil p hp, joined_nil, joined_nil]
    assumption

/-- A test of words, of which `R` relates what it says before and after. It sees no difference
between words that hold a character that is no letter. -/
structure WordTest (L R : Bool → Bool → Prop) (P : String → Bool) : Prop where
  refl : ∀ b, R b b
  steady : ∀ {w w'}, Steady L w w' → ∀ p, Touches p w.toList → R (P (joined p w)) (P (joined p w'))
  other : ∀ {v v' : String} {d : Char}, d ∈ v.toList → d ∈ v'.toList → isFlag d = false → P v = P v'

/-- Any run of characters may stand in front of the name: it touches it, or it holds a character
that is no letter. -/
theorem WordTest.joined {L R : Bool → Bool → Prop} {P : String → Bool} (hP : WordTest L R P)
    {w w' : String} (h : Steady L w w') {p : List Char}
    (hp : p ≠ [] → startsWithLetter w.toList = false) :
    R (P (joined p w)) (P (joined p w')) := by
  by_cases hflags : ∀ c ∈ p, isFlag c = true
  · exact hP.steady h p ⟨hflags, hp⟩
  · simp only [Classical.not_forall, Bool.not_eq_true] at hflags
    obtain ⟨d, hd, hd0⟩ := hflags
    have hmem : ∀ v : String, d ∈ (Source.joined p v).toList := by
      intro v
      simp [Source.joined, hd]
    rw [hP.other (hmem w) (hmem w') hd0]
    exact hP.refl _

theorem regex_wordTest (L : Bool → Bool → Prop) :
    WordTest L (fun b b' => b' = b) regexKeywords.contains where
  refl _ := rfl
  steady h := h.regex
  other hd hd' h := by
    rw [not_contains_of_mem (by decide) hd h, not_contains_of_mem (by decide) hd' h]

/-- A name that a place may get. -/
inductive Allowed (L : Bool → Bool → Prop) (s : Site) : String → Prop
  | same : Allowed L s s.name
  /-- A keyword may only come or go in front of a mark that separates it from what follows. -/
  | word {w' : String} : s.inCode = true → IsName s.name.toList → IsName w'.toList →
    (Steady L s.name w' ∨ Separates s.after) → Allowed L s w'
  /-- The content of a string opens no substitution, unless the old one does too. -/
  | content {m' : String} : s.inCode = false → KeepsFrame s.name.toList m'.toList →
    (['$', '{'] <:+: m'.toList → ['$', '{'] <:+: s.name.toList) → Allowed L s m'

/-! ### New names for all places -/

section

variable {L : Bool → Bool → Prop} (ren : Site → String)

/-- The text of a fragment with a new name for its place. -/
def Fragment.redraw : Fragment → List Char
  | kept text => text
  | place site => (ren site).toList

/-- A token with new names for its places. -/
def Piece.redraw (before : List Mark) (after : List Char) (p : Piece) : Piece :=
  ⟨p.kind, (p.fragments before after).flatMap (Fragment.redraw ren)⟩

/-- Tokens that follow the marks `before`, with new names for their places. -/
def redrawn (before : List Mark) : List Piece → List Piece
  | [] => []
  | p :: ps => p.redraw ren before (textOf ps) :: redrawn (p.marks.reverse ++ before) ps

/-- All places among tokens get names that they may get. -/
def Safe (L : Bool → Bool → Prop) (before : List Mark) (ps : List Piece) : Prop :=
  ∀ site, .place site ∈ placed before ps → Allowed L site (ren site)

variable {ren} {before : List Mark} {after : List Char} {p : Piece} {ps : List Piece}

theorem textOf_redrawn : textOf (redrawn ren before ps) =
    (placed before ps).flatMap (Fragment.redraw ren) := by
  induction ps generalizing before with
  | nil => rfl
  | cons p ps ih => rw [redrawn, textOf_cons, placed, List.flatMap_append, ih, Piece.redraw]

/-- The tokens in front of others get their new names on their own, and so do their fragments. -/
theorem exists_redrawn_append (ren : Site → String) (before : List Mark) (xs ys : List Piece) :
    ∃ xs' fs, redrawn ren before (xs ++ ys) = xs' ++ redrawn ren ((marksOf xs).reverse ++ before) ys ∧
      placed before (xs ++ ys) = fs ++ placed ((marksOf xs).reverse ++ before) ys ∧
      fs.flatMap Fragment.text = textOf xs ∧ textOf xs' = fs.flatMap (Fragment.redraw ren) := by
  induction xs generalizing before with
  | nil => exact ⟨[], [], rfl, rfl, rfl, rfl⟩
  | cons x xs ih =>
    obtain ⟨xs', fs, h1, h2, h3, h4⟩ := ih (x.marks.reverse ++ before)
    refine ⟨x.redraw ren before (textOf (xs ++ ys)) :: xs',
      x.fragments before (textOf (xs ++ ys)) ++ fs, ?_, ?_, ?_, ?_⟩
    · rw [List.cons_append, redrawn, h1]
      simp
    · rw [List.cons_append, placed, h2]
      simp
    · rw [List.flatMap_append, flatMap_text_fragments_piece, h3, textOf_cons]
    · rw [textOf_cons, h4, List.flatMap_append]
      rfl

theorem Safe.head (h : Safe ren L before (p :: ps)) :
    ∀ site, .place site ∈ p.fragments before (textOf ps) → Allowed L site (ren site) :=
  fun site hs => h site (List.mem_append_left _ hs)

theorem Safe.tail (h : Safe ren L before (p :: ps)) : Safe ren L (p.marks.reverse ++ before) ps :=
  fun site hs => h site (List.mem_append_right _ hs)

/-! ### The fragments of a token -/

/-- The three kinds of tokens: one without a place, a word that is a place, and a closed string
around a place. -/
inductive Piece.Shape (before : List Mark) (after : List Char) : Piece → List Fragment → Prop
  | kept (p : Piece) : Shape before after p [.kept p.text]
  | word {w : String} : (∀ c ∈ w.toList, Source.isWord c = true) → w.toList ≠ [] →
    (∀ c ∈ w.toList.head?, c.isDigit = false) →
    Shape before after ⟨.code, w.toList⟩ [.place ⟨w, true, before, after⟩]
  | content {q : Char} {m : String} : isQuote q = true →
    Piece.content? ⟨.literal, q :: (m.toList ++ [q])⟩ = some m.toList →
    Shape before after ⟨.literal, q :: (m.toList ++ [q])⟩
      [.kept [q], .place ⟨m, false, before, after⟩, .kept [q]]

theorem Piece.shape (before : List Mark) (after : List Char) (p : Piece) :
    p.Shape before after (p.fragments before after) := by
  obtain ⟨k, t⟩ := p
  unfold Piece.fragments
  split
  · next hw =>
    split
    · exact .kept _
    · next hd =>
      simp only [Piece.isWord, Bool.and_eq_true, beq_iff_eq, List.all_eq_true] at hw
      obtain ⟨rfl, hw⟩ := hw
      have ht : t = (String.ofList t).toList := String.toList_ofList.symm
      generalize String.ofList t = w at ht ⊢
      subst ht
      refine .word hw ?_ ?_
      · intro h0
        simp [h0] at hd
      · intro c hc
        rw [Option.mem_def.1 hc] at hd
        simpa using hd
  · split
    · next m hm =>
      obtain ⟨rfl, q, hq, rfl⟩ := Piece.text_of_content? hm
      have ht : m = (String.ofList m).toList := String.toList_ofList.symm
      rw [ht] at hm
      have hs : Shape before after _ _ := Shape.content hq hm
      rwa [← ht] at hs
    · exact .kept _

/-! ### Redrawn tokens -/

/-- What becomes of a token when its places get names that they may get. -/
inductive Redrawn (L : Bool → Bool → Prop) (after : List Char) : Piece → Piece → Prop
  | same (p : Piece) : Redrawn L after p p
  | word {w w' : String} : IsName w.toList → IsName w'.toList → (Steady L w w' ∨ Separates after) →
    Redrawn L after ⟨.code, w.toList⟩ ⟨.code, w'.toList⟩
  | content {q : Char} {m m' : List Char} : isQuote q = true →
    Piece.content? ⟨.literal, q :: (m ++ [q])⟩ = some m → KeepsFrame m m' →
    (['$', '{'] <:+: m' → ['$', '{'] <:+: m) →
    Redrawn L after ⟨.literal, q :: (m ++ [q])⟩ ⟨.literal, q :: (m' ++ [q])⟩

theorem redrawn_redraw
    (h : ∀ site, .place site ∈ p.fragments before after → Allowed L site (ren site)) :
    Redrawn L after p (p.redraw ren before after) := by
  have hshape := p.shape before after
  unfold Piece.redraw
  generalize p.fragments before after = fs at h hshape
  cases hshape with
  | kept => simpa [Fragment.redraw] using Redrawn.same p
  | @word w hw hne hd =>
    have hsite := h _ (List.mem_singleton_self _)
    simp only [List.flatMap_cons, List.flatMap_nil, List.append_nil, Fragment.redraw]
    generalize ren _ = w' at hsite
    cases hsite with
    | same => exact .same _
    | word _ hn hn' hk => exact .word hn hn' hk
    | content hc => cases hc
  | @content q m hq hm =>
    have hsite := h ⟨m, false, before, after⟩ (by simp)
    simp only [List.flatMap_cons, List.flatMap_nil, List.append_nil, Fragment.redraw,
      List.singleton_append]
    generalize ren _ = m' at hsite
    cases hsite with
    | same => exact .same _
    | word hc => cases hc
    | content _ hf hs => exact .content hq hm hf hs

theorem Redrawn.alike {p' : Piece} (h : Redrawn L after p p') {y y' : List Char}
    (hy : Alike KeepsFrame y y') : Alike KeepsFrame (p.text ++ y) (p'.text ++ y') := by
  cases h with
  | same => exact hy.append _
  | word hw hw' => exact .word hw hw' hy
  | @content q m m' hq _ hf =>
    have := Alike.content hq hf (hy.append [q])
    simpa using this

/-- **The texts before and after are alike.** -/
theorem alike_redrawn (h : Safe ren L before ps) :
    Alike KeepsFrame (textOf ps) (textOf (redrawn ren before ps)) := by
  induction ps generalizing before with
  | nil => exact .nil
  | cons p ps ih => exact (redrawn_redraw h.head).alike (ih h.tail)

end

end Renaming.Source
