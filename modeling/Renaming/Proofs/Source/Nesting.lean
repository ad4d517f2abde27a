import Renaming.Proofs.Source.Form

/-!
The braces of a source and the templates that go on behind some of them. `nesting` lists the braces
that count, in their order: those of the code, the openings of substitutions, and the closing braces
at which a template goes on. `Innermost` says which of the opening ones a closing brace matches, as
brackets are matched; the reader keeps those that are open on a stack.

* `unclosed_eq_cons`: what is on top of the stack is what a closing brace matches.
* `Reads.resumes`: the reader decides by its stack, and keeps it.
* `nesting_closes`: a template goes on behind a closing brace exactly when the brace matches the
  opening of a substitution.
-/

namespace Renaming.Source

/-! ### Braces -/

/-- A brace that counts for the nesting of templates. -/
inductive Bracket
  /-- An opening brace of the code, or the opening of a substitution. -/
  | opens (b : Brace)
  /-- A closing brace outside of strings, comments and regular expressions. It is code, or a literal
  starts with it: the template goes on. -/
  | closes (k : Kind)
  deriving DecidableEq, Repr

/-- A brace of the code. -/
def bracket? (c : Char) : Option Bracket :=
  if c = '{' then some (.opens .block) else if c = '}' then some (.closes .code) else none

/-- The braces of a stretch of the source. A literal has some only if it is a piece of a template:
the brace that it starts with, and the opening of the substitution that it ends with. -/
def brackets : Kind → List Char → List Bracket
  | .code, t => t.filterMap bracket?
  | .comment, _ => []
  | .literal, [] => []
  | .literal, c :: t =>
    if opensPiece c then
      (if c = '}' then [.closes .literal] else []) ++
        (if ['$', '{'] <:+ t then [.opens .substitution] else [])
    else []

/-- The braces of a source, in their order. -/
def nesting (source : String) : List Bracket :=
  (segmentsOf source).flatMap fun s => brackets s.kind ((s.text? source).getD [])

/-- Brackets that are matched with each other, all of them. -/
inductive Balanced : List Bracket → Prop
  | nil : Balanced []
  | nest {b : Brace} {k : Kind} {xs ys : List Bracket} : Balanced xs → Balanced ys →
    Balanced (.opens b :: (xs ++ .closes k :: ys))

/-- A closing brace behind the brackets `xs` matches `b`: all that were opened behind it are closed
again. -/
def Innermost (xs : List Bracket) (b : Brace) : Prop :=
  ∃ outer inner, xs = outer ++ .opens b :: inner ∧ Balanced inner

/-! ### The stack -/

/-- The braces that are open behind a bracket, the innermost first. -/
def Bracket.apply (opened : List Brace) : Bracket → List Brace
  | opens b => b :: opened
  | closes _ => opened.tail

/-- The braces that are open behind brackets. -/
def unclosed (opened : List Brace) (xs : List Bracket) : List Brace := xs.foldl Bracket.apply opened

@[simp] theorem unclosed_nil (opened : List Brace) : unclosed opened [] = opened := rfl

@[simp] theorem unclosed_cons (opened : List Brace) (x : Bracket) (xs : List Bracket) :
    unclosed opened (x :: xs) = unclosed (x.apply opened) xs := rfl

@[simp] theorem unclosed_append (opened : List Brace) (xs ys : List Bracket) :
    unclosed opened (xs ++ ys) = unclosed (unclosed opened xs) ys := List.foldl_append

theorem Balanced.unclosed {xs : List Bracket} (h : Balanced xs) (opened : List Brace) :
    unclosed opened xs = opened := by
  induction h generalizing opened with
  | nil => rfl
  | @nest b k xs ys _ _ ihx ihy =>
    rw [unclosed_cons, unclosed_append, ihx, unclosed_cons, ihy]
    rfl

theorem Balanced.append {xs ys : List Bracket} (hx : Balanced xs) (hy : Balanced ys) :
    Balanced (xs ++ ys) := by
  induction hx with
  | nil => exact hy
  | @nest b k xs zs hx _ _ ih =>
    rw [List.cons_append, List.append_assoc, List.cons_append]
    exact .nest hx ih

theorem balanced_pair (b : Brace) (k : Kind) {xs : List Bracket} (h : Balanced xs) :
    Balanced (.opens b :: (xs ++ [.closes k])) := .nest h .nil

/-- The brace on top of the stack is the last one that was opened in front of balanced brackets. -/
theorem unclosed_eq_cons {xs : List Bracket} {b : Brace} {opened : List Brace}
    (h : unclosed [] xs = b :: opened) : ∃ outer inner,
      xs = outer ++ .opens b :: inner ∧ Balanced inner ∧ unclosed [] outer = opened := by
  induction hn : xs.length using Nat.strong_induction_on generalizing xs b opened with
  | _ n ih =>
    rcases List.eq_nil_or_concat xs with rfl | ⟨ys, x, rfl⟩
    · cases h
    · rw [List.concat_eq_append] at hn h ⊢
      rw [List.length_append, List.length_singleton] at hn
      rw [unclosed_append, unclosed_cons, unclosed_nil] at h
      cases x with
      | opens b' =>
        obtain ⟨rfl, hys⟩ := List.cons.inj h
        exact ⟨ys, [], rfl, .nil, hys⟩
      | closes k =>
        -- the brace that is closed here stands behind the one on top
        obtain ⟨b', hys⟩ : ∃ b', unclosed [] ys = b' :: b :: opened := by
          change (unclosed [] ys).tail = _ at h
          cases hu : unclosed [] ys with
          | nil =>
            rw [hu] at h
            cases h
          | cons b' t =>
            rw [hu] at h
            exact ⟨b', by rw [← h]; rfl⟩
        obtain ⟨mid, inner', rfl, hinner', hmid⟩ := ih _ (by omega) hys rfl
        have hlt : mid.length < n := by
          rw [List.length_append] at hn
          omega
        obtain ⟨outer, inner, rfl, hinner, houter⟩ := ih _ hlt hmid rfl
        refine ⟨outer, inner ++ (.opens b' :: (inner' ++ [.closes k])), by simp, ?_, houter⟩
        exact hinner.append (balanced_pair b' k hinner')

/-- A closing brace matches what is on top of the stack. -/
theorem head?_unclosed_iff {xs : List Bracket} {b : Brace} :
    (unclosed [] xs).head? = some b ↔ Innermost xs b := by
  constructor
  · intro h
    obtain ⟨opened, hopened⟩ := List.head?_eq_some_iff.1 h
    obtain ⟨outer, inner, hxs, hinner, -⟩ := unclosed_eq_cons hopened
    exact ⟨outer, inner, hxs, hinner⟩
  · rintro ⟨outer, inner, rfl, hinner⟩
    rw [unclosed_append, unclosed_cons, hinner.unclosed]
    rfl

/-! ### What the reader does with its stack -/

/-- What a closing brace is where the braces `opened` are open. -/
def closingKind (opened : List Brace) : Kind :=
  if opened.head? = some .substitution then .literal else .code

/-- A template goes on behind those of the closing braces that match the opening of a substitution. -/
def Resumes : (opened : List Brace) → List Bracket → Prop
  | _, [] => True
  | opened, .opens b :: xs => Resumes (b :: opened) xs
  | opened, .closes k :: xs => k = closingKind opened ∧ Resumes opened.tail xs

theorem resumes_append_iff {opened : List Brace} {xs ys : List Bracket} :
    Resumes opened (xs ++ ys) ↔ Resumes opened xs ∧ Resumes (unclosed opened xs) ys := by
  induction xs generalizing opened with
  | nil => simp [Resumes]
  | cons x xs ih =>
    cases x with
    | opens b => exact ih
    | closes k =>
      rw [List.cons_append, Resumes, Resumes, ih, and_assoc]
      rfl

/-- A piece of a template opens a substitution when it ends with the mark for it, unless the source
ends there. -/
theorem template_suffix_iff {r : List Char} (h : (template false r).1.rest ≠ []) :
    ['$', '{'] <:+ (template false r).1.text ↔ (template false r).2 = true := by
  constructor
  · rintro ⟨u, hu⟩
    by_contra hb
    rw [Bool.not_eq_true] at hb
    have hlast := (getLast?_template false r).2 hb h
    rw [← hu] at hlast
    simp at hlast
  · intro hb
    obtain ⟨fin, u, tail, ht, hd, hfin⟩ := exists_delimits_template (o := '\x60') rfl false r
    obtain rfl := hfin.1 hb
    cases hd.ends with
    | substitution => exact ⟨u, ht.symm⟩

/-- The opening of a substitution comes on top of the stack. -/
theorem resumes_substitution (opened : List Brace) (r : List Char) :
    Resumes opened (if ['$', '{'] <:+ (template false r).1.text then [.opens .substitution] else []) ∧
      ((template false r).1.rest ≠ [] → unclosed opened
        (if ['$', '{'] <:+ (template false r).1.text then [.opens .substitution] else []) =
          if (template false r).2 then .substitution :: opened else opened) := by
  constructor
  · split <;> trivial
  · intro hr
    by_cases hb : (template false r).2 = true
    · rw [if_pos ((template_suffix_iff hr).2 hb), if_pos hb]
      rfl
    · rw [if_neg (mt (template_suffix_iff hr).1 hb), if_neg hb]
      rfl

/-- The reader tells by its stack whether a template goes on, and keeps the stack. -/
theorem Reads.resumes {s : Reader} {c : Char} {r : List Char} {o : Lexeme × Reader}
    (h : Reads s c r o) : Resumes s.opened (brackets o.1.kind o.1.text) ∧
      (o.1.rest ≠ [] → unclosed s.opened (brackets o.1.kind o.1.text) = o.2.opened) := by
  cases h with
  | line u => exact ⟨trivial, fun _ => rfl⟩
  | block u => exact ⟨trivial, fun _ => rfl⟩
  | regex => exact ⟨trivial, fun _ => rfl⟩
  | slash => exact ⟨trivial, fun _ => rfl⟩
  | string hq =>
    rcases hq with rfl | rfl
    · exact ⟨trivial, fun _ => rfl⟩
    · exact ⟨trivial, fun _ => rfl⟩
  | template r => exact resumes_substitution s.opened r
  | resume opened ho =>
    obtain ⟨h1, h2⟩ := resumes_substitution opened r
    rw [ho]
    exact ⟨⟨rfl, h1⟩, h2⟩
  | openBrace r => exact ⟨trivial, fun _ => rfl⟩
  | closeBrace ho =>
    refine ⟨⟨?_, trivial⟩, fun _ => rfl⟩
    rw [closingKind, if_neg]
    intro hhead
    obtain ⟨opened, hopened⟩ := List.head?_eq_some_iff.1 hhead
    exact ho opened hopened
  | mark hm =>
    have hnone : brackets .code [c] = [] := by
      simp [brackets, bracket?, hm]
    change Resumes s.opened (brackets .code [c]) ∧
      (r ≠ [] → unclosed s.opened (brackets .code [c]) = s.opened)
    rw [hnone]
    exact ⟨trivial, fun _ => rfl⟩

/-- So it does all along a source. -/
theorem resumes_lexemes (s : Reader) (cs : List Char) :
    Resumes s.opened ((lexemes s cs).flatMap fun l => brackets l.kind l.text) := by
  fun_induction lexemes s cs with
  | case1 => trivial
  | case2 s c r ih =>
    obtain ⟨h1, h2⟩ := (s.reads_next c r).resumes
    rw [List.flatMap_cons, resumes_append_iff]
    refine ⟨h1, ?_⟩
    by_cases hr : (s.next c r).1.rest = []
    · rw [hr, lexemes_nil]
      trivial
    · rw [h2 hr]
      exact ih

/-! ### The braces of a source -/

theorem brackets_code_append (a b : List Char) :
    brackets .code (a ++ b) = brackets .code a ++ brackets .code b := List.filterMap_append

theorem nesting_eq (source : String) : nesting source =
    (lexemes .start source.toList).flatMap fun l => brackets l.kind l.text := by
  rw [nesting, segmentsOf_eq, ← flatMap_pieces brackets_code_append]
  exact Segment.flatMap_segmentsAt brackets (a := []) (flatMap_text_pieces source.toList).symm

theorem Innermost.unique {xs : List Bracket} {b b' : Brace} (h : Innermost xs b)
    (h' : Innermost xs b') : b = b' := by
  have hhead := head?_unclosed_iff.2 h
  rw [head?_unclosed_iff.2 h'] at hhead
  exact (Option.some.inj hhead).symm

/-- **A template goes on** behind a closing brace exactly when the brace matches the opening of a
substitution. A closing brace that matches one of the code, or nothing, is code. -/
theorem nesting_closes (source : String) {before after : List Bracket} {k : Kind}
    (h : nesting source = before ++ .closes k :: after) :
    (k = .literal ↔ Innermost before .substitution) ∧
      (k = .code ↔ Innermost before .block ∨ ∀ b, ¬ Innermost before b) := by
  have hall : Resumes [] (before ++ .closes k :: after) := by
    rw [← h, nesting_eq]
    exact resumes_lexemes .start _
  have hk : k = closingKind (unclosed [] before) := (resumes_append_iff.1 hall).2.1
  rw [hk, closingKind]
  by_cases hsub : Innermost before .substitution
  · rw [if_pos (head?_unclosed_iff.2 hsub)]
    refine ⟨by simp [hsub], ?_⟩
    constructor
    · intro hcode
      cases hcode
    · rintro (hblock | hnone)
      · cases hsub.unique hblock
      · exact absurd hsub (hnone _)
  · rw [if_neg (mt head?_unclosed_iff.1 hsub)]
    refine ⟨by simp [hsub], fun _ => ?_, fun _ => rfl⟩
    by_cases hblock : Innermost before .block
    · exact .inl hblock
    · refine .inr fun b => ?_
      cases b with
      | block => exact hblock
      | substitution => exact hsub

/-- A brace that matches one of the code inside a substitution is code. The next one, which matches
the opening of the substitution, is not. -/
theorem nesting_closes_nested :
    nesting "\x60a$\x7b\x7bb\x7d\x7dc\x60\x7d" =
      [.opens .substitution, .opens .block, .closes .code] ++ .closes .literal :: [.closes .code] ∧
    ((Kind.literal = .literal ↔
        Innermost [.opens .substitution, .opens .block, .closes .code] .substitution) ∧
      (Kind.literal = .code ↔
        Innermost [.opens .substitution, .opens .block, .closes .code] .block ∨
          ∀ b, ¬ Innermost [.opens .substitution, .opens .block, .closes .code] b)) := by
  have hnesting : nesting "\x60a$\x7b\x7bb\x7d\x7dc\x60\x7d" =
      [.opens .substitution, .opens .block, .closes .code] ++
        .closes .literal :: [.closes .code] := by decide +kernel
  exact ⟨hnesting, nesting_closes _ hnesting⟩

end Renaming.Source
