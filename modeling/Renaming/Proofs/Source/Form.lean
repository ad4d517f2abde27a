import Renaming.Proofs.Source.Segment
import Renaming.Proofs.Source.Uncomment

/-!
What the segments of a source look like. `HasForm` describes a stretch of the source by its text and
the text behind it: what may stand in it, and how it ends. No reader is needed for it, only whether
a character is escaped (`escapes`), and in a regular expression whether it is in a class of
characters (`regexState`).

* `Reader.exists_form_next`: what the reader takes has a form.
* `throughout_pieces`: a property of all that the reader takes is one of all pieces, when it holds of
  two stretches of code as one.
* `exists_form`: every segment of every source has the form of its kind.
-/

namespace Renaming.Source

/-! ### Escapes -/

/-- Whether the character behind the text `t` is escaped. The text is read from the left: a backslash
escapes the character behind it, unless it is escaped itself. `e` tells whether the first one is. -/
def escapes (e : Bool) (t : List Char) : Bool := t.foldl (fun e c => !e && c == '\\') e

@[simp] theorem escapes_nil (e : Bool) : escapes e [] = e := rfl

@[simp] theorem escapes_cons (e : Bool) (c : Char) (t : List Char) :
    escapes e (c :: t) = escapes (!e && c == '\\') t := rfl

@[simp] theorem escapes_append (e : Bool) (t u : List Char) :
    escapes e (t ++ u) = escapes (escapes e t) u := List.foldl_append

/-- Wherever the mark `m` stands in the text `t`, its first character is escaped. -/
def Escaped (e : Bool) (m t : List Char) : Prop := ∀ v y, t = v ++ (m ++ y) → escapes e v = true

theorem escaped_nil (e : Bool) {m : List Char} (hm : m ≠ []) : Escaped e m [] := by
  intro v y h
  obtain ⟨-, h⟩ := List.append_eq_nil_iff.1 h.symm
  exact absurd (List.append_eq_nil_iff.1 h).1 hm

theorem Escaped.cons {e : Bool} {c : Char} {m t : List Char} (h : Escaped (!e && c == '\\') m t)
    (hc : m <+: c :: t → e = true) : Escaped e m (c :: t) := by
  intro v y hv
  cases v with
  | nil => exact hc ⟨y, hv.symm⟩
  | cons d v =>
    obtain ⟨rfl, rfl⟩ := List.cons.inj hv
    exact h v y rfl

/-! ### Regular expressions -/

/-- What the text `t` leaves of a regular expression: whether the character behind it is escaped, and
whether it is in a class of characters. -/
def regexState (s : Bool × Bool) (t : List Char) : Bool × Bool :=
  t.foldl (fun s c => regexStep s.1 s.2 c) s

@[simp] theorem regexState_nil (s : Bool × Bool) : regexState s [] = s := rfl

@[simp] theorem regexState_cons (s : Bool × Bool) (c : Char) (t : List Char) :
    regexState s (c :: t) = regexState (regexStep s.1 s.2 c) t := rfl

theorem fst_regexStep (e k : Bool) (c : Char) : (regexStep e k c).1 = (!e && c == '\\') := by
  cases e <;> rfl

/-- Escapes are the same in a regular expression as elsewhere. -/
theorem fst_regexState (s : Bool × Bool) (t : List Char) :
    (regexState s t).1 = escapes s.1 t := by
  induction t generalizing s with
  | nil => rfl
  | cons c t ih => rw [regexState_cons, ih, fst_regexStep, escapes_cons]

/-- A regular expression goes on over the text `t`: neither it nor its line ends there. -/
structure GoesOn (s : Bool × Bool) (t : List Char) : Prop where
  /-- Each slash is escaped or in a class of characters. -/
  slash : ∀ v y, t = v ++ '/' :: y → regexState s v ≠ (false, false)
  line : Escaped s.1 ['\n'] t

theorem goesOn_nil (s : Bool × Bool) : GoesOn s [] where
  slash v y h := by simp at h
  line := escaped_nil s.1 (by simp)

/-- The first character tells whether the expression goes on over it. -/
theorem goesOn_cons_iff {e k : Bool} {c : Char} {t : List Char} : GoesOn (e, k) (c :: t) ↔
    (e = false → c ≠ '\n') ∧ (e = false → k = false → c ≠ '/') ∧ GoesOn (regexStep e k c) t := by
  constructor
  · intro h
    refine ⟨?_, ?_, ?_, ?_⟩
    · rintro he rfl
      exact absurd (h.line [] t rfl) (by simp [he])
    · rintro rfl rfl rfl
      exact h.slash [] t rfl rfl
    · intro v y hv
      exact h.slash (c :: v) y (by rw [hv]; rfl)
    · intro v y hv
      have := h.line (c :: v) y (by rw [hv]; rfl)
      rwa [escapes_cons, ← fst_regexStep e k] at this
  · rintro ⟨hn, hs, h⟩
    refine ⟨?_, ?_⟩
    · intro v y hv
      cases v with
      | nil =>
        obtain ⟨rfl, -⟩ := List.cons.inj hv
        intro hstate
        obtain ⟨rfl, rfl⟩ := Prod.mk.inj hstate
        exact hs rfl rfl rfl
      | cons d v =>
        obtain ⟨rfl, rfl⟩ := List.cons.inj hv
        exact h.slash v y rfl
    · refine Escaped.cons ?_ ?_
      · rw [← fst_regexStep e k]
        exact h.line
      · intro hp
        obtain ⟨rfl, -⟩ := List.cons_prefix_cons.1 hp
        cases e with
        | true => rfl
        | false => exact absurd rfl (hn rfl)

instance decidableGoesOn : (q : Bool × Bool) → (r : List Char) → Decidable (GoesOn q r)
  | q, [] => isTrue (goesOn_nil q)
  | (e, k), c :: r =>
    have := decidableGoesOn (regexStep e k c) r
    decidable_of_iff _ goesOn_cons_iff.symm

/-- A regular expression ends at its first slash that is neither escaped nor in a class, and with the
flags behind it. -/
theorem exists_goesOn_of_regex {e k : Bool} {r : List Char} {cut : Cut} (h : regex e k r = some cut) :
    ∃ u f, cut.text = u ++ '/' :: f ∧ GoesOn (e, k) u ∧ regexState (e, k) u = (false, false) ∧
      (∀ c ∈ f, isFlag c = true) ∧ ∀ c ∈ cut.rest.head?, isFlag c = false := by
  have hpush : ∀ {e k : Bool} {c : Char} {cut : Cut}, (e = false → c ≠ '\n') →
      (e = false → k = false → c ≠ '/') → (∃ u f, cut.text = u ++ '/' :: f ∧
        GoesOn (regexStep e k c) u ∧ regexState (regexStep e k c) u = (false, false) ∧
        (∀ c ∈ f, isFlag c = true) ∧ ∀ c ∈ cut.rest.head?, isFlag c = false) →
      ∃ u f, (cut.push c).text = u ++ '/' :: f ∧ GoesOn (e, k) u ∧
        regexState (e, k) u = (false, false) ∧ (∀ c ∈ f, isFlag c = true) ∧
        ∀ c ∈ (cut.push c).rest.head?, isFlag c = false := by
    rintro e k c cut hn hs ⟨u, f, ht, hu, hstate, hf⟩
    refine ⟨c :: u, f, ?_, goesOn_cons_iff.2 ⟨hn, hs, hu⟩, hstate, hf⟩
    rw [Cut.text_push, ht, List.cons_append]
  fun_induction regex e k r generalizing cut with
  | case1 => simp at h
  | case2 k c r ih =>
    obtain ⟨t, ht, rfl⟩ := Option.map_eq_some_iff.1 h
    exact hpush (by simp) (by simp) (ih ht)
  | case3 k r ih =>
    obtain ⟨t, ht, rfl⟩ := Option.map_eq_some_iff.1 h
    exact hpush (by simp) (by simp) (ih ht)
  | case4 => simp at h
  | case5 k r _ _ ih | case6 k r _ _ _ ih =>
    obtain ⟨t, ht, rfl⟩ := Option.map_eq_some_iff.1 h
    exact hpush (by simp) (by simp) (ih ht)
  | case7 k c r _ _ _ _ hc =>
    obtain rfl := Option.some.inj h
    obtain ⟨rfl, rfl⟩ : c = '/' ∧ k = false := by simpa using hc
    exact ⟨[], _, rfl, goesOn_nil _, rfl, fun d hd => List.all_eq_true.1 List.all_takeWhile d hd,
      head?_dropWhile⟩
  | case8 k c r h1 h2 h3 h4 hc ih =>
    obtain ⟨t, ht, rfl⟩ := Option.map_eq_some_iff.1 h
    have hstep : regexStep false k c = (false, k) := by simp [regexStep, h1, h3, h4]
    refine hpush (fun _ => h2) ?_ (by rw [hstep]; exact ih ht)
    rintro - rfl rfl
    simp at hc

/-! ### Strings and pieces of templates -/

/-- How a string or a piece of a template ends. -/
inductive LiteralEnd
  /-- With the closing delimiter. -/
  | delimiter
  /-- In front of the end of the line. -/
  | line
  /-- With the opening of a substitution. -/
  | substitution
  /-- With the source. -/
  | source
  deriving DecidableEq, Repr

/-- The characters that open a string. -/
def opensString (c : Char) : Bool := c == '\'' || c == '"'

/-- The characters that open a piece of a template. -/
def opensPiece (c : Char) : Bool := c == '\x60' || c == '}'

/-- The closing delimiter of a literal that the character `o` opens. -/
def closer (o : Char) : Char := if o = '}' then '\x60' else o

/-- The marks at which a literal ends that the character `o` opens. -/
def stops (o : Char) : List (List Char) :=
  if opensString o then [[o], ['\n']] else [['\x60'], ['$', '{']]

/-- A literal that `o` opens has the text `u` inside, then `tail`, and ends in front of `rest`. -/
inductive Ends (o : Char) (e : Bool) (u : List Char) : LiteralEnd → (tail rest : List Char) → Prop
  | delimiter (b : List Char) : escapes e u = false → Ends o e u .delimiter [closer o] b
  | line (b : List Char) : opensString o = true → escapes e u = false →
    Ends o e u .line [] ('\n' :: b)
  | substitution (b : List Char) : opensPiece o = true → escapes e u = false →
    Ends o e u .substitution ['$', '{'] b
  | source : Ends o e u .source [] []

theorem ends_delimiter_iff {o : Char} {e : Bool} {u tail rest : List Char} :
    Ends o e u .delimiter tail rest ↔ tail = [closer o] ∧ escapes e u = false := by
  constructor
  · intro h
    cases h with
    | delimiter _ he => exact ⟨rfl, he⟩
  · rintro ⟨rfl, he⟩
    exact .delimiter rest he

/-- A literal that `o` opens goes on over the text `u` and ends behind it. -/
structure Delimits (o : Char) (e : Bool) (fin : LiteralEnd) (u tail rest : List Char) : Prop where
  inside : ∀ m ∈ stops o, Escaped e m u
  ends : Ends o e u fin tail rest

theorem ne_nil_of_mem_stops {o : Char} {m : List Char} (h : m ∈ stops o) : m ≠ [] := by
  unfold stops at h
  split at h <;> (rintro rfl; simp at h)

theorem delimits_nil {o : Char} {e : Bool} {fin : LiteralEnd} {tail rest : List Char}
    (h : Ends o e [] fin tail rest) : Delimits o e fin [] tail rest where
  inside _ hm := escaped_nil e (ne_nil_of_mem_stops hm)
  ends := h

theorem Delimits.cons {o c : Char} {e : Bool} {fin : LiteralEnd} {u tail rest : List Char}
    (h : Delimits o (!e && c == '\\') fin u tail rest)
    (hc : ∀ m ∈ stops o, m <+: c :: u → e = true) : Delimits o e fin (c :: u) tail rest where
  inside m hm := (h.inside m hm).cons (hc m hm)
  ends := by
    cases h.ends with
    | delimiter _ he => exact .delimiter _ he
    | line _ ho he => exact .line _ ho he
    | substitution _ ho he => exact .substitution _ ho he
    | source => exact .source

theorem closer_of_opensString {o : Char} (h : opensString o = true) : closer o = o := by
  simp only [opensString, Bool.or_eq_true, beq_iff_eq] at h
  rcases h with rfl | rfl <;> rfl

theorem closer_of_opensPiece {o : Char} (h : opensPiece o = true) : closer o = '\x60' := by
  simp only [opensPiece, Bool.or_eq_true, beq_iff_eq] at h
  rcases h with rfl | rfl <;> rfl

theorem head_of_stops_prefix {o c : Char} {m u : List Char} (hm : m ∈ stops o) (h : m <+: c :: u) :
    (opensString o = true ∧ (c = o ∨ c = '\n')) ∨
      (opensString o = false ∧ (c = '\x60' ∨ (c = '$' ∧ ['{'] <+: u))) := by
  unfold stops at hm
  split at hm
  · next ho =>
    simp only [List.mem_cons, List.not_mem_nil, or_false] at hm
    rcases hm with rfl | rfl
    · exact .inl ⟨ho, .inl (List.cons_prefix_cons.1 h).1.symm⟩
    · exact .inl ⟨ho, .inr (List.cons_prefix_cons.1 h).1.symm⟩
  · next ho =>
    simp only [List.mem_cons, List.not_mem_nil, or_false] at hm
    rcases hm with rfl | rfl
    · exact .inr ⟨by simpa using ho, .inl (List.cons_prefix_cons.1 h).1.symm⟩
    · obtain ⟨hc, hu⟩ := List.cons_prefix_cons.1 h
      exact .inr ⟨by simpa using ho, .inr ⟨hc.symm, hu⟩⟩

theorem exists_delimits_quoted {q : Char} (hq : opensString q = true) (e : Bool) (r : List Char) :
    ∃ fin u tail, (quoted q e r).text = u ++ tail ∧
      Delimits q e fin u tail (quoted q e r).rest := by
  have hhead : ∀ {c : Char} {m u : List Char}, m ∈ stops q → m <+: c :: u → c = q ∨ c = '\n' := by
    intro c m u hm h
    rcases head_of_stops_prefix hm h with ⟨-, h⟩ | ⟨ho, -⟩
    · exact h
    · rw [hq] at ho
      cases ho
  fun_induction quoted q e r with
  | case1 e => exact ⟨.source, [], [], rfl, delimits_nil .source⟩
  | case2 c r ih =>
    obtain ⟨fin, u, tail, ht, h⟩ := ih
    exact ⟨fin, c :: u, tail, by simp [ht], h.cons fun _ _ _ => rfl⟩
  | case3 r ih =>
    obtain ⟨fin, u, tail, ht, h⟩ := ih
    refine ⟨fin, '\\' :: u, tail, by simp [ht], Delimits.cons h ?_⟩
    intro m hm hp
    rcases hhead hm hp with rfl | hc
    · cases hq
    · cases hc
  | case4 r h1 => exact ⟨.line, [], [], rfl, delimits_nil (.line r hq rfl)⟩
  | case5 r h1 h2 =>
    refine ⟨.delimiter, [], [q], rfl, delimits_nil ?_⟩
    have := Ends.delimiter (o := q) (e := false) (u := []) r rfl
    rwa [closer_of_opensString hq] at this
  | case6 c r h1 h2 h3 ih =>
    obtain ⟨fin, u, tail, ht, h⟩ := ih
    refine ⟨fin, c :: u, tail, by simp [ht], Delimits.cons ?_ ?_⟩
    · rwa [Bool.not_false, Bool.true_and, beq_eq_false_iff_ne.2 h1]
    · intro m hm hp
      exact ((hhead hm hp).elim h3 h2).elim

/-- A piece of a template ends at a backtick or at the opening of a substitution. -/
theorem exists_delimits_template {o : Char} (ho : opensPiece o = true) (e : Bool) (r : List Char) :
    ∃ fin u tail, (template e r).1.text = u ++ tail ∧
      Delimits o e fin u tail (template e r).1.rest ∧
      ((template e r).2 = true ↔ fin = .substitution) := by
  have hhead : ∀ {c : Char} {m u : List Char}, m ∈ stops o → m <+: c :: u →
      c = '\x60' ∨ (c = '$' ∧ ['{'] <+: u) := by
    intro c m u hm h
    rcases head_of_stops_prefix hm h with ⟨hs, -⟩ | ⟨-, h⟩
    · simp only [opensPiece, Bool.or_eq_true, beq_iff_eq] at ho
      rcases ho with rfl | rfl <;> cases hs
    · exact h
  fun_induction template e r with
  | case1 e => exact ⟨.source, [], [], rfl, delimits_nil .source, by simp⟩
  | case2 c r s b hs ih =>
    rw [hs] at ih
    obtain ⟨fin, u, tail, ht, h, hb⟩ := ih
    exact ⟨fin, c :: u, tail, congrArg (c :: ·) ht, h.cons fun _ _ _ => rfl, hb⟩
  | case3 r s b hs ih =>
    rw [hs] at ih
    obtain ⟨fin, u, tail, ht, h, hb⟩ := ih
    refine ⟨fin, '\\' :: u, tail, congrArg ('\\' :: ·) ht, Delimits.cons h ?_, hb⟩
    intro m hm hp
    rcases hhead hm hp with hc | ⟨hc, -⟩ <;> cases hc
  | case4 r h1 =>
    refine ⟨.delimiter, [], ['\x60'], rfl, delimits_nil ?_, by simp⟩
    have := Ends.delimiter (o := o) (e := false) (u := []) r rfl
    rwa [closer_of_opensPiece ho] at this
  | case5 u h1 h2 =>
    exact ⟨.substitution, [], ['$', '{'], rfl, delimits_nil (.substitution u ho rfl), by simp⟩
  | case6 c r hne s b hs h1 h2 ih =>
    have hwhole := whole_template false r
    rw [hs] at ih hwhole
    obtain ⟨fin, u, tail, ht, h, hb⟩ := ih
    refine ⟨fin, c :: u, tail, congrArg (c :: ·) ht, Delimits.cons ?_ ?_, hb⟩
    · rwa [Bool.not_false, Bool.true_and, beq_eq_false_iff_ne.2 h1]
    · intro m hm hp
      rcases hhead hm hp with hc | ⟨rfl, y, rfl⟩
      · exact absurd hc h2
      · -- a brace behind the dollar would have ended the piece
        rw [Cut.whole, ht] at hwhole
        exact (hne _ rfl hwhole.symm).elim

/-! ### Comments and code -/

theorem pair_infix_cons_iff {x y c : Char} {t : List Char} :
    [x, y] <:+: c :: t ↔ (c = x ∧ t.head? = some y) ∨ [x, y] <:+: t := by
  rw [List.infix_cons_iff, List.cons_prefix_cons, List.singleton_prefix_iff_head?_eq_some]
  constructor
  · rintro (⟨rfl, h⟩ | h)
    · exact .inl ⟨rfl, h⟩
    · exact .inr h
  · rintro (⟨rfl, h⟩ | h)
    · exact .inl ⟨rfl, h⟩
    · exact .inr h

theorem pair_infix_append {x y : Char} {a z : List Char} (h : [x, y] <:+: a ++ z) :
    [x, y] <:+: a ++ z.take 1 ∨ [x, y] <:+: z := by
  induction a with
  | nil => exact .inr h
  | cons c a ih =>
    rw [List.cons_append, pair_infix_cons_iff] at h
    rw [List.cons_append, pair_infix_cons_iff]
    have hhead : (a ++ z.take 1).head? = (a ++ z).head? := by
      cases a <;> cases z <;> rfl
    rcases h with h | h
    · exact .inl (.inl (by rwa [hhead]))
    · exact (ih h).imp .inr id

theorem blockComment_cases (r : List Char) :
    (∃ u, (blockComment r).text = u ++ ['*', '/'] ∧ ¬ ['*', '/'] <:+: u ++ ['*']) ∨
      ((blockComment r).rest = [] ∧ ¬ ['*', '/'] <:+: (blockComment r).text) := by
  fun_induction blockComment r with
  | case1 => exact .inr ⟨rfl, by simp⟩
  | case2 r => exact .inl ⟨[], rfl, by decide⟩
  | case3 c r hne ih =>
    have hwhole := whole_blockComment r
    have hhead : ∀ t z, (blockComment r).text = t ++ z → c = '*' → t.head? ≠ some '/' := by
      -- a slash behind the star would have ended the comment
      rintro t z ht rfl hs
      obtain ⟨t', rfl⟩ := List.head?_eq_some_iff.1 hs
      rw [Cut.whole, ht] at hwhole
      exact hne _ rfl hwhole.symm
    rcases ih with ⟨u, hu, hn⟩ | ⟨hr, hn⟩
    · refine .inl ⟨c :: u, congrArg (c :: ·) hu, ?_⟩
      rw [List.cons_append, pair_infix_cons_iff]
      rintro (⟨hc, hs⟩ | h)
      · exact hhead (u ++ ['*']) ['/'] (by simp [hu]) hc hs
      · exact hn h
    · refine .inr ⟨hr, ?_⟩
      rw [Cut.text_push, pair_infix_cons_iff]
      rintro (⟨hc, hs⟩ | h)
      · exact hhead _ [] (List.append_nil _).symm hc hs
      · exact hn h

theorem notMem_lineComment (r : List Char) : '\n' ∉ (lineComment r).text := by
  induction r with
  | nil => simp [lineComment]
  | cons c r ih =>
    unfold lineComment
    split
    · simp
    · next hc => simp [ih, Ne.symm hc]

/-! ### Forms -/

/-- What a stretch of the source is, and how it starts and ends. -/
inductive Form
  | code
  | comment
  /-- A string, or a piece of a template, with the character that opens it. -/
  | delimited (opener : Char) (fin : LiteralEnd)
  | regex
  deriving DecidableEq, Repr

def Form.kind : Form → Kind
  | code => .code
  | comment => .comment
  | delimited .. => .literal
  | regex => .literal

theorem Form.eq_code {form : Form} (h : form.kind = .code) : form = .code := by
  cases form with
  | code => rfl
  | comment => cases h
  | delimited => cases h
  | regex => cases h

/-- The text of a stretch of the source, and the text behind it, as its form has them. -/
inductive HasForm : Form → (text rest : List Char) → Prop
  /-- No string opens in code, and no comment, not even with the last character. -/
  | code {t b : List Char} : (∀ c ∈ t, isQuote c = false) → ¬ ['/', '/'] <:+: t ++ b.take 1 →
    ¬ ['/', '*'] <:+: t ++ b.take 1 → HasForm .code t b
  /-- A line comment goes on to the end of its line. -/
  | lineComment {u b : List Char} : '\n' ∉ u → (∀ c ∈ b.head?, c = '\n') →
    HasForm .comment ('/' :: '/' :: u) b
  /-- A block comment ends with its first closing mark. -/
  | blockComment {u : List Char} (b : List Char) : ¬ ['*', '/'] <:+: u ++ ['*'] →
    HasForm .comment ('/' :: '*' :: (u ++ ['*', '/'])) b
  /-- A block comment without a closing mark goes on to the end of the source. -/
  | openComment {u : List Char} : ¬ ['*', '/'] <:+: u → HasForm .comment ('/' :: '*' :: u) []
  | delimited {o : Char} {fin : LiteralEnd} {u tail b : List Char} :
    (opensString o || opensPiece o) = true → Delimits o false fin u tail b →
    HasForm (.delimited o fin) (o :: (u ++ tail)) b
  /-- A regular expression ends at its first slash that is neither escaped nor in a class, with all
  the letters behind it. -/
  | regex {u f b : List Char} : (∀ c ∈ (u ++ ['/']).head?, c ≠ '/' ∧ c ≠ '*') →
    GoesOn (false, false) u → regexState (false, false) u = (false, false) →
    (∀ c ∈ f, isFlag c = true) → (∀ c ∈ b.head?, isFlag c = false) →
    HasForm .regex ('/' :: (u ++ '/' :: f)) b

theorem hasForm_char {c : Char} {r : List Char} (hc : isQuote c = false)
    (h : c = '/' → ∀ d ∈ r.head?, d ≠ '/' ∧ d ≠ '*') : HasForm .code [c] r := by
  have hpair : ∀ y : Char, (y = '/' ∨ y = '*') → ¬ ['/', y] <:+: [c] ++ r.take 1 := by
    intro y hy hi
    rw [List.singleton_append, pair_infix_cons_iff] at hi
    rcases hi with ⟨rfl, hs⟩ | hi
    · rw [List.head?_take, if_neg (by decide)] at hs
      rcases hy with rfl | rfl
      · exact (h rfl _ hs).1 rfl
      · exact (h rfl _ hs).2 rfl
    · have := hi.length_le
      simp only [List.length_cons, List.length_nil, List.length_take] at this
      omega
  refine .code ?_ (hpair '/' (.inl rfl)) (hpair '*' (.inr rfl))
  simpa using hc

theorem HasForm.code_append {a t b : List Char} (ha : HasForm .code a (t ++ b))
    (ht : HasForm .code t b) : HasForm .code (a ++ t) b := by
  cases ha with
  | code hq hslash hstar =>
    cases ht with
    | code hq' hslash' hstar' =>
      have htake : (t ++ b.take 1).take 1 = (t ++ b).take 1 := by
        cases t <;> cases b <;> rfl
      have hpair : ∀ y : Char, ¬ ['/', y] <:+: a ++ (t ++ b).take 1 →
          ¬ ['/', y] <:+: t ++ b.take 1 → ¬ ['/', y] <:+: a ++ t ++ b.take 1 := by
        intro y h1 h2 h
        rw [List.append_assoc] at h
        rcases pair_infix_append h with h | h
        · exact h1 (htake ▸ h)
        · exact h2 h
      refine .code ?_ (hpair '/' hslash hslash') (hpair '*' hstar hstar')
      intro c hc
      rcases List.mem_append.1 hc with hc | hc
      · exact hq c hc
      · exact hq' c hc

/-! ### The forms of what is read -/

theorem Reader.exists_form_next (s : Reader) (c : Char) (r : List Char) :
    ∃ form : Form, form.kind = (s.next c r).1.kind ∧
      HasForm form (s.next c r).1.text (s.next c r).1.rest := by
  have hreads := s.reads_next c r
  generalize s.next c r = o at hreads
  have hpiece : ∀ d opened r, opensPiece d = true → ∃ form : Form,
      form.kind = (s.piece d opened (template false r).1 (template false r).2).1.kind ∧
        HasForm form (s.piece d opened (template false r).1 (template false r).2).1.text
          (s.piece d opened (template false r).1 (template false r).2).1.rest := by
    intro d opened r hd
    obtain ⟨fin, u, tail, ht, h, -⟩ := exists_delimits_template hd false r
    refine ⟨.delimited d fin, rfl, ?_⟩
    simp only [Reader.piece, ht]
    exact .delimited (by simp [hd]) h
  cases hreads with
  | line u => exact ⟨.comment, rfl, .lineComment (notMem_lineComment u) (head?_lineComment u)⟩
  | block u =>
    rcases blockComment_cases u with ⟨t, ht, hn⟩ | ⟨hr, hn⟩
    · refine ⟨.comment, rfl, ?_⟩
      simp only [Reader.comment, ht]
      exact .blockComment _ hn
    · refine ⟨.comment, rfl, ?_⟩
      simp only [Reader.comment, hr]
      exact .openComment hn
  | regex cut hr ha hcut =>
    obtain ⟨u, f, ht, hu, hstate, hf, hrest⟩ := exists_goesOn_of_regex hcut
    refine ⟨.regex, rfl, ?_⟩
    simp only [Reader.expression, ht]
    refine .regex (fun d hd => hr d ?_) hu hstate hf hrest
    rw [← whole_regex hcut, Cut.whole, ht]
    cases u <;> simpa using hd
  | slash hr ha => exact ⟨.code, rfl, hasForm_char rfl fun _ => hr⟩
  | string hq =>
    have hopen : opensString c = true := by rcases hq with rfl | rfl <;> rfl
    obtain ⟨fin, u, tail, ht, h⟩ := exists_delimits_quoted hopen false r
    refine ⟨.delimited c fin, rfl, ?_⟩
    simp only [Reader.string, ht]
    exact .delimited (by simp [hopen]) h
  | template r => exact hpiece _ _ r rfl
  | resume opened ho => exact hpiece _ _ r rfl
  | openBrace r => exact ⟨.code, rfl, hasForm_char rfl fun h => absurd h (by decide)⟩
  | closeBrace ho => exact ⟨.code, rfl, hasForm_char rfl fun h => absurd h (by decide)⟩
  | mark hm =>
    refine ⟨.code, rfl, hasForm_char ?_ fun h => absurd h (hm _ (by simp))⟩
    simp [isQuote, hm]

/-! ### The forms of segments -/

/-- The property `P` holds of each of the pieces: of its kind, its text and the text behind it. -/
def Throughout (P : Kind → List Char → List Char → Prop) (ps : List Piece) : Prop :=
  ∀ xs p ys, ps = xs ++ p :: ys → P p.kind p.text (textOf ys)

section

variable {P : Kind → List Char → List Char → Prop}

theorem throughout_cons_iff {p : Piece} {ps : List Piece} :
    Throughout P (p :: ps) ↔ P p.kind p.text (textOf ps) ∧ Throughout P ps := by
  constructor
  · intro h
    refine ⟨h [] p ps rfl, ?_⟩
    intro xs q ys hps
    exact h (p :: xs) q ys (by rw [hps]; rfl)
  · rintro ⟨hp, h⟩ xs q ys hps
    cases xs with
    | nil =>
      obtain ⟨rfl, rfl⟩ := List.cons.inj hps
      exact hp
    | cons x xs =>
      obtain ⟨rfl, rfl⟩ := List.cons.inj hps
      exact h xs q ys rfl

theorem join_eq_mergeAll (ls : List Lexeme) : join ls = mergeAll (ls.map Lexeme.piece) := by
  induction ls with
  | nil => rfl
  | cons l ls ih =>
    change Piece.attach l (join ls) = l.piece.merge (mergeAll (ls.map Lexeme.piece))
    rw [attach_eq_merge, ih]

/-- Pieces of code may be joined when the property holds of two stretches of code as one. -/
theorem Throughout.mergeAll (hcode : ∀ a t b, P .code a (t ++ b) → P .code t b → P .code (a ++ t) b)
    {ps : List Piece} (h : Throughout P ps) : Throughout P (mergeAll ps) := by
  induction ps with
  | nil => exact h
  | cons p ps ih =>
    obtain ⟨hp, hps⟩ := throughout_cons_iff.1 h
    have ih := ih hps
    rw [← textOf_mergeAll] at hp
    rcases mergeAll_cons p ps with ⟨hk, q, qs, hm, hqk, hj⟩ | hj
    · rw [hm] at ih hp
      rw [hj]
      obtain ⟨hq, hqs⟩ := throughout_cons_iff.1 ih
      rw [hk] at hp
      rw [hqk] at hq
      exact throughout_cons_iff.2 ⟨hcode _ _ _ hp hq, hqs⟩
    · rw [hj]
      exact throughout_cons_iff.2 ⟨hp, ih⟩

/-- A property of all that the reader takes is one of all pieces, when it holds of two stretches of
code as one. -/
theorem throughout_pieces
    (hnext : ∀ (s : Reader) (c : Char) (r : List Char),
      P (s.next c r).1.kind (s.next c r).1.text (s.next c r).1.rest)
    (hcode : ∀ a t b, P .code a (t ++ b) → P .code t b → P .code (a ++ t) b) (source : List Char) :
    Throughout P (pieces source) := by
  have hlexemes : ∀ (s : Reader) cs, Throughout P ((lexemes s cs).map Lexeme.piece) := by
    intro s cs
    fun_induction lexemes s cs with
    | case1 s =>
      intro xs p ys h
      simp at h
    | case2 s c r ih =>
      have hrest : textOf ((lexemes (s.next c r).2 (s.next c r).1.rest).map Lexeme.piece) =
          (s.next c r).1.rest := by
        rw [textOf, List.flatMap_map]
        exact flatMap_text_lexemes _ _
      refine throughout_cons_iff.2 ⟨?_, ih⟩
      rw [hrest]
      exact hnext s c r
  rw [pieces, join_eq_mergeAll]
  exact (hlexemes .start source).mergeAll hcode

end

/-- What is gathered from pieces does not depend on where code is cut. -/
theorem flatMap_mergeAll {β : Type} {f : Kind → List Char → List β}
    (hf : ∀ a b, f .code (a ++ b) = f .code a ++ f .code b) (ps : List Piece) :
    (mergeAll ps).flatMap (fun p => f p.kind p.text) = ps.flatMap fun p => f p.kind p.text := by
  induction ps with
  | nil => rfl
  | cons p ps ih =>
    rw [List.flatMap_cons, ← ih]
    rcases mergeAll_cons p ps with ⟨hk, q, qs, hm, hqk, hj⟩ | hj
    · rw [hj, hm, List.flatMap_cons, List.flatMap_cons, hk, hqk, hf, List.append_assoc]
    · rw [hj, List.flatMap_cons]

/-- What is gathered from the pieces is gathered from what the reader takes. -/
theorem flatMap_pieces {β : Type} {f : Kind → List Char → List β}
    (hf : ∀ a b, f .code (a ++ b) = f .code a ++ f .code b) (source : List Char) :
    (pieces source).flatMap (fun p => f p.kind p.text) =
      (lexemes .start source).flatMap fun l => f l.kind l.text := by
  rw [pieces, join_eq_mergeAll, flatMap_mergeAll hf, List.flatMap_map]
  rfl

/-- The segment has the text `t` in the source, and `b` is the text behind it. -/
def Segment.Spans (source : String) (s : Segment) (t b : List Char) : Prop :=
  ∃ a, source.toList = a ++ t ++ b ∧ s.start = byteLength a ∧ s.stop = byteLength (a ++ t)

/-- A segment is a piece of the source. -/
theorem Segment.exists_piece {source : String} {s : Segment} (h : s ∈ segmentsOf source) :
    ∃ xs p ys, pieces source.toList = xs ++ p :: ys ∧ s.kind = p.kind ∧
      s.Spans source p.text (textOf ys) := by
  rw [segmentsOf_eq] at h
  obtain ⟨xs, p, ys, hp, rfl⟩ := mem_segmentsAt h
  refine ⟨xs, p, ys, hp, rfl, textOf xs, ?_, Nat.zero_add _, ?_⟩
  · rw [← flatMap_text_pieces source.toList, hp]
    simp [textOf]
  · rw [byteLength_append, Nat.zero_add]

/-- What is gathered from the segments is gathered from their pieces. -/
theorem Segment.flatMap_segmentsAt {β : Type} (f : Kind → List Char → List β) {source : String}
    {a : List Char} {ps : List Piece} (h : source.toList = a ++ textOf ps) :
    (segmentsAt (byteLength a) ps).flatMap (fun s => f s.kind ((s.text? source).getD [])) =
      ps.flatMap fun p => f p.kind p.text := by
  induction ps generalizing a with
  | nil => rfl
  | cons p ps ih =>
    have h' : source.toList = a ++ p.text ++ textOf ps := by rw [h, textOf_cons, List.append_assoc]
    have ih := ih h'
    rw [byteLength_append] at ih
    rw [List.flatMap_cons, ← ih]
    change f p.kind ((text? source ⟨p.kind, _, _⟩).getD []) ++ _ = _
    rw [text?_eq h', Option.getD_some]
    rfl

/-- Every piece has the form of its kind. -/
theorem hasForm_of_pieces {source : List Char} {xs : List Piece} {p : Piece} {ys : List Piece}
    (h : pieces source = xs ++ p :: ys) :
    ∃ form : Form, form.kind = p.kind ∧ HasForm form p.text (textOf ys) := by
  let P : Kind → List Char → List Char → Prop := fun k t b => ∃ form : Form,
    form.kind = k ∧ HasForm form t b
  have hcode : ∀ a t b, P .code a (t ++ b) → P .code t b → P .code (a ++ t) b := by
    rintro a t b ⟨form, hform, ha⟩ ⟨form', hform', ht⟩
    rw [Form.eq_code hform] at ha
    rw [Form.eq_code hform'] at ht
    exact ⟨.code, rfl, ha.code_append ht⟩
  have hall : Throughout P (pieces source) := throughout_pieces Reader.exists_form_next hcode source
  exact hall xs p ys h

/-- **Every segment has the form of its kind**, in every source. -/
theorem exists_form (source : String) : ∀ s ∈ segmentsOf source, ∃ (form : Form) (t b : List Char),
    s.Spans source t b ∧ form.kind = s.kind ∧ HasForm form t b := by
  intro s hs
  obtain ⟨xs, p, ys, hp, hk, hspans⟩ := Segment.exists_piece hs
  obtain ⟨form, hform, h⟩ := hasForm_of_pieces hp
  exact ⟨form, p.text, textOf ys, hspans, by rw [hk, hform], h⟩

/-- A slash in a class of characters and an escaped one do not end a regular expression. -/
theorem exists_form_regex : (⟨.literal, 4, 12⟩ : Segment) ∈ segmentsOf "x = /[/]\\//g;" ∧
    ∃ (form : Form) (t b : List Char), Segment.Spans "x = /[/]\\//g;" ⟨.literal, 4, 12⟩ t b ∧
      form.kind = .literal ∧ HasForm form t b := by
  have hmem : (⟨.literal, 4, 12⟩ : Segment) ∈ segmentsOf "x = /[/]\\//g;" := by decide +kernel
  exact ⟨hmem, exists_form _ _ hmem⟩

end Renaming.Source
