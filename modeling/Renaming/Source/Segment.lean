import Renaming.Source.Piece

/-!
The pieces of a source by their positions. The segments are found on the bytes of the source, by
their positions and without a look at the characters that they make up: all marks that matter are
ASCII, and no byte of another character is. A backslash in a literal passes over the byte behind
it, which may be the first of several of one character, or not be there at all.
-/

namespace Renaming.Source

open Renaming.Text (isBlank)

/-- A stretch of a source: the position of its first byte, and of the first one behind it. -/
structure Segment where
  kind : Kind
  start : Nat
  stop : Nat
  deriving DecidableEq, Repr

namespace Segment

section

variable (bytes : Array UInt8)

/-- The byte at a position, as the character with its code. -/
def byteAt? (i : Nat) : Option Char := bytes[i]?.map Char.ofUInt8

variable {bytes} in
theorem lt_size_of_byteAt? {i : Nat} {c : Char} (h : byteAt? bytes i = some c) : i < bytes.size := by
  obtain ⟨b, hb, -⟩ := Option.map_eq_some_iff.1 h
  exact (Array.getElem?_eq_some_iff.1 hb).1

/-! ### Where comments and literals end -/

/-- The first line feed from a position on, or the end of the source. -/
def lineEnd (i : Nat) : Nat :=
  match h : byteAt? bytes i with
  | none => bytes.size
  | some c => if c = '\n' then i else lineEnd (i + 1)
termination_by bytes.size - i
decreasing_by
  have := lt_size_of_byteAt? h
  omega

/-- The end of the first closing mark of a block comment from a position on, or the end of the
source. -/
def blockEnd (i : Nat) : Nat :=
  match h : byteAt? bytes i with
  | none => bytes.size
  | some c => if c = '*' ∧ byteAt? bytes (i + 1) = some '/' then i + 2 else blockEnd (i + 1)
termination_by bytes.size - i
decreasing_by
  have := lt_size_of_byteAt? h
  omega

/-- The end of a string with the quote `q` from a position inside it on. -/
def quotedEnd (q : Char) (i : Nat) : Nat :=
  match h : byteAt? bytes i with
  | none => bytes.size
  | some c =>
    if c = '\\' then quotedEnd q (i + 2)
    else if c = '\n' then i
    else if c = q then i + 1
    else quotedEnd q (i + 1)
termination_by bytes.size - i
decreasing_by
  all_goals
    have := lt_size_of_byteAt? h
    omega

/-- The end of a piece of a template from a position inside it on, and whether a substitution opens
there. -/
def templateEnd (i : Nat) : Nat × Bool :=
  match h : byteAt? bytes i with
  | none => (bytes.size, false)
  | some c =>
    if c = '\\' then templateEnd (i + 2)
    else if c = '\x60' then (i + 1, false)
    else if c = '$' ∧ byteAt? bytes (i + 1) = some '{' then (i + 2, true)
    else templateEnd (i + 1)
termination_by bytes.size - i
decreasing_by
  all_goals
    have := lt_size_of_byteAt? h
    omega

/-- The first byte from a position on that is no flag, or the end of the source. -/
def flagsEnd (i : Nat) : Nat :=
  match h : byteAt? bytes i with
  | none => i
  | some c => if isFlag c then flagsEnd (i + 1) else i
termination_by bytes.size - i
decreasing_by
  have := lt_size_of_byteAt? h
  omega

/-- The end of a regular expression with its flags from a position inside it on. There is none when
the line ends first. -/
def regexEnd? (inClass : Bool) (i : Nat) : Option Nat :=
  match h : byteAt? bytes i with
  | none => none
  | some c =>
    if c = '\\' then regexEnd? inClass (i + 2)
    else if c = '\n' then none
    else if c = '[' then regexEnd? true (i + 1)
    else if c = ']' then regexEnd? false (i + 1)
    else if c = '/' ∧ inClass = false then some (flagsEnd bytes (i + 1))
    else regexEnd? inClass (i + 1)
termination_by bytes.size - i
decreasing_by
  all_goals
    have := lt_size_of_byteAt? h
    omega

/-! ### One byte of a scan -/

section

variable {bytes} {i : Nat} {c : Char}

theorem lineEnd_of_none (h : byteAt? bytes i = none) :
    lineEnd bytes i = bytes.size := by
  rw [lineEnd]
  split <;> simp_all

theorem lineEnd_of_some (h : byteAt? bytes i = some c) :
    lineEnd bytes i = if c = '\n' then i else lineEnd bytes (i + 1) := by
  rw [lineEnd]
  split <;> simp_all

theorem blockEnd_of_none (h : byteAt? bytes i = none) :
    blockEnd bytes i = bytes.size := by
  rw [blockEnd]
  split <;> simp_all

theorem blockEnd_of_some (h : byteAt? bytes i = some c) :
    blockEnd bytes i =
      if c = '*' ∧ byteAt? bytes (i + 1) = some '/' then i + 2 else blockEnd bytes (i + 1) := by
  rw [blockEnd]
  split <;> simp_all

theorem quotedEnd_of_none {q : Char} (h : byteAt? bytes i = none) :
    quotedEnd bytes q i = bytes.size := by
  rw [quotedEnd]
  split <;> simp_all

theorem quotedEnd_of_some {q : Char} (h : byteAt? bytes i = some c) :
    quotedEnd bytes q i =
      if c = '\\' then quotedEnd bytes q (i + 2)
      else if c = '\n' then i
      else if c = q then i + 1
      else quotedEnd bytes q (i + 1) := by
  rw [quotedEnd]
  split <;> simp_all

theorem templateEnd_of_none (h : byteAt? bytes i = none) :
    templateEnd bytes i = (bytes.size, false) := by
  rw [templateEnd]
  split <;> simp_all

theorem templateEnd_of_some (h : byteAt? bytes i = some c) :
    templateEnd bytes i =
      if c = '\\' then templateEnd bytes (i + 2)
      else if c = '\x60' then (i + 1, false)
      else if c = '$' ∧ byteAt? bytes (i + 1) = some '{' then (i + 2, true)
      else templateEnd bytes (i + 1) := by
  rw [templateEnd]
  split <;> simp_all

theorem flagsEnd_of_none (h : byteAt? bytes i = none) :
    flagsEnd bytes i = i := by
  rw [flagsEnd]
  split <;> simp_all

theorem flagsEnd_of_some (h : byteAt? bytes i = some c) :
    flagsEnd bytes i = if isFlag c then flagsEnd bytes (i + 1) else i := by
  rw [flagsEnd]
  split <;> simp_all

theorem regexEnd?_of_none {inClass : Bool} (h : byteAt? bytes i = none) :
    regexEnd? bytes inClass i = none := by
  rw [regexEnd?]
  split <;> simp_all

theorem regexEnd?_of_some {inClass : Bool} (h : byteAt? bytes i = some c) :
    regexEnd? bytes inClass i =
      if c = '\\' then regexEnd? bytes inClass (i + 2)
      else if c = '\n' then none
      else if c = '[' then regexEnd? bytes true (i + 1)
      else if c = ']' then regexEnd? bytes false (i + 1)
      else if c = '/' ∧ inClass = false then some (flagsEnd bytes (i + 1))
      else regexEnd? bytes inClass (i + 1) := by
  rw [regexEnd?]
  split <;> simp_all

end

/-! ### Where a regular expression may start -/

/-- Where the word starts that ends in front of a position. -/
def wordStart : (stop : Nat) → Nat
  | 0 => 0
  | i + 1 => if (byteAt? bytes i).any isIdentifier then wordStart i else i + 1

/-- The bytes between two positions, as the characters with their codes. -/
def wordAt (start stop : Nat) : String :=
  String.ofList ((bytes.extract start stop).toList.map Char.ofUInt8)

/-- Whether a slash at the position `i` may open a regular expression, where `last` is the position
of the last byte in front of it that counts. -/
def allowsRegex (i : Nat) (last : Option Nat) : Bool :=
  (i == 0 || byteAt? bytes (i - 1) != some '<') &&
    match last with
    | none => true
    | some p =>
      match byteAt? bytes p with
      | none => false
      | some c =>
        if isIdentifier c then regexKeywords.contains (wordAt bytes (wordStart bytes (p + 1)) (p + 1))
        else isOperator c

/-! ### Segments -/

/-- What is remembered of the bytes in front of a position. -/
structure Memory where
  /-- The braces that are open, the innermost first. -/
  opened : List Brace
  /-- The last byte that counts. There is none at the start and after the opening of a
  substitution. -/
  last : Option Nat
  deriving DecidableEq, Repr

/-- What is found at a position. -/
inductive Found
  /-- A byte of code. -/
  | code
  /-- A comment or a literal, up to a position. -/
  | piece (kind : Kind) (stop : Nat)
  deriving DecidableEq, Repr

/-- A piece of a template at the position `i`, where the braces around it are `opened`. -/
def templatePiece (opened : List Brace) (i : Nat) : Found × Memory :=
  let (stop, substitution) := templateEnd bytes (i + 1)
  (.piece .literal stop,
    if substitution then ⟨.substitution :: opened, none⟩ else ⟨opened, some i⟩)

/-- What is found at the position `i` of the byte `c`. -/
def find (m : Memory) (i : Nat) (c : Char) : Found × Memory :=
  match c, byteAt? bytes (i + 1) with
  | '/', some '/' => (.piece .comment (lineEnd bytes (i + 2)), m)
  | '/', some '*' => (.piece .comment (blockEnd bytes (i + 2)), m)
  | '/', _ =>
    if allowsRegex bytes i m.last then
      match regexEnd? bytes false (i + 1) with
      | some stop => (.piece .literal stop, { m with last := some (stop - 1) })
      | none => (.code, { m with last := some i })
    else (.code, { m with last := some i })
  | '\'', _ => (.piece .literal (quotedEnd bytes '\'' (i + 1)), { m with last := some i })
  | '"', _ => (.piece .literal (quotedEnd bytes '"' (i + 1)), { m with last := some i })
  | '\x60', _ => templatePiece bytes m.opened i
  | '{', _ => (.code, ⟨.block :: m.opened, some i⟩)
  | '}', _ =>
    match m.opened with
    | .substitution :: opened => templatePiece bytes opened i
    | opened => (.code, ⟨opened.tail, some i⟩)
  | c, _ => (.code, if isBlank c then m else { m with last := some i })

/-- The code between two positions, if there is any. -/
def flush (start stop : Nat) : List Segment :=
  if start < stop then [⟨.code, start, stop⟩] else []

/-! ### Progress -/

theorem le_lineEnd (i : Nat) : min i bytes.size ≤ lineEnd bytes i := by
  fun_induction lineEnd bytes i <;> omega

theorem le_blockEnd (i : Nat) : min i bytes.size ≤ blockEnd bytes i := by
  fun_induction blockEnd bytes i <;> omega

theorem le_quotedEnd (q : Char) (i : Nat) : min i bytes.size ≤ quotedEnd bytes q i := by
  fun_induction quotedEnd bytes q i <;> omega

theorem le_templateEnd (i : Nat) : min i bytes.size ≤ (templateEnd bytes i).1 := by
  fun_induction templateEnd bytes i <;> (try dsimp only) <;> omega

theorem le_flagsEnd (i : Nat) : i ≤ flagsEnd bytes i := by
  fun_induction flagsEnd bytes i <;> omega

variable {bytes} in
theorem le_regexEnd? {inClass : Bool} {i stop : Nat} (h : regexEnd? bytes inClass i = some stop) :
    i ≤ stop := by
  fun_induction regexEnd? bytes inClass i with
  | case1 => cases h
  | case3 => cases h
  | case6 k i hk c h' =>
    have := le_flagsEnd bytes (i + 1)
    obtain rfl := Option.some.inj h
    omega
  | case2 _ _ _ ih | case4 _ _ _ _ _ ih | case5 _ _ _ _ _ _ ih | case7 _ _ _ _ _ _ _ _ _ ih =>
    have := ih h
    omega

variable {bytes} in
/-- A piece has at least one byte. -/
theorem lt_of_find {m m' : Memory} {i stop : Nat} {c : Char} {kind : Kind}
    (hc : byteAt? bytes i = some c) (h : find bytes m i c = (.piece kind stop, m')) : i < stop := by
  have hi := lt_size_of_byteAt? hc
  have htemplate : ∀ opened, templatePiece bytes opened i = (.piece kind stop, m') → i < stop := by
    intro opened h
    have := le_templateEnd bytes (i + 1)
    obtain ⟨h, -⟩ := Prod.mk.inj h
    injection h with _ h
    omega
  unfold find at h
  split at h
  · have := le_lineEnd bytes (i + 2)
    simp only [Prod.mk.injEq, Found.piece.injEq] at h
    omega
  · have := le_blockEnd bytes (i + 2)
    simp only [Prod.mk.injEq, Found.piece.injEq] at h
    omega
  · split at h
    · split at h
      · next hs =>
        have := le_regexEnd? hs
        simp only [Prod.mk.injEq, Found.piece.injEq] at h
        omega
      · cases h
    · cases h
  · have := le_quotedEnd bytes '\'' (i + 1)
    simp only [Prod.mk.injEq, Found.piece.injEq] at h
    omega
  · have := le_quotedEnd bytes '"' (i + 1)
    simp only [Prod.mk.injEq, Found.piece.injEq] at h
    omega
  · exact htemplate _ h
  · cases h
  · split at h
    · exact htemplate _ h
    · cases h
  · cases h

/-- The segments from the position `i` on, where the code in front of it starts at `codeStart`. -/
def segmentsFrom (m : Memory) (codeStart i : Nat) : List Segment :=
  match _h : byteAt? bytes i with
  | none => flush codeStart bytes.size
  | some c =>
    match hf : find bytes m i c with
    | (.code, m') => segmentsFrom m' codeStart (i + 1)
    | (.piece kind stop, m') =>
      flush codeStart i ++ ⟨kind, i, stop⟩ :: segmentsFrom m' stop stop
termination_by bytes.size - i
decreasing_by
  · have := lt_size_of_byteAt? _h
    omega
  · have := lt_size_of_byteAt? _h
    have := lt_of_find _h hf
    omega

end

/-- The text of a segment. There is none when a position is not between two characters. -/
def text? (source : String) (s : Segment) : Option (List Char) :=
  (String.fromUTF8? (source.toUTF8.extract s.start s.stop)).map String.toList

/-- The content of a segment that is a closed string, or a template without substitutions. -/
def content? (source : String) (s : Segment) : Option (List Char) :=
  if s.kind = .literal then (s.text? source).bind inner? else none

end Segment

/-- The segments of a source. -/
def segmentsOf (source : String) : List Segment :=
  Segment.segmentsFrom source.toUTF8.data ⟨[], none⟩ 0 0

end Renaming.Source
