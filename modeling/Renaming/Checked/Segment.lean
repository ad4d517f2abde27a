import Renaming.Checked.Access

/-!
The segments of a source, found by accesses that are checked. The scanners read a byte only behind
the test that there is one; what is looked at ahead, or searched for in a stretch, is taken from
where it may not be there.

The loop over the source ends since whatever is found has at least one byte. That is read off the
scanners without checks: where a checked scanner gives a result it is theirs (`find_of_ok`).
-/

namespace Renaming.Checked

open Renaming.Source
open Renaming.Source.Segment (byteAt? lt_size_of_byteAt? Memory Found)
open Renaming.Text (isBlank)

section

variable (bytes : Array UInt8)

/-! ### Where comments and literals end -/

/-- The first line feed from a position on, or the end of the source. -/
def lineEnd (i : Nat) : Except Fault Nat :=
  if i < bytes.size then do
    let c ← byte bytes i
    if c = '\n' then .ok i else lineEnd (i + 1)
  else .ok bytes.size
termination_by bytes.size - i

/-- The end of the first closing mark of a block comment from a position on, or the end of the
source. -/
def blockEnd (i : Nat) : Except Fault Nat :=
  if i < bytes.size then do
    let c ← byte bytes i
    if c = '*' ∧ byteAt? bytes (i + 1) = some '/' then .ok (i + 2) else blockEnd (i + 1)
  else .ok bytes.size
termination_by bytes.size - i

/-- The end of a string with the quote `q` from a position inside it on. -/
def quotedEnd (q : Char) (i : Nat) : Except Fault Nat :=
  if i < bytes.size then do
    let c ← byte bytes i
    if c = '\\' then quotedEnd q (i + 2)
    else if c = '\n' then .ok i
    else if c = q then .ok (i + 1)
    else quotedEnd q (i + 1)
  else .ok bytes.size
termination_by bytes.size - i

/-- The end of a piece of a template from a position inside it on, and whether a substitution opens
there. -/
def templateEnd (i : Nat) : Except Fault (Nat × Bool) :=
  if i < bytes.size then do
    let c ← byte bytes i
    if c = '\\' then templateEnd (i + 2)
    else if c = '\x60' then .ok (i + 1, false)
    else if c = '$' ∧ byteAt? bytes (i + 1) = some '{' then .ok (i + 2, true)
    else templateEnd (i + 1)
  else .ok (bytes.size, false)
termination_by bytes.size - i

/-- The first byte from a position on that is no flag, or the end of the source. -/
def flagsEnd (i : Nat) : Except Fault Nat :=
  if i < bytes.size then do
    let c ← byte bytes i
    if isFlag c then flagsEnd (i + 1) else .ok i
  else .ok i
termination_by bytes.size - i

/-- The end of a regular expression with its flags from a position inside it on. There is none when
the line ends first. -/
def regexEnd? (inClass : Bool) (i : Nat) : Except Fault (Option Nat) :=
  if i < bytes.size then do
    let c ← byte bytes i
    if c = '\\' then regexEnd? inClass (i + 2)
    else if c = '\n' then .ok none
    else if c = '[' then regexEnd? true (i + 1)
    else if c = ']' then regexEnd? false (i + 1)
    else if c = '/' ∧ inClass = false then do
      let stop ← flagsEnd bytes (i + 1)
      .ok (some stop)
    else regexEnd? inClass (i + 1)
  else .ok none
termination_by bytes.size - i

/-! ### Where a regular expression may start -/

/-- Where the run of characters in a class starts that ends in front of a position. -/
def runStart (p : Char → Bool) : (stop : Nat) → Nat
  | 0 => 0
  | i + 1 => if (byteAt? bytes i).any p then runStart p i else i + 1

/-- The word that ends with the byte at a position: the longest run of characters in the class. -/
def wordEnding (p : Char → Bool) (last : Nat) : Except Fault String := do
  let front ← range bytes 0 (last + 1)
  let word ← range bytes (runStart front p (last + 1)) (last + 1)
  .ok (String.ofList (word.toList.map Char.ofUInt8))

/-- Whether the byte in front of a position is a less-than sign, as in a closing tag. -/
def behindAngle (i : Nat) : Except Fault Bool :=
  if 0 < i then do
    let p ← less i 1
    let c ← byte bytes p
    .ok (c == '<')
  else .ok false

/-- Whether an operand can start where `last` is the position of the last byte that counts. -/
def operandStarts (last : Option Nat) : Except Fault Bool :=
  match last with
  | none => .ok true
  | some p => do
    let c ← byte bytes p
    if isIdentifier c then do
      let word ← wordEnding bytes isIdentifier p
      .ok (regexKeywords.contains word)
    else .ok (isOperator c)

/-- Whether a slash at the position `i` may open a regular expression, where `last` is the position
of the last byte in front of it that counts. -/
def allowsRegex (i : Nat) (last : Option Nat) : Except Fault Bool := do
  if ← behindAngle bytes i then .ok false else operandStarts bytes last

end

/-! ### Segments -/

section

variable (source : String) (bytes : Array UInt8)

/-- A piece of a template at the position `i`, where the braces around it are `opened`. -/
def templatePiece (opened : List Brace) (i : Nat) : Except Fault (Found × Memory) := do
  let (stop, substitution) ← templateEnd bytes (i + 1)
  .ok (.piece .literal stop,
    if substitution then ⟨.substitution :: opened, none⟩ else ⟨opened, some i⟩)

/-- A string with the quote `q` at the position `i`. -/
def stringPiece (m : Memory) (q : Char) (i : Nat) : Except Fault (Found × Memory) := do
  let stop ← quotedEnd bytes q (i + 1)
  .ok (.piece .literal stop, { m with last := some i })

/-- What is found at the position `i` of the byte `c`. -/
def find (m : Memory) (i : Nat) (c : Char) : Except Fault (Found × Memory) :=
  match c, byteAt? bytes (i + 1) with
  | '/', some '/' => do
    let _ ← range bytes i bytes.size
    let stop ← lineEnd bytes i
    .ok (.piece .comment stop, m)
  | '/', some '*' => do
    let _ ← text source (i + 2) bytes.size
    let stop ← blockEnd bytes (i + 2)
    .ok (.piece .comment stop, m)
  | '/', _ => do
    if ← allowsRegex bytes i m.last then
      match ← regexEnd? bytes false (i + 1) with
      | some stop =>
        let last ← less stop 1
        .ok (.piece .literal stop, { m with last := some last })
      | none => .ok (.code, { m with last := some i })
    else .ok (.code, { m with last := some i })
  | '\'', _ => stringPiece bytes m '\'' i
  | '"', _ => stringPiece bytes m '"' i
  | '\x60', _ => templatePiece bytes m.opened i
  | '{', _ => .ok (.code, ⟨.block :: m.opened, some i⟩)
  | '}', _ =>
    match m.opened with
    | .substitution :: opened => templatePiece bytes opened i
    | opened => .ok (.code, ⟨opened.tail, some i⟩)
  | c, _ => .ok (.code, if isBlank c then m else { m with last := some i })

end

/-! ### Scanners that read nothing beyond the end -/

section

variable {bytes : Array UInt8}

theorem not_lt_of_byteAt? {i : Nat} (h : byteAt? bytes i = none) : ¬ i < bytes.size :=
  Nat.not_lt.2 (byteAt?_eq_none_iff.1 h)

theorem lineEnd_eq (i : Nat) : lineEnd bytes i = .ok (Segment.lineEnd bytes i) := by
  fun_induction Segment.lineEnd bytes i with
  | case1 i h => rw [lineEnd, if_neg (not_lt_of_byteAt? h)]
  | case2 i h => rw [lineEnd, if_pos (lt_size_of_byteAt? h), byte_of_byteAt? h]; rfl
  | case3 i c h hc ih =>
    rw [lineEnd, if_pos (lt_size_of_byteAt? h), byte_of_byteAt? h, ok_bind, if_neg hc, ih]

theorem blockEnd_eq (i : Nat) : blockEnd bytes i = .ok (Segment.blockEnd bytes i) := by
  fun_induction Segment.blockEnd bytes i with
  | case1 i h => rw [blockEnd, if_neg (not_lt_of_byteAt? h)]
  | case2 i c h hc =>
    rw [blockEnd, if_pos (lt_size_of_byteAt? h), byte_of_byteAt? h, ok_bind, if_pos hc]
  | case3 i c h hc ih =>
    rw [blockEnd, if_pos (lt_size_of_byteAt? h), byte_of_byteAt? h, ok_bind, if_neg hc, ih]

theorem quotedEnd_eq (q : Char) (i : Nat) :
    quotedEnd bytes q i = .ok (Segment.quotedEnd bytes q i) := by
  fun_induction Segment.quotedEnd bytes q i with
  | case1 i h => rw [quotedEnd, if_neg (not_lt_of_byteAt? h)]
  | case2 i h ih =>
    rw [quotedEnd, if_pos (lt_size_of_byteAt? h), byte_of_byteAt? h, ok_bind, if_pos rfl, ih]
  | case3 i h hc =>
    rw [quotedEnd, if_pos (lt_size_of_byteAt? h), byte_of_byteAt? h, ok_bind, if_neg hc, if_pos rfl]
  | case4 i h hc hn =>
    rw [quotedEnd, if_pos (lt_size_of_byteAt? h), byte_of_byteAt? h, ok_bind, if_neg hc, if_neg hn,
      if_pos rfl]
  | case5 i c h hc hn hq ih =>
    rw [quotedEnd, if_pos (lt_size_of_byteAt? h), byte_of_byteAt? h, ok_bind, if_neg hc, if_neg hn,
      if_neg hq, ih]

theorem templateEnd_eq (i : Nat) : templateEnd bytes i = .ok (Segment.templateEnd bytes i) := by
  fun_induction Segment.templateEnd bytes i with
  | case1 i h => rw [templateEnd, if_neg (not_lt_of_byteAt? h)]
  | case2 i h ih =>
    rw [templateEnd, if_pos (lt_size_of_byteAt? h), byte_of_byteAt? h, ok_bind, if_pos rfl, ih]
  | case3 i h hc =>
    rw [templateEnd, if_pos (lt_size_of_byteAt? h), byte_of_byteAt? h, ok_bind, if_neg hc,
      if_pos rfl]
  | case4 i c h hc hb hs =>
    rw [templateEnd, if_pos (lt_size_of_byteAt? h), byte_of_byteAt? h, ok_bind, if_neg hc,
      if_neg hb, if_pos hs]
  | case5 i c h hc hb hs ih =>
    rw [templateEnd, if_pos (lt_size_of_byteAt? h), byte_of_byteAt? h, ok_bind, if_neg hc,
      if_neg hb, if_neg hs, ih]

theorem flagsEnd_eq (i : Nat) : flagsEnd bytes i = .ok (Segment.flagsEnd bytes i) := by
  fun_induction Segment.flagsEnd bytes i with
  | case1 i h => rw [flagsEnd, if_neg (not_lt_of_byteAt? h)]
  | case2 i c h hc ih =>
    rw [flagsEnd, if_pos (lt_size_of_byteAt? h), byte_of_byteAt? h, ok_bind, if_pos hc, ih]
  | case3 i c h hc =>
    rw [flagsEnd, if_pos (lt_size_of_byteAt? h), byte_of_byteAt? h, ok_bind, if_neg hc]

theorem regexEnd?_eq (inClass : Bool) (i : Nat) :
    regexEnd? bytes inClass i = .ok (Segment.regexEnd? bytes inClass i) := by
  fun_induction Segment.regexEnd? bytes inClass i with
  | case1 k i h => rw [regexEnd?, if_neg (not_lt_of_byteAt? h)]
  | case2 k i h ih =>
    rw [regexEnd?, if_pos (lt_size_of_byteAt? h), byte_of_byteAt? h, ok_bind, if_pos rfl, ih]
  | case3 k i h hc =>
    rw [regexEnd?, if_pos (lt_size_of_byteAt? h), byte_of_byteAt? h, ok_bind, if_neg hc, if_pos rfl]
  | case4 k i h hc hn ih =>
    rw [regexEnd?, if_pos (lt_size_of_byteAt? h), byte_of_byteAt? h, ok_bind, if_neg hc, if_neg hn,
      if_pos rfl, ih]
  | case5 k i h hc hn ho ih =>
    rw [regexEnd?, if_pos (lt_size_of_byteAt? h), byte_of_byteAt? h, ok_bind, if_neg hc, if_neg hn,
      if_neg ho, if_pos rfl, ih]
  | case6 k i c h hc hn ho hcl hs =>
    rw [regexEnd?, if_pos (lt_size_of_byteAt? h), byte_of_byteAt? h, ok_bind, if_neg hc, if_neg hn,
      if_neg ho, if_neg hcl, if_pos hs, flagsEnd_eq, ok_bind]
  | case7 k i c h hc hn ho hcl hs ih =>
    rw [regexEnd?, if_pos (lt_size_of_byteAt? h), byte_of_byteAt? h, ok_bind, if_neg hc, if_neg hn,
      if_neg ho, if_neg hcl, if_neg hs, ih]

/-! ### Words that end at a byte -/

theorem runStart_le (p : Char → Bool) (stop : Nat) : runStart bytes p stop ≤ stop := by
  induction stop with
  | zero => exact Nat.le_refl _
  | succ i ih =>
    rw [runStart]
    split
    · exact Nat.le_succ_of_le ih
    · exact Nat.le_refl _

theorem runStart_extract (p : Char → Bool) {n stop : Nat} (h : stop ≤ n) :
    runStart (bytes.extract 0 n) p stop = runStart bytes p stop := by
  induction stop with
  | zero => rfl
  | succ i ih =>
    have hat : byteAt? (bytes.extract 0 n) i = byteAt? bytes i := by
      rw [byteAt?, byteAt?, Array.getElem?_extract]
      simp only [Nat.sub_zero, Nat.zero_add]
      split
      · rfl
      · next hi => rw [Array.getElem?_eq_none (by omega)]
    rw [runStart, runStart, hat, ih (Nat.le_of_succ_le h)]

theorem runStart_isIdentifier (stop : Nat) :
    runStart bytes isIdentifier stop = Segment.wordStart bytes stop := by
  induction stop with
  | zero => rfl
  | succ i ih => rw [runStart, Segment.wordStart, ih]

theorem wordEnding_eq (p : Char → Bool) {last : Nat} (h : last < bytes.size) :
    wordEnding bytes p last =
      .ok (Segment.wordAt bytes (runStart bytes p (last + 1)) (last + 1)) := by
  rw [wordEnding, range_of_le (Nat.zero_le _) h, ok_bind, runStart_extract p (Nat.le_refl _),
    range_of_le (runStart_le p _) h]
  rfl

theorem behindAngle_eq {i : Nat} (h : i ≤ bytes.size) :
    behindAngle bytes i = .ok (!(i == 0 || byteAt? bytes (i - 1) != some '<')) := by
  unfold behindAngle
  split
  · next hi =>
    obtain ⟨c, hc⟩ : ∃ c, byteAt? bytes (i - 1) = some c := exists_byteAt? (by omega)
    rw [less_of_le hi, ok_bind, byte_of_byteAt? hc, ok_bind, hc]
    simp [Nat.ne_of_gt hi, bne]
  · next hi =>
    obtain rfl : i = 0 := by omega
    rfl

/-- Where the word test of a slash gives a result, it is the one without checks. -/
theorem allowsRegex_of_ok {i : Nat} {last : Option Nat} {b : Bool} (hi : i ≤ bytes.size)
    (h : allowsRegex bytes i last = .ok b) : Segment.allowsRegex bytes i last = b := by
  rw [allowsRegex, behindAngle_eq hi, ok_bind] at h
  unfold Segment.allowsRegex
  cases hangle : i == 0 || byteAt? bytes (i - 1) != some '<' with
  | false =>
    rw [hangle] at h
    exact Except.ok.inj h
  | true =>
    rw [hangle] at h
    rw [Bool.true_and]
    cases last with
    | none => exact Except.ok.inj h
    | some p =>
      cases hp : byteAt? bytes p with
      | none =>
        simp [operandStarts, byte, hp, item] at h
      | some c =>
        simp only [operandStarts, byte_of_byteAt? hp, ok_bind, Bool.not_true, Bool.false_eq_true,
          if_false] at h
        by_cases hc : isIdentifier c = true
        · rw [if_pos hc, wordEnding_eq _ (lt_size_of_byteAt? hp), ok_bind,
            runStart_isIdentifier] at h
          simpa only [hp, if_pos hc] using Except.ok.inj h
        · rw [if_neg hc] at h
          simpa only [hp, if_neg hc] using Except.ok.inj h

theorem allowsRegex_eq {i : Nat} {last : Option Nat} (hi : i ≤ bytes.size)
    (hlast : ∀ p ∈ last, p < bytes.size) :
    allowsRegex bytes i last = .ok (Segment.allowsRegex bytes i last) := by
  obtain ⟨b, hb⟩ : ∃ b, allowsRegex bytes i last = .ok b := by
    rw [allowsRegex, behindAngle_eq hi, ok_bind]
    split
    · exact ⟨_, rfl⟩
    · cases last with
      | none => exact ⟨_, rfl⟩
      | some p =>
        obtain ⟨c, hc⟩ := exists_byteAt? (hlast p rfl)
        rw [operandStarts, byte_of_byteAt? hc, ok_bind]
        split
        · exact ⟨_, by rw [wordEnding_eq _ (hlast p rfl), ok_bind]⟩
        · exact ⟨_, rfl⟩
  rw [hb, allowsRegex_of_ok hi hb]

/-! ### What is found has at least one byte -/

theorem lineEnd_slashes {i : Nat} (h : byteAt? bytes i = some '/')
    (h' : byteAt? bytes (i + 1) = some '/') :
    Segment.lineEnd bytes i = Segment.lineEnd bytes (i + 2) := by
  rw [Segment.lineEnd_of_some h, if_neg (by decide), Segment.lineEnd_of_some h',
    if_neg (by decide)]

/-- Where something is found it is what is found without checks. -/
theorem find_of_ok {source : String} {m : Memory} {i : Nat} {c : Char} {r : Found × Memory}
    (hc : byteAt? bytes i = some c) (h : find source bytes m i c = .ok r) :
    Segment.find bytes m i c = r := by
  have hi : i ≤ bytes.size := Nat.le_of_lt (lt_size_of_byteAt? hc)
  unfold find at h
  split at h
  · next hnext =>
    rw [range_of_le hi (Nat.le_refl _), ok_bind, lineEnd_eq, ok_bind, lineEnd_slashes hc hnext] at h
    simpa only [Segment.find, hnext] using Except.ok.inj h
  · next hnext =>
    cases htext : text source (i + 2) bytes.size with
    | error e => simp [htext] at h
    | ok t =>
      rw [htext, ok_bind, blockEnd_eq, ok_bind] at h
      simpa only [Segment.find, hnext] using Except.ok.inj h
  · next h1 h2 =>
    cases hallows : allowsRegex bytes i m.last with
    | error e => simp [hallows] at h
    | ok b =>
      simp only [hallows, ok_bind, regexEnd?_eq] at h
      simp only [Segment.find, allowsRegex_of_ok hi hallows]
      cases b with
      | false => simpa using h
      | true =>
        cases hend : Segment.regexEnd? bytes false (i + 1) with
        | none => simpa [hend] using h
        | some stop =>
          have := Segment.le_regexEnd? hend
          simpa [hend, less_of_le (show 1 ≤ stop by omega)] using h
  · rw [stringPiece, quotedEnd_eq, ok_bind] at h
    simpa only [Segment.find] using Except.ok.inj h
  · rw [stringPiece, quotedEnd_eq, ok_bind] at h
    simpa only [Segment.find] using Except.ok.inj h
  · rw [templatePiece, templateEnd_eq, ok_bind] at h
    simpa only [Segment.find, Segment.templatePiece] using Except.ok.inj h
  · simpa only [Segment.find] using Except.ok.inj h
  · split at h
    · next opened ho =>
      rw [templatePiece, templateEnd_eq, ok_bind] at h
      simpa only [Segment.find, Segment.templatePiece, ho] using Except.ok.inj h
    · next ho => simpa only [Segment.find, ho] using Except.ok.inj h
  · simpa only [Segment.find] using Except.ok.inj h

end

/-! ### Segments -/

/-- The segments from the position `i` on, where the code in front of it starts at `codeStart`. -/
def segmentsFrom (source : String) (bytes : Array UInt8) (m : Memory) (codeStart i : Nat) :
    Except Fault (List Segment) :=
  if i < bytes.size then
    match _hc : byte bytes i with
    | .error e => .error e
    | .ok c =>
      match hf : find source bytes m i c with
      | .error e => .error e
      | .ok (.code, m') => segmentsFrom source bytes m' codeStart (i + 1)
      | .ok (.piece kind stop, m') => do
        let rest ← segmentsFrom source bytes m' stop stop
        .ok (Segment.flush codeStart i ++ ⟨kind, i, stop⟩ :: rest)
  else .ok (Segment.flush codeStart bytes.size)
termination_by bytes.size - i
decreasing_by
  · omega
  · have hc := byte_eq_ok_iff.1 _hc
    have := Segment.lt_of_find hc (find_of_ok hc hf)
    omega

/-- The segments of a source. -/
def segments (source : String) : Except Fault (List Segment) :=
  segmentsFrom source source.toUTF8.data ⟨[], none⟩ 0 0

section

variable {source : String} {bytes : Array UInt8} {m m' : Memory} {codeStart i stop : Nat}
  {c : Char} {kind : Kind}

theorem segmentsFrom_of_none (h : byteAt? bytes i = none) :
    segmentsFrom source bytes m codeStart i = .ok (Segment.flush codeStart bytes.size) := by
  rw [segmentsFrom, if_neg (not_lt_of_byteAt? h)]

theorem segmentsFrom_of_code (h : byteAt? bytes i = some c)
    (hf : find source bytes m i c = .ok (.code, m')) :
    segmentsFrom source bytes m codeStart i =
      segmentsFrom source bytes m' codeStart (i + 1) := by
  rw [segmentsFrom, if_pos (lt_size_of_byteAt? h)]
  split
  · next e => rw [byte_of_byteAt? h] at e; cases e
  · next d e =>
    obtain rfl : c = d := Except.ok.inj ((byte_of_byteAt? h).symm.trans e)
    split <;> simp_all

theorem segmentsFrom_of_piece (h : byteAt? bytes i = some c)
    (hf : find source bytes m i c = .ok (.piece kind stop, m')) :
    segmentsFrom source bytes m codeStart i = (do
      let rest ← segmentsFrom source bytes m' stop stop
      .ok (Segment.flush codeStart i ++ ⟨kind, i, stop⟩ :: rest)) := by
  rw [segmentsFrom, if_pos (lt_size_of_byteAt? h)]
  split
  · next e => rw [byte_of_byteAt? h] at e; cases e
  · next d e =>
    obtain rfl : c = d := Except.ok.inj ((byte_of_byteAt? h).symm.trans e)
    split <;> simp_all

end

/-! ### What a literal holds -/

/-- How many backslashes end a stretch of bytes. -/
def slashesEnding (bytes : Array UInt8) : Nat :=
  ((bytes.toList.map Char.ofUInt8).reverse.takeWhile (· == '\\')).length

/-- Whether the closing quote of a literal with these bytes is escaped. -/
def escapesQuote (bytes : Array UInt8) : Except Fault Bool :=
  if 2 < bytes.size then do
    let p ← less bytes.size 2
    let c ← byte bytes p
    if c = '\\' then do
      let stop ← less bytes.size 1
      let inside ← range bytes 1 stop
      .ok (slashesEnding inside % 2 == 1)
    else .ok false
  else .ok false

/-- The text between the delimiters of a string that is closed. -/
def inner? (whole : String) : Except Fault (Option String) :=
  let bytes := whole.toUTF8.data
  if bytes.size < 2 then .ok none
  else do
    let opening ← byte bytes 0
    let last ← less bytes.size 1
    let closing ← byte bytes last
    if !isQuote opening || opening != closing then .ok none
    else if ← escapesQuote bytes then .ok none
    else do
      let inside ← text whole 1 last
      .ok (some inside)

/-- The content of a segment that is a closed string, or a template without substitutions. -/
def content? (source : String) (s : Segment) : Except Fault (Option String) :=
  if s.kind = .literal then do
    let whole ← text source s.start s.stop
    inner? whole
  else .ok none

end Renaming.Checked
