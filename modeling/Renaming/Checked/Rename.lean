import Renaming.Checked.Context
import Renaming.Outcome

/-!
Renaming a source by the positions of its bytes, with all accesses checked. The segments are looked
at one after the other; each place in them that a rule is for is replaced or, when its name is
protected, only noted. Then the text is put together from what lies between the replacements and
the new names.
-/

namespace Renaming.Checked

open Renaming.Source

/-! ### Code -/

/-- The flags with those between two positions set. -/
def setBetween (flags : Array Bool) (start stop : Nat) : Except Fault (Array Bool) := do
  let within ← range flags start stop
  .ok (flags.extract 0 start ++ Array.replicate within.size true ++ flags.extract stop flags.size)

/-- Which of the `size` bytes of a source with these segments are code. -/
def codeFlags (size : Nat) (ss : List Segment) : Except Fault (Array Bool) :=
  (ss.filter (·.kind = .code)).foldlM (fun flags s => setBetween flags s.start s.stop)
    (Array.replicate size false)

section

variable (bytes : Array UInt8)

/-- The end of the word that goes on at a position, in front of `stop`. -/
def wordEnd (stop i : Nat) : Except Fault Nat :=
  if i < stop then do
    let c ← byte bytes i
    if isWord c then wordEnd stop (i + 1) else .ok i
  else .ok i
termination_by stop - i

variable {bytes} in
theorem le_wordEnd {stop i j : Nat} (h : wordEnd bytes stop i = .ok j) : i ≤ j := by
  fun_induction wordEnd bytes stop i with
  | case1 i hi ih =>
    cases hb : byte bytes i with
    | error e => simp [hb] at h
    | ok c =>
      rw [hb, ok_bind] at h
      split at h
      · exact Nat.le_of_succ_le (ih h)
      · exact Nat.le_of_eq (Except.ok.inj h)
  | case2 i hi => exact Nat.le_of_eq (Except.ok.inj h)

/-- The words between two positions, each with its start and its end. One that starts with a digit
is a number and no name. -/
def wordsBetween (i stop : Nat) : Except Fault (List (Nat × Nat)) :=
  if i < stop then
    match byte bytes i with
    | .error e => .error e
    | .ok c =>
      if isWord c then
        match _hj : wordEnd bytes stop (i + 1) with
        | .error e => .error e
        | .ok j => do
          let rest ← wordsBetween j stop
          .ok (if c.isDigit then rest else (i, j) :: rest)
      else wordsBetween (i + 1) stop
  else .ok []
termination_by stop - i
decreasing_by
  · have := le_wordEnd _hj
    omega
  · omega

end

/-! ### Rules for a name -/

section

variable (rules : List Rule)

/-- The rule at a position. -/
def ruleAt (i : Nat) : Except Fault Rule := item rules[i]? i

/-- The positions of the rules for a name. -/
def positions (name : String) : List Nat :=
  rules.zipIdx.filterMap fun (r, i) => if r.old = name then some i else none

/-- Whether a rank with a position goes before another one. -/
def goesBefore (a b : Nat × Nat) : Bool := a.1 < b.1 || (a.1 == b.1 && a.2 ≤ b.2)

/-- The positions of the rules for a name, those of the more specific scopes first. -/
def candidates (name : String) : Except Fault (List Nat) := do
  let ranked ← (positions rules name).mapM fun i => do
    let r ← ruleAt rules i
    .ok (Scope.precedence.idxOf r.scope, i)
  .ok ((ranked.mergeSort goesBefore).map Prod.snd)

/-- The names that there are rules for, with the positions of these rules. -/
def index : Except Fault (List (String × List Nat)) :=
  rules.mapM fun r => do
    let is ← candidates rules r.old
    .ok (r.old, is)

/-- The first of some positions whose rule has a scope with a property. -/
def firstRule? (p : Scope → Except Fault Bool) : List Nat → Except Fault (Option Nat)
  | [] => .ok none
  | i :: is => do
    let r ← ruleAt rules i
    if ← p r.scope then .ok (some i) else firstRule? p is

/-! ### What is done at a place -/

/-- The bytes from `start` to `stop` give way to the new name of the rule at a position. -/
structure Replacement where
  start : Nat
  stop : Nat
  rule : Nat
  deriving DecidableEq, Repr

/-- What is done at a place that a rule is for. -/
inductive Action
  | replace (r : Replacement)
  /-- The name at a position is protected. -/
  | skip (name : String) (start : Nat)
  deriving DecidableEq, Repr

variable (guarded : List String) (source : String) (bytes : Array UInt8) (code : Array Bool)
  (known : List (String × List Nat))

/-- What is done about a name from `start` to `stop`, where the place is surrounded by what precedes
`first` and by what follows `last`. -/
def consider (name : String) (start stop first last : Nat) (inCode : Bool) :
    Except Fault (List Action) :=
  match known.lookup name with
  | none => .ok []
  | some is => do
    match ← firstRule? rules (fun scope => admits bytes code scope first last inCode) is with
    | none => .ok []
    | some i => .ok [if guarded.contains name then .skip name start else .replace ⟨start, stop, i⟩]

/-- What is done about the word between two positions. -/
def considerWord (start stop : Nat) : Except Fault (List Action) := do
  let name ← text source start stop
  consider rules guarded bytes code known name start stop start stop true

/-- What is done in a segment. -/
def actionsIn (s : Segment) : Except Fault (List Action) :=
  match s.kind with
  | .comment => .ok []
  | .code => do
    let words ← wordsBetween bytes s.start s.stop
    let actions ← words.mapM fun (start, stop) =>
      considerWord rules guarded source bytes code known start stop
    .ok actions.flatten
  | .literal => do
    match ← content? source s with
    | none => .ok []
    | some name =>
      let start := s.start + 1
      let stop := start + name.utf8ByteSize
      consider rules guarded bytes code known name start stop s.start s.stop false

/-! ### The outcome -/

/-- The counts with the one at a position raised. -/
def raise (counts : List Nat) (i : Nat) : Except Fault (List Nat) := do
  let n ← item counts[i]? i
  .ok (counts.set i (n + 1))

/-- The text from a position on after replacements behind it, and the counts of the rules after
them. -/
def rebuild : (pos : Nat) → (counts : List Nat) → List Replacement →
    Except Fault (String × List Nat)
  | pos, counts, [] => do
    let kept ← text source pos source.utf8ByteSize
    .ok (kept, counts)
  | pos, counts, e :: es => do
    let kept ← text source pos e.start
    let r ← ruleAt rules e.rule
    let counts ← raise counts e.rule
    let (rest, counts) ← rebuild e.stop counts es
    .ok (kept ++ r.new ++ rest, counts)

/-- The positions at which the lines of a source start. -/
def lineStarts : List Nat :=
  0 :: (source.toUTF8.data.toList.zipIdx.filter (·.1 == 10)).map (·.2 + 1)

/-- The line of a position, the first line being line 1: as many lines as start up to there. -/
def lineAt (starts : List Nat) (pos : Nat) : Nat := starts.countP (· ≤ pos)

/-- The replacement that an action is. -/
def Action.replacement? : Action → Option Replacement
  | replace r => some r
  | skip .. => none

/-- The skip that an action is, where the lines start at these positions. -/
def Action.skip? (starts : List Nat) : Action → Option Skip
  | replace _ => none
  | skip name start => some ⟨name, lineAt starts start⟩

/-- Renames a source by all rules at once. -/
def rename : Except Fault Outcome := do
  let bytes := source.toUTF8.data
  let ss ← segments source
  let code ← codeFlags bytes.size ss
  let known ← index rules
  let actions ← ss.mapM (actionsIn rules guarded source bytes code known)
  let replacements := actions.flatten.filterMap Action.replacement?
  let (text, hits) ← rebuild rules source 0 (List.replicate rules.length 0) replacements
  .ok {
    text
    occurrences := replacements.length
    hits
    skipped := actions.flatten.filterMap (Action.skip? (lineStarts source)) }

end

end Renaming.Checked
