import Renaming.Json.Reader

/-!
What the scanners of JSON take off a text. Each of them takes a stretch of a known kind and would
take the same stretch off every other text that goes on with the same character (`Takes`): a word
and a string end by themselves, a number where the next character does not go on with it.
-/

namespace Renaming.Json

variable {α β : Type} {P : List Char → Prop} {scan : List Char → Scan α} {text rest : List Char}

theorem map_eq_ok {ε : Type} {x : Except ε α} {f : α → β} {b : β} (h : x.map f = .ok b) :
    ∃ a, x = .ok a ∧ f a = b := by
  cases x with
  | error e => cases h
  | ok a => exact ⟨a, rfl, Except.ok.inj h⟩

/-- A scanner takes stretches of a kind off texts, and it does not depend on what follows the
character behind them. -/
def Takes (scan : List Char → Scan α) (P : List Char → Prop) : Prop :=
  ∀ ⦃text a rest⦄, scan text = .ok (a, rest) → ∃ pre, text = pre ++ rest ∧ P pre ∧
    ∀ s, s.head? = rest.head? → scan (pre ++ s) = .ok (a, s)

theorem Takes.map (h : Takes scan P) (f : α → β) :
    Takes (fun text => (scan text).map fun (a, rest) => (f a, rest)) P := by
  intro text b rest hscan
  obtain ⟨⟨a, rest'⟩, ha, heq⟩ := map_eq_ok hscan
  cases heq
  obtain ⟨pre, htext, hpre, hgo⟩ := h ha
  exact ⟨pre, htext, hpre, fun s hs => by simp only [hgo s hs, Except.map]⟩

/-- What the scanner takes it takes also where more text follows. -/
theorem Takes.append (h : Takes scan P) {a : α} (hscan : scan text = .ok (a, rest))
    (hrest : rest ≠ []) (s : List Char) : scan (text ++ s) = .ok (a, rest ++ s) := by
  obtain ⟨pre, rfl, -, hgo⟩ := h hscan
  rw [List.append_assoc]
  obtain ⟨c, rest, rfl⟩ := List.exists_cons_of_ne_nil hrest
  exact hgo _ rfl

theorem head?_append_congr {s t : List Char} (h : s.head? = t.head?) (pre : List Char) :
    (pre ++ s).head? = (pre ++ t).head? := by
  rw [List.head?_append, List.head?_append, h]

theorem ne_cons_of_head? {s t : List Char} (h : s.head? = t.head?) {c : Char}
    (hc : ∀ tail, t ≠ c :: tail) : ∀ tail, s ≠ c :: tail := by
  rintro tail rfl
  obtain ⟨tail, ht⟩ := List.head?_eq_some_iff.1 h.symm
  exact hc tail ht

/-! ### Words -/

theorem word_eq_ok_iff {letters : List Char} :
    word letters text = .ok rest ↔ text = letters ++ rest := by
  induction letters generalizing text with
  | nil => simp [word]
  | cons l letters ih =>
    cases text with
    | nil => simp [word]
    | cons c text =>
      rw [word]
      split
      next h => simp [ih, h]
      next h => simp [h]

theorem takes_word (letters : List Char) (v : α) :
    Takes (fun text => (word letters text).map (v, ·)) (· = letters) := by
  intro text a rest h
  obtain ⟨rest', hword, heq⟩ := map_eq_ok h
  cases heq
  exact ⟨letters, word_eq_ok_iff.1 hword, rfl, fun s _ => by
    simp only [word_eq_ok_iff.2 rfl, Except.map]⟩

/-! ### Numbers -/

/-- A character that is neither a bracket nor a quote. -/
def isPlain (c : Char) : Bool := !(['[', ']', '\x7b', '\x7d', '"'].contains c)

/-- A text in which no bracket and no quote stands. -/
def Plain (pre : List Char) : Prop := ∀ c ∈ pre, isPlain c = true

theorem plain_of_all {pre : List Char} (h : pre.all isPlain = true) : Plain pre :=
  List.all_eq_true.1 h

theorem Plain.cons {c : Char} {pre : List Char} (hc : isPlain c = true) (h : Plain pre) :
    Plain (c :: pre) :=
  List.forall_mem_cons.2 ⟨hc, h⟩

theorem Plain.append {pre pre' : List Char} (h : Plain pre) (h' : Plain pre') :
    Plain (pre ++ pre') :=
  List.forall_mem_append.2 ⟨h, h'⟩

theorem isPlain_of_isDigit {c : Char} (h : c.isDigit = true) : isPlain c = true := by
  rw [isPlain, Bool.not_eq_true', ← Bool.not_eq_true]
  intro hc
  simp only [List.contains_cons, List.contains_nil, Bool.or_false, Bool.or_eq_true,
    beq_iff_eq] at hc
  rcases hc with rfl | rfl | rfl | rfl | rfl <;> revert h <;> decide

theorem plain_of_digits {pre : List Char} (h : ∀ c ∈ pre, c.isDigit = true) : Plain pre :=
  fun c hc => isPlain_of_isDigit (h c hc)

theorem digits_append {ds s : List Char} (hds : ∀ c ∈ ds, c.isDigit = true)
    (hs : ∀ c ∈ s.head?, c.isDigit = false) : digits (ds ++ s) = (ds, s) := by
  have htake : s.takeWhile Char.isDigit = [] ∧ s.dropWhile Char.isDigit = s := by
    cases s with
    | nil => exact ⟨rfl, rfl⟩
    | cons c s => simp [hs c rfl]
  rw [digits, List.takeWhile_append_of_pos hds, List.dropWhile_append_of_pos hds, htake.1, htake.2,
    List.append_nil]

/-- The digits of a text are those of every text that goes on like it behind them. -/
theorem digits_spec {ds : List Char} (h : digits text = (ds, rest)) :
    text = ds ++ rest ∧ (∀ c ∈ ds, c.isDigit = true) ∧
      ∀ s, s.head? = rest.head? → digits (ds ++ s) = (ds, s) := by
  obtain ⟨rfl, rfl⟩ := Prod.mk.inj h
  have hds : ∀ c ∈ text.takeWhile Char.isDigit, c.isDigit = true :=
    List.all_eq_true.1 List.all_takeWhile
  refine ⟨List.takeWhile_append_dropWhile.symm, hds, fun s hs => digits_append hds fun c hc => ?_⟩
  rw [hs] at hc
  have := List.head?_dropWhile_not Char.isDigit text
  rw [hc] at this
  simpa using this

theorem floatOf_eq_ok {positive : Bool} {n : Nat} {exponent : Int} {x : Float}
    (h : floatOf positive n exponent text = .ok (x, rest)) :
    rest = text ∧ ∀ s, floatOf positive n exponent s = .ok (x, s) := by
  unfold floatOf at h ⊢
  cases heq : scaled? n.toUInt64.toFloat exponent (exponent.natAbs / 308 + 2) with
  | none =>
    rw [heq] at h
    cases h
  | some y =>
    rw [heq] at h
    cases h
    exact ⟨rfl, fun s => rfl⟩

theorem absorbExponent_eq_ok {n e : Nat} (h : absorbExponent n text = .ok (e, rest)) :
    ∃ pre, text = pre ++ rest ∧ (∀ c ∈ pre, c.isDigit = true) ∧
      ∀ s, s.head? = rest.head? → absorbExponent n (pre ++ s) = .ok (e, s) := by
  induction text generalizing n with
  | nil =>
    cases h
    refine ⟨[], rfl, nofun, fun s hs => ?_⟩
    rw [List.head?_eq_none_iff.1 hs]
    rfl
  | cons d ds ih =>
    rw [absorbExponent] at h
    split at h
    next hd =>
      dsimp only at h
      split at h
      next => cases h
      next hsmall =>
        obtain ⟨pre, rfl, hpre, hgo⟩ := ih h
        refine ⟨d :: pre, rfl, List.forall_mem_cons.2 ⟨hd, hpre⟩, fun s hs => ?_⟩
        rw [List.cons_append, absorbExponent, if_pos hd, if_neg hsmall, hgo s hs]
    next hd =>
      cases h
      refine ⟨[], rfl, nofun, fun s hs => ?_⟩
      obtain ⟨s, rfl⟩ := List.head?_eq_some_iff.1 hs
      rw [List.nil_append, absorbExponent, if_neg hd]

theorem absorbExponent_eq_error {n : Nat} (h : absorbExponent n text = .error rest) :
    ∃ pre, text = pre ++ rest ∧ (∀ c ∈ pre, c.isDigit = true) ∧
      ∀ s, absorbExponent n (pre ++ s) = .error s := by
  induction text generalizing n with
  | nil => cases h
  | cons d ds ih =>
    rw [absorbExponent] at h
    split at h
    next hd =>
      dsimp only at h
      split at h
      next hlarge =>
        cases h
        refine ⟨[d], rfl, by simpa using hd, fun s => ?_⟩
        rw [List.singleton_append, absorbExponent, if_pos hd, if_pos hlarge]
      next hsmall =>
        obtain ⟨pre, rfl, hpre, hgo⟩ := ih h
        refine ⟨d :: pre, rfl, List.forall_mem_cons.2 ⟨hd, hpre⟩, fun s => ?_⟩
        rw [List.cons_append, absorbExponent, if_pos hd, if_neg hsmall, hgo s]
    next => cases h

/-- A number from the digits of its exponent on; `up` says that the exponent has no minus. -/
def exponentDigits (positive : Bool) (n : Nat) (scale : Int) (up : Bool) (text : List Char) :
    Scan Float :=
  match absorbExponent 0 text with
  | .ok (e, rest) => floatOf positive n (if up then scale + e else scale - e) rest
  | .error rest =>
    if n ≠ 0 && up then .error (.here .numberTooLarge rest)
    else .ok (if positive then 0.0 else -0.0, rest.dropWhile Char.isDigit)

theorem takes_exponentDigits (positive : Bool) (n : Nat) (scale : Int) (up : Bool) :
    Takes (exponentDigits positive n scale up) Plain := by
  intro text x rest h
  unfold exponentDigits at h
  split at h
  next e mid heq =>
    obtain ⟨pre, htext, hpre, hgo⟩ := absorbExponent_eq_ok heq
    obtain ⟨rfl, hfloat⟩ := floatOf_eq_ok h
    refine ⟨pre, htext, plain_of_digits hpre, fun s hs => ?_⟩
    rw [exponentDigits, hgo s hs]
    exact hfloat s
  next mid heq =>
    split at h
    next => cases h
    next hcond =>
      obtain ⟨pre, htext, hpre, hgo⟩ := absorbExponent_eq_error heq
      cases h
      obtain ⟨hmid, hds, hdrop⟩ := digits_spec (Eq.refl (digits mid))
      refine ⟨pre ++ mid.takeWhile Char.isDigit, by rw [htext, List.append_assoc, ← hmid],
        (plain_of_digits hpre).append (plain_of_digits hds), fun s hs => ?_⟩
      have hend : (mid.takeWhile Char.isDigit ++ s).dropWhile Char.isDigit = s :=
        congrArg Prod.snd (hdrop s hs)
      rw [exponentDigits, List.append_assoc, hgo]
      simp only [hcond, hend, Bool.false_eq_true, if_false]

section

variable {positive up : Bool} {n : Nat} {scale : Int}

theorem exponentPart_unsigned {c : Char} (hplus : c ≠ '+') (hminus : c ≠ '-') :
    exponentPart positive n scale (c :: text) =
      if !c.isDigit then .error (.next .invalidNumber (c :: text))
      else exponentDigits positive n scale true (c :: text) := by
  cases habsorb : absorbExponent 0 (c :: text) <;>
    simp [exponentPart, exponentDigits, hplus, hminus, habsorb]

/-- The signs of exponents, and whether they leave the exponent as it is. -/
def signs : List (List Char × Bool) := [([], true), (['+'], true), (['-'], false)]

theorem exponentPart_sign {sign : List Char} (hsign : (sign, up) ∈ signs) {c : Char}
    (hc : c.isDigit = true) (h : text.head? = some c) :
    exponentPart positive n scale (sign ++ text) = exponentDigits positive n scale up text := by
  obtain ⟨tail, rfl⟩ := List.head?_eq_some_iff.1 h
  have hplus : c ≠ '+' := by rintro rfl; revert hc; decide
  have hminus : c ≠ '-' := by rintro rfl; revert hc; decide
  simp only [signs, List.mem_cons, Prod.mk.injEq, List.not_mem_nil, or_false] at hsign
  rcases hsign with ⟨rfl, rfl⟩ | ⟨rfl, rfl⟩ | ⟨rfl, rfl⟩
  · rw [List.nil_append, exponentPart_unsigned hplus hminus]
    simp [hc]
  all_goals
    rw [List.singleton_append, exponentPart]
    simp only [hc, Bool.not_true, Bool.false_eq_true, if_false]
    rfl

/-- An exponent that is read is a sign, which may be missing, and digits. -/
theorem exponentPart_eq_ok {x : Float × List Char}
    (h : exponentPart positive n scale text = .ok x) :
    ∃ sign up body c, (sign, up) ∈ signs ∧ text = sign ++ body ∧ body.head? = some c ∧
      c.isDigit = true ∧ exponentDigits positive n scale up body = .ok x := by
  have hdigit : ∀ {up : Bool} {c : Char} {body : List Char},
      (if !c.isDigit then (.error (.next .invalidNumber (c :: body)) : Scan Float)
        else exponentDigits positive n scale up (c :: body)) = .ok x →
      c.isDigit = true ∧ exponentDigits positive n scale up (c :: body) = .ok x := by
    intro up c body h
    split at h
    next => cases h
    next hc => exact ⟨by simpa using hc, h⟩
  rcases text with _ | ⟨c, body⟩
  · cases h
  by_cases hplus : c = '+'
  · subst hplus
    rcases body with _ | ⟨c, body⟩
    · cases h
    · exact ⟨['+'], true, c :: body, c, by decide, rfl, rfl, hdigit h⟩
  by_cases hminus : c = '-'
  · subst hminus
    rcases body with _ | ⟨c, body⟩
    · cases h
    · exact ⟨['-'], false, c :: body, c, by decide, rfl, rfl, hdigit h⟩
  rw [exponentPart_unsigned hplus hminus] at h
  exact ⟨[], true, c :: body, c, by decide, rfl, rfl, hdigit h⟩

end

theorem takes_exponentPart (positive : Bool) (n : Nat) (scale : Int) :
    Takes (exponentPart positive n scale) Plain := by
  intro text x rest h
  obtain ⟨sign, up, body, c, hsign, rfl, hhead, hc, hdigits⟩ := exponentPart_eq_ok h
  obtain ⟨pre, rfl, hpre, hgo⟩ := takes_exponentDigits _ _ _ _ hdigits
  have hplain : ∀ p ∈ signs, p.1.all isPlain = true := List.all_eq_true.1 rfl
  refine ⟨sign ++ pre, by rw [List.append_assoc], (plain_of_all (hplain _ hsign)).append hpre,
    fun s hs => ?_⟩
  rw [List.append_assoc, exponentPart_sign hsign hc ((head?_append_congr hs pre).trans hhead),
    hgo s hs]

theorem takes_scalePart (positive : Bool) (n : Nat) (scale : Int) :
    Takes (scalePart positive n scale) Plain := by
  intro text x rest h
  unfold scalePart at h
  split at h
  next tail =>
    obtain ⟨pre, rfl, hpre, hgo⟩ := takes_exponentPart _ _ _ h
    exact ⟨'e' :: pre, rfl, hpre.cons rfl, hgo⟩
  next tail =>
    obtain ⟨pre, rfl, hpre, hgo⟩ := takes_exponentPart _ _ _ h
    exact ⟨'E' :: pre, rfl, hpre.cons rfl, hgo⟩
  next he hE =>
    obtain ⟨rfl, hfloat⟩ := floatOf_eq_ok h
    refine ⟨[], rfl, nofun, fun s hs => ?_⟩
    rw [List.nil_append, scalePart]
    · exact hfloat s
    · exact ne_cons_of_head? hs he
    · exact ne_cons_of_head? hs hE

theorem takes_fractionPart (positive : Bool) (n : Nat) (scale : Int) :
    Takes (fractionPart positive n scale) Plain := by
  intro text x rest h
  obtain ⟨ds, mid, hdigits⟩ : ∃ ds mid, digits text = (ds, mid) := ⟨_, _, rfl⟩
  obtain ⟨rfl, hds, hgo⟩ := digits_spec hdigits
  have hscale : ∀ {t : List Char} {m : List Char}, digits t = (ds, m) → ds ≠ [] →
      fractionPart positive n scale t = scalePart positive (absorb n ds).1
        (scale - (ds.length - (absorb n ds).2.length : Nat)) m := by
    intro t m ht hne
    obtain ⟨d, ds, rfl⟩ := List.exists_cons_of_ne_nil hne
    simp only [fractionPart, ht]
  have hne : ds ≠ [] := by
    rintro rfl
    rw [fractionPart, hdigits] at h
    cases mid <;> cases h
  rw [hscale hdigits hne] at h
  obtain ⟨pre, rfl, hpre, hgo'⟩ := takes_scalePart _ _ _ h
  refine ⟨ds ++ pre, (List.append_assoc ..).symm, (plain_of_digits hds).append hpre, fun s hs => ?_⟩
  rw [List.append_assoc, hscale (hgo _ (head?_append_congr hs pre)) hne, hgo' s hs]

/-- A number that ends with its first digits. -/
def wholeNumber (positive : Bool) (ds rest : List Char) : Scan Number :=
  let (n, excess) := absorb 0 ds
  if excess.isEmpty && positive then .ok (.int n, rest)
  else if excess.isEmpty && 0 < n && n ≤ Int64.minValue.toInt.natAbs then .ok (.int (-n), rest)
  else (floatOf positive n excess.length rest).map fun (x, r) => (.float x, r)

theorem wholeNumber_eq_ok {positive : Bool} {ds : List Char} {x : Number}
    (h : wholeNumber positive ds text = .ok (x, rest)) :
    rest = text ∧ ∀ s, wholeNumber positive ds s = .ok (x, s) := by
  rw [wholeNumber] at h
  dsimp only at h
  split at h
  next hint =>
    cases h
    exact ⟨rfl, fun s => if_pos hint⟩
  next hint =>
    split at h
    next hneg =>
      cases h
      exact ⟨rfl, fun s => (if_neg hint).trans (if_pos hneg)⟩
    next hneg =>
      obtain ⟨⟨y, r⟩, hfloat, heq⟩ := map_eq_ok h
      cases heq
      obtain ⟨hrest, hgo⟩ := floatOf_eq_ok hfloat
      refine ⟨hrest, fun s => (if_neg hint).trans ((if_neg hneg).trans ?_)⟩
      rw [hgo s]
      rfl

/-- A number from the end of its first digits on. -/
def numberTail (positive : Bool) (ds rest : List Char) : Scan Number :=
  let (n, excess) := absorb 0 ds
  match rest with
  | '.' :: rest => (fractionPart positive n excess.length rest).map fun (x, r) => (.float x, r)
  | 'e' :: rest | 'E' :: rest =>
    (exponentPart positive n excess.length rest).map fun (x, r) => (.float x, r)
  | _ => wholeNumber positive ds rest

theorem takes_numberTail (positive : Bool) (ds : List Char) :
    Takes (numberTail positive ds) Plain := by
  intro text x rest h
  rw [numberTail] at h
  dsimp only at h
  split at h
  next tail =>
    obtain ⟨pre, rfl, hpre, hgo⟩ := (takes_fractionPart _ _ _).map Number.float h
    exact ⟨'.' :: pre, rfl, hpre.cons rfl, hgo⟩
  next tail =>
    obtain ⟨pre, rfl, hpre, hgo⟩ := (takes_exponentPart _ _ _).map Number.float h
    exact ⟨'e' :: pre, rfl, hpre.cons rfl, hgo⟩
  next tail =>
    obtain ⟨pre, rfl, hpre, hgo⟩ := (takes_exponentPart _ _ _).map Number.float h
    exact ⟨'E' :: pre, rfl, hpre.cons rfl, hgo⟩
  next hpoint he hE =>
    obtain ⟨rfl, hgo⟩ := wholeNumber_eq_ok h
    refine ⟨[], rfl, nofun, fun s hs => ?_⟩
    rw [List.nil_append, numberTail]
    dsimp only
    split
    next => exact absurd rfl (ne_cons_of_head? hs hpoint _)
    next => exact absurd rfl (ne_cons_of_head? hs he _)
    next => exact absurd rfl (ne_cons_of_head? hs hE _)
    next => exact hgo s

theorem number_eq {positive : Bool} {ds : List Char} (hdigits : digits text = (ds, rest))
    (hne : ds ≠ []) (hzero : ∀ d tail, ds ≠ '0' :: d :: tail) :
    number positive text = numberTail positive ds rest := by
  obtain ⟨d, ds, rfl⟩ := List.exists_cons_of_ne_nil hne
  rw [number, hdigits]
  dsimp only
  split
  next => contradiction
  next => contradiction
  next heq => exact absurd heq (hzero _ _)
  next => rfl

/-- A number that is read starts with a digit, and with no zero in front of others. -/
theorem number_eq_ok {positive : Bool} {x : Number × List Char}
    (h : number positive text = .ok x) : ∃ ds rest, digits text = (ds, rest) ∧ ds ≠ [] ∧
      (∀ d tail, ds ≠ '0' :: d :: tail) ∧ numberTail positive ds rest = .ok x := by
  obtain ⟨ds, rest, hdigits⟩ : ∃ ds rest, digits text = (ds, rest) := ⟨_, _, rfl⟩
  have hne : ds ≠ [] := by
    rintro rfl
    rw [number, hdigits] at h
    cases text <;> cases h
  have hzero : ∀ d tail, ds ≠ '0' :: d :: tail := by
    rintro d tail rfl
    rw [number, hdigits] at h
    cases h
  exact ⟨ds, rest, hdigits, hne, hzero, number_eq hdigits hne hzero ▸ h⟩

theorem takes_number (positive : Bool) :
    Takes (number positive) fun pre => pre ≠ [] ∧ Plain pre := by
  intro text x rest h
  obtain ⟨ds, mid, hdigits, hne, hzero, htail⟩ := number_eq_ok h
  obtain ⟨rfl, hds, hgo⟩ := digits_spec hdigits
  obtain ⟨pre, rfl, hpre, hgo'⟩ := takes_numberTail _ _ htail
  refine ⟨ds ++ pre, (List.append_assoc ..).symm, ⟨by simp [hne],
    (plain_of_digits hds).append hpre⟩, fun s hs => ?_⟩
  rw [List.append_assoc, number_eq (hgo _ (head?_append_congr hs pre)) hne hzero, hgo' s hs]

/-! ### Strings -/

/-- What may stand between the quotes of a string: a backslash hides the character behind it. -/
inductive Quotable : List Char → Prop
  | nil : Quotable []
  | char {c : Char} {text : List Char} (hquote : c ≠ '"') (hback : c ≠ '\\')
      (h : Quotable text) : Quotable (c :: text)
  | escape (c : Char) {text : List Char} (h : Quotable text) : Quotable ('\\' :: c :: text)

theorem Quotable.append {pre text : List Char} (hpre : Quotable pre) (h : Quotable text) :
    Quotable (pre ++ text) := by
  induction hpre with
  | nil => exact h
  | char hquote hback _ ih => exact .char hquote hback ih
  | escape c _ ih => exact .escape c ih

theorem quotable_of_hexDigit? {c : Char} (h : hexDigit? c ≠ none) {text : List Char}
    (htext : Quotable text) : Quotable (c :: text) := by
  refine .char ?_ ?_ htext <;> rintro rfl <;> exact h (by decide)

theorem takes_hexEscape : Takes hexEscape Quotable := by
  intro text n rest h
  unfold hexEscape at h
  split at h
  next a b c d tail =>
    split at h
    next m hnumber =>
      cases h
      refine ⟨[a, b, c, d], rfl, ?_, fun s _ => by simp only [List.cons_append, List.nil_append,
        hexEscape, hnumber]⟩
      have hdigits : hexDigit? a ≠ none ∧ hexDigit? b ≠ none ∧ hexDigit? c ≠ none ∧
          hexDigit? d ≠ none := by
        refine ⟨?_, ?_, ?_, ?_⟩ <;> intro hnone <;> simp [hexNumber?, hnone] at hnumber
      obtain ⟨ha, hb, hc, hd⟩ := hdigits
      exact quotable_of_hexDigit? ha (quotable_of_hexDigit? hb (quotable_of_hexDigit? hc
        (quotable_of_hexDigit? hd .nil)))
    next => cases h
  next => split at h <;> cases h

theorem takes_pairEscape (high : Nat) : Takes (pairEscape high) Quotable := by
  intro text c rest h
  unfold pairEscape at h
  split at h
  next tail =>
    split at h
    next => cases h
    next low tail' hlow =>
      split at h
      next => cases h
      next hrange =>
        simp only [Except.ok.injEq, Prod.mk.injEq] at h
        obtain ⟨rfl, rfl⟩ := h
        obtain ⟨pre, rfl, hpre, hgo⟩ := takes_hexEscape hlow
        refine ⟨'\\' :: 'u' :: pre, rfl, .escape 'u' hpre, fun s hs => ?_⟩
        simp only [List.cons_append, pairEscape, hgo s hs, if_neg hrange]
  all_goals cases h

theorem takes_unicodeEscape : Takes unicodeEscape Quotable := by
  intro text c rest h
  unfold unicodeEscape at h
  split at h
  next => cases h
  next n tail hn =>
    obtain ⟨pre, rfl, hpre, hgo⟩ := takes_hexEscape hn
    split at h
    next => cases h
    next hlow =>
      split at h
      next hsingle =>
        cases h
        exact ⟨pre, rfl, hpre, fun s hs => by
          simp only [unicodeEscape, hgo s hs, if_neg hlow, if_pos hsingle]⟩
      next hpair =>
        obtain ⟨pre', rfl, hpre', hgo'⟩ := takes_pairEscape n h
        refine ⟨pre ++ pre', (List.append_assoc ..).symm, hpre.append hpre', fun s hs => ?_⟩
        rw [List.append_assoc, unicodeEscape, hgo _ (head?_append_congr hs pre')]
        simp only [if_neg hlow, if_neg hpair]
        exact hgo' s hs

theorem takes_escapeSequence : Takes escapeSequence fun pre => Quotable ('\\' :: pre) := by
  intro text c rest h
  unfold escapeSequence at h
  split at h
  case h_10 tail =>
    obtain ⟨pre, rfl, hpre, hgo⟩ := takes_unicodeEscape h
    exact ⟨'u' :: pre, rfl, .escape 'u' hpre, hgo⟩
  case h_1 | h_11 => cases h
  all_goals
    cases h
    exact ⟨[_], rfl, .escape _ .nil, fun s _ => rfl⟩

theorem stringBody_escaped {c : Char} (h : escapeSequence text = .ok (c, rest)) :
    stringBody ('\\' :: text) = (stringBody rest).map fun (s, left) => (c :: s, left) := by
  rw [stringBody]
  split
  next f hf =>
    rw [h] at hf
    cases hf
  next hc =>
    rw [h] at hc
    cases hc
    rfl

theorem stringBody_char {c : Char} (hquote : c ≠ '"') (hback : c ≠ '\\') (h : ¬ c.toNat < 0x20) :
    stringBody (c :: text) = (stringBody text).map fun (s, left) => (c :: s, left) := by
  rw [stringBody.eq_4 _ _ hquote hback]
  exact if_neg h

/-- A string ends at its quote, whatever follows. -/
theorem takes_stringBody :
    Takes stringBody fun pre => ∃ inner, pre = inner ++ ['"'] ∧ Quotable inner := by
  intro text cs rest h
  induction text using stringBody.induct generalizing cs with
  | case1 => simp [stringBody] at h
  | case2 tail =>
    rw [stringBody] at h
    cases h
    exact ⟨['"'], rfl, ⟨[], rfl, .nil⟩, fun s _ => by simp [stringBody]⟩
  | case3 tail f hf =>
    rw [stringBody] at h
    split at h
    next => cases h
    next hok =>
      rw [hf] at hok
      cases hok
  | case4 tail c rest' hc hlt ih =>
    rw [stringBody_escaped hc] at h
    obtain ⟨⟨cs', left⟩, hbody, heq⟩ := map_eq_ok h
    cases heq
    obtain ⟨pre, rfl, ⟨inner, rfl, hinner⟩, hgo⟩ := ih hbody
    obtain ⟨esc, rfl, hesc, hgo'⟩ := takes_escapeSequence hc
    refine ⟨'\\' :: (esc ++ (inner ++ ['"'])), by simp, ⟨'\\' :: esc ++ inner, by simp,
      hesc.append hinner⟩, fun s hs => ?_⟩
    rw [List.cons_append, List.append_assoc,
      stringBody_escaped (hgo' _ (head?_append_congr hs (inner ++ ['"']))), hgo s hs]
    rfl
  | case5 c tail hquote hback hcontrol =>
    rw [stringBody.eq_4 _ _ hquote hback, if_pos hcontrol] at h
    cases h
  | case6 c tail hquote hback hcontrol ih =>
    rw [stringBody_char hquote hback hcontrol] at h
    obtain ⟨⟨cs', left⟩, hbody, heq⟩ := map_eq_ok h
    cases heq
    obtain ⟨pre, rfl, ⟨inner, rfl, hinner⟩, hgo⟩ := ih hbody
    refine ⟨c :: (inner ++ ['"']), by simp, ⟨c :: inner, rfl, .char hquote hback hinner⟩,
      fun s hs => ?_⟩
    rw [List.cons_append, stringBody_char hquote hback hcontrol, hgo s hs]
    rfl

/-! ### Scalars -/

/-- A text without brackets and quotes, or what stands between two quotes, with them. -/
def Flat (pre : List Char) : Prop :=
  (pre ≠ [] ∧ Plain pre) ∨ ∃ inner, pre = '"' :: (inner ++ ['"']) ∧ Quotable inner

theorem Flat.ne_nil {pre : List Char} (h : Flat pre) : pre ≠ [] := by
  rcases h with ⟨h, -⟩ | ⟨inner, rfl, -⟩
  · exact h
  · exact List.cons_ne_nil _ _

theorem scalar_digit {c : Char} (hc : c.isDigit = true) :
    scalar (c :: text) = (number true (c :: text)).map fun (n, left) => (ofNumber n, left) := by
  rw [scalar]
  · exact if_pos hc
  all_goals
    rintro rfl
    revert hc
    decide

/-- A value that is not made of others, whatever follows it. -/
theorem takes_scalar : Takes scalar Flat := by
  intro text v rest h
  have hword : ∀ {c : Char} {letters : List Char} {w : Json} {tail : List Char},
      (∀ t, scalar (c :: t) = (word letters t).map (w, ·)) → Plain (c :: letters) →
      text = c :: tail → ∃ pre, text = pre ++ rest ∧ Flat pre ∧
        ∀ s, s.head? = rest.head? → scalar (pre ++ s) = .ok (v, s) := by
    rintro c letters w tail heq hplain rfl
    rw [heq] at h
    obtain ⟨pre, rfl, rfl, hgo⟩ := takes_word letters w h
    exact ⟨c :: pre, rfl, .inl ⟨List.cons_ne_nil _ _, hplain⟩, fun s hs => (heq _).trans (hgo s hs)⟩
  unfold scalar at h
  split at h
  next => cases h
  next => exact hword (fun _ => rfl) (plain_of_all rfl) rfl
  next => exact hword (fun _ => rfl) (plain_of_all rfl) rfl
  next => exact hword (fun _ => rfl) (plain_of_all rfl) rfl
  next tail =>
    obtain ⟨pre, rfl, ⟨-, hplain⟩, hgo⟩ := (takes_number false).map ofNumber h
    exact ⟨'-' :: pre, rfl, .inl ⟨List.cons_ne_nil _ _, hplain.cons rfl⟩, hgo⟩
  next tail =>
    obtain ⟨pre, rfl, ⟨inner, rfl, hinner⟩, hgo⟩ :=
      takes_stringBody.map (fun s => Json.str (String.ofList s)) h
    exact ⟨'"' :: (inner ++ ['"']), rfl, .inr ⟨inner, rfl, hinner⟩, hgo⟩
  next c tail _ _ _ _ _ =>
    split at h
    next hc =>
      obtain ⟨pre, htext, ⟨hne, hplain⟩, hgo⟩ := (takes_number true).map ofNumber h
      obtain ⟨d, pre, rfl⟩ := List.exists_cons_of_ne_nil hne
      obtain ⟨rfl, -⟩ := List.cons.inj htext
      exact ⟨c :: pre, htext, .inl ⟨hne, hplain⟩, fun s hs => (scalar_digit hc).trans (hgo s hs)⟩
    next => cases h

end Renaming.Json
