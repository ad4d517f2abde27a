import Renaming.Proofs.Checked.Bracket

/-!
Where the inside of a tag is. A position is inside a tag when what stands between it and a less-than
sign that opens a tag is made of plain characters and of groups in braces, with anything in them.

The search goes from the position backwards, so the grammar is given from its right end:
`Grouped.concat_cases` reads the last character off. `Within` is the invariant of the search, where
some closing braces have been met and not yet matched; it has an equation for each kind of character,
and `insideTag_iff` follows from them by induction on the marks.
-/

namespace Renaming.Checked

open Renaming.Source
open Renaming.Source.Segment (byteAt? lt_size_of_byteAt?)

/-! ### Groups in braces -/

/-- A text of single characters with a property and groups in braces, in any order. A group may have
any characters inside, as long as its braces are matched. -/
inductive Grouped : (single : Char → Prop) → List Char → Prop
  | nil {single : Char → Prop} : Grouped single []
  | single {single : Char → Prop} {t : List Char} {c : Char} : Grouped single t → single c →
    Grouped single (t ++ [c])
  | group {single : Char → Prop} {t s : List Char} : Grouped single t →
    Grouped (fun c => c ≠ '{' ∧ c ≠ '}') s → Grouped single (t ++ '{' :: (s ++ ['}']))

/-- The characters that are no braces. -/
abbrev NoBrace (c : Char) : Prop := c ≠ '{' ∧ c ≠ '}'

/-- The characters that may stand between the attributes of a tag outside of groups. -/
def IsPlain (c : Char) : Prop := c ∉ "\x7b\x7d<>;()[]".toList

theorem IsPlain.noBrace {c : Char} (h : IsPlain c) : NoBrace c := by
  constructor <;> rintro rfl <;> exact h (by decide)

theorem Grouped.concat_cases {single : Char → Prop} {t : List Char} {c : Char}
    (h : Grouped single (t ++ [c])) : (Grouped single t ∧ single c) ∨
      (c = '}' ∧ ∃ s b, t = s ++ '{' :: b ∧ Grouped single s ∧ Grouped NoBrace b) := by
  generalize hx : t ++ [c] = x at h
  cases h with
  | nil => simp at hx
  | @single _ s d hs hd =>
    obtain ⟨rfl, hc⟩ := List.append_inj' hx rfl
    obtain rfl := List.singleton_inj.1 hc
    exact .inl ⟨hs, hd⟩
  | @group _ s b hs hb =>
    rw [← List.cons_append, ← List.append_assoc] at hx
    obtain ⟨rfl, hc⟩ := List.append_inj' hx rfl
    exact .inr ⟨List.singleton_inj.1 hc, s, b, rfl, hs, hb⟩

/-! ### The search -/

/-- What stands between a less-than sign and a place where the search has met `depth` closing braces
that are not matched yet: each of them is matched by a brace that opens a group. -/
def Within : (depth : Nat) → List Char → Prop
  | 0, t => Grouped IsPlain t
  | depth + 1, t => ∃ s b, t = s ++ '{' :: b ∧ Within depth s ∧ Grouped NoBrace b

theorem within_nil_iff {depth : Nat} : Within depth [] ↔ depth = 0 := by
  cases depth with
  | zero => exact iff_of_true .nil rfl
  | succ depth => simp [Within]

theorem within_group {depth : Nat} {t s : List Char} (h : Within depth t)
    (hs : Grouped NoBrace s) : Within depth (t ++ '{' :: (s ++ ['}'])) := by
  cases depth with
  | zero => exact .group h hs
  | succ depth =>
    obtain ⟨u, b, rfl, hu, hb⟩ := h
    exact ⟨u, b ++ '{' :: (s ++ ['}']), by simp, hu, hb.group hs⟩

theorem concat_eq_append_brace {t s b : List Char} {c : Char} (h : t ++ [c] = s ++ '{' :: b) :
    (b = [] ∧ c = '{' ∧ t = s) ∨ ∃ b', b = b' ++ [c] ∧ t = s ++ '{' :: b' := by
  rcases List.eq_nil_or_concat b with rfl | ⟨b', d, rfl⟩
  · obtain ⟨rfl, hc⟩ := List.append_inj' h rfl
    exact .inl ⟨rfl, List.singleton_inj.1 hc, rfl⟩
  · rw [List.concat_eq_append, ← List.cons_append, ← List.append_assoc] at h
    obtain ⟨rfl, hc⟩ := List.append_inj' h rfl
    obtain rfl := List.singleton_inj.1 hc
    exact .inr ⟨b', List.concat_eq_append, rfl⟩

theorem within_concat_close {depth : Nat} {t : List Char} :
    Within depth (t ++ ['}']) ↔ Within (depth + 1) t := by
  constructor
  · intro h
    cases depth with
    | zero =>
      rcases Grouped.concat_cases h with ⟨-, hplain⟩ | ⟨-, hs⟩
      · exact absurd rfl hplain.noBrace.2
      · exact hs
    | succ depth =>
      obtain ⟨u, b, ht, hu, hb⟩ := h
      rcases concat_eq_append_brace ht with ⟨-, hc, -⟩ | ⟨b, rfl, rfl⟩
      · exact absurd hc (by decide)
      · rcases hb.concat_cases with ⟨-, hbrace⟩ | ⟨-, s, b', rfl, hs, hb'⟩
        · exact absurd rfl hbrace.2
        · exact ⟨u ++ '{' :: s, b', by simp, ⟨u, s, rfl, hu, hs⟩, hb'⟩
  · rintro ⟨s, b, rfl, hs, hb⟩
    rw [List.append_assoc, List.cons_append]
    exact within_group hs hb

theorem not_within_concat_open {t : List Char} : ¬ Within 0 (t ++ ['{']) := by
  intro h
  rcases Grouped.concat_cases h with ⟨-, hplain⟩ | ⟨hc, -⟩
  · exact absurd rfl hplain.noBrace.1
  · exact absurd hc (by decide)

theorem within_concat_open {depth : Nat} {t : List Char} :
    Within (depth + 1) (t ++ ['{']) ↔ Within depth t := by
  constructor
  · rintro ⟨s, b, ht, hs, hb⟩
    rcases concat_eq_append_brace ht with ⟨-, -, rfl⟩ | ⟨b, rfl, rfl⟩
    · exact hs
    · rcases hb.concat_cases with ⟨-, hbrace⟩ | ⟨hc, -⟩
      · exact absurd rfl hbrace.1
      · exact absurd hc (by decide)
  · exact fun h => ⟨t, [], rfl, h, .nil⟩

theorem within_concat {depth : Nat} {t : List Char} {c : Char} (hc : NoBrace c) :
    Within depth (t ++ [c]) ↔ (depth = 0 → IsPlain c) ∧ Within depth t := by
  cases depth with
  | zero =>
    constructor
    · intro h
      rcases Grouped.concat_cases h with ⟨ht, hplain⟩ | ⟨hclose, -⟩
      · exact ⟨fun _ => hplain, ht⟩
      · exact absurd hclose hc.2
    · exact fun h => .single h.2 (h.1 rfl)
  | succ depth =>
    constructor
    · rintro ⟨s, b, ht, hs, hb⟩
      refine ⟨nofun, ?_⟩
      rcases concat_eq_append_brace ht with ⟨-, hopen, -⟩ | ⟨b, rfl, rfl⟩
      · exact absurd hopen hc.1
      · rcases hb.concat_cases with ⟨hb, -⟩ | ⟨hclose, -⟩
        · exact ⟨s, b, rfl, hs, hb⟩
        · exact absurd hclose hc.2
    · rintro ⟨-, s, b, rfl, hs, hb⟩
      exact ⟨s, b ++ [c], by simp, hs, hb.single hc⟩

theorem within_append {single : Char → Prop} {depth : Nat} {t s : List Char}
    (h : Grouped single s) (hbrace : ∀ c, single c → NoBrace c)
    (hplain : depth = 0 → ∀ c, single c → IsPlain c) :
    Within depth (t ++ s) ↔ Within depth t := by
  induction h generalizing depth t with
  | nil => rw [List.append_nil]
  | single _ hc ih =>
    rw [← List.append_assoc, within_concat (hbrace _ hc), ih hbrace hplain]
    exact and_iff_right fun h0 => hplain h0 _ hc
  | @group single u s _ _ ihu ihs =>
    have hsplit : t ++ (u ++ '{' :: (s ++ ['}'])) = t ++ u ++ ['{'] ++ s ++ ['}'] := by simp
    rw [hsplit, within_concat_close, ihs (fun _ => id) (fun h0 => absurd h0 (Nat.succ_ne_zero _)),
      within_concat_open, ihu hbrace hplain]

/-! ### The search over marks -/

theorem codeOf_cons (m : Mark) (ms : List Mark) :
    codeOf (m :: ms) = if m.inCode then m.char :: codeOf ms else codeOf ms := by
  cases h : m.inCode <;> simp [codeOf, h]

/-- Among the marks there is a less-than sign that opens a tag, with nothing between it and the
place but what the search passes over. -/
def Opened (depth : Nat) (next : Option Char) (ms : List Mark) : Prop :=
  ∃ us vs, ms = us ++ ⟨'<', true⟩ :: vs ∧
    Source.opensTag ((us.getLast?.map Mark.char).or next) vs = true ∧
    Within depth (codeOf us).reverse

/-- The less-than sign is the first mark, or the search passes over the first mark on a condition
and goes on at another depth. -/
theorem opened_cons {m : Mark} {depth : Nat} (p : Prop) (depth' : Nat)
    (h : ∀ us, Within depth (codeOf (m :: us)).reverse ↔ p ∧ Within depth' (codeOf us).reverse)
    (next : Option Char) (ms : List Mark) : Opened depth next (m :: ms) ↔
      (m = ⟨'<', true⟩ ∧ Source.opensTag next ms = true ∧ depth = 0) ∨
        (p ∧ Opened depth' (some m.char) ms) := by
  have hlast : ∀ us : List Mark, (((m :: us).getLast?).map Mark.char).or next =
      (us.getLast?.map Mark.char).or (some m.char) := by
    intro us
    rw [List.getLast?_cons]
    cases us.getLast? <;> rfl
  constructor
  · rintro ⟨us, vs, hms, hopens, hwithin⟩
    cases us with
    | nil =>
      obtain ⟨rfl, rfl⟩ := List.cons.inj hms
      exact .inl ⟨rfl, hopens, within_nil_iff.1 hwithin⟩
    | cons u us =>
      obtain ⟨rfl, rfl⟩ := List.cons.inj hms
      rw [hlast] at hopens
      obtain ⟨hp, hwithin⟩ := (h us).1 hwithin
      exact .inr ⟨hp, us, vs, rfl, hopens, hwithin⟩
  · rintro (⟨rfl, hopens, h0⟩ | ⟨hp, us, vs, rfl, hopens, hwithin⟩)
    · exact ⟨[], ms, rfl, hopens, within_nil_iff.2 h0⟩
    · exact ⟨m :: us, vs, rfl, by rwa [hlast], (h us).2 ⟨hp, hwithin⟩⟩

theorem insideTag_iff (depth : Nat) (next : Option Char) (ms : List Mark) :
    Source.insideTag depth next ms = true ↔ Opened depth next ms := by
  induction ms generalizing depth next with
  | nil => simp [Source.insideTag, Opened]
  | cons m ms ih =>
    obtain ⟨c, inCode⟩ := m
    have hcode : ∀ us, (codeOf (⟨c, true⟩ :: us)).reverse = (codeOf us).reverse ++ [c] := by
      intro us
      rw [codeOf_cons, if_pos rfl, List.reverse_cons]
    cases inCode with
    | false =>
      rw [opened_cons True depth (fun us => by simp [codeOf_cons])]
      simp [Source.insideTag, ih]
    | true =>
      by_cases hclose : c = '}'
      · subst hclose
        rw [opened_cons True (depth + 1) fun us => by
          rw [hcode, within_concat_close, true_and]]
        simp [Source.insideTag, ih]
      · by_cases hopen : c = '{'
        · subst hopen
          cases depth with
          | zero =>
            rw [opened_cons False 0 fun us => by
              rw [hcode, false_and, iff_false]
              exact not_within_concat_open]
            simp [Source.insideTag]
          | succ depth =>
            rw [opened_cons True depth fun us => by
              rw [hcode, within_concat_open, true_and]]
            simp [Source.insideTag, ih]
        · rw [opened_cons (depth = 0 → IsPlain c) depth fun us => by
            rw [hcode, within_concat ⟨hopen, hclose⟩]]
          cases depth with
          | zero =>
            by_cases hangle : c = '<'
            · have hplain : ¬ IsPlain c := fun h => h (by rw [hangle]; decide)
              simp [Source.insideTag, hangle, hangle ▸ hplain]
            · have hplain : IsPlain c ↔ c ∉ ">;()[]".toList := by
                simp [IsPlain, hopen, hclose, hangle]
              have hfirst : (⟨c, true⟩ : Mark) ≠ ⟨'<', true⟩ := by simp [hangle]
              simp only [Source.insideTag, hclose, hopen, hangle, hplain, hfirst,
                List.contains_eq_mem, ← ih]
              by_cases hmem : c ∈ ">;()[]".toList <;> simp only [hmem] <;> simp
          | succ depth => simp [Source.insideTag, hclose, hopen, ih]

/-! ### The search over bytes -/

section

variable {bytes : Array UInt8} {code : Array Bool}

theorem exists_split_iff (hsize : code.size = bytes.size) {pos : Nat} (hpos : pos ≤ bytes.size)
    {m : Mark} (q : List Mark → List Mark → Prop) :
    (∃ us vs, marksBefore bytes code pos = us ++ m :: vs ∧ q us vs) ↔
      ∃ i < pos, byteAt? bytes i = some m.char ∧ code[i]? = some m.inCode ∧
        q (marksBetween bytes code (i + 1) pos) (marksBefore bytes code i) := by
  induction pos generalizing q with
  | zero => simp
  | succ k ih =>
    obtain ⟨c, b, hc, hb⟩ := exists_mark hsize (i := k) (by omega)
    have ih := ih (Nat.le_of_succ_le hpos) fun us => q (⟨c, b⟩ :: us)
    rw [marksBefore_succ hc hb]
    constructor
    · rintro ⟨us, vs, hms, hq⟩
      cases us with
      | nil =>
        obtain ⟨rfl, rfl⟩ := List.cons.inj hms
        exact ⟨k, Nat.lt_succ_self k, hc, hb, by rwa [marksBetween_self]⟩
      | cons u us =>
        obtain ⟨rfl, hrest⟩ := List.cons.inj hms
        obtain ⟨i, hi, h1, h2, hq⟩ := ih.1 ⟨us, vs, hrest, hq⟩
        exact ⟨i, by omega, h1, h2, by rwa [marksBetween_succ hi hc hb]⟩
    · rintro ⟨i, hi, h1, h2, hq⟩
      by_cases hik : i = k
      · subst hik
        rw [marksBetween_self] at hq
        obtain rfl : m = ⟨c, b⟩ := by
          rw [hc] at h1
          rw [hb] at h2
          cases m
          simp_all
        exact ⟨[], _, rfl, hq⟩
      · have hi' : i < k := by omega
        rw [marksBetween_succ hi' hc hb] at hq
        obtain ⟨us, vs, hms, hq⟩ := ih.2 ⟨i, hi', h1, h2, hq⟩
        exact ⟨_ :: us, vs, by rw [hms]; rfl, hq⟩

theorem getLast?_marksBetween (hsize : code.size = bytes.size) {pos i : Nat}
    (hpos : pos ≤ bytes.size) (hi : i ≤ pos) :
    ((marksBetween bytes code i pos).getLast?.map Mark.char).or (byteAt? bytes pos) =
      byteAt? bytes i := by
  obtain ⟨n, rfl⟩ := Nat.exists_eq_add_of_le hi
  induction n with
  | zero => rw [Nat.add_zero, marksBetween_self]; rfl
  | succ n ih =>
    obtain ⟨c, b, hc, hb⟩ := exists_mark hsize (i := i + n) (by omega)
    rw [← Nat.add_assoc, marksBetween_succ (by omega) hc hb, ← ih (by omega) (by omega), hc,
      List.getLast?_cons]
    cases (marksBetween bytes code i (i + n)).getLast? <;> rfl

/-- The tag around the position `pos` opens with the less-than sign at `lt`: what stands between
them is made of plain characters and groups. -/
structure TagAt (bytes : Array UInt8) (code : Array Bool) (pos lt : Nat) : Prop where
  lt_pos : lt < pos
  angle : byteAt? bytes lt = some '<'
  inCode : code[lt]? = some true
  opens : opensTag bytes lt = .ok true
  between : Grouped IsPlain (codeBetween bytes code (lt + 1) pos)

theorem codeBetween_succ {start i : Nat} {c : Char} (hi : start ≤ i)
    (hc : byteAt? bytes i = some c) (hb : code[i]? = some true) :
    codeBetween bytes code start (i + 1) = codeBetween bytes code start i ++ [c] := by
  rw [← reverse_codeOf_marksBetween, marksBetween_succ hi hc hb, codeOf_cons, if_pos rfl,
    List.reverse_cons, reverse_codeOf_marksBetween]

theorem codeBetween_append {start mid stop : Nat} (h : start ≤ mid) (h' : mid ≤ stop) :
    codeBetween bytes code start stop =
      codeBetween bytes code start mid ++ codeBetween bytes code mid stop := by
  have htake : (bytes.toList.zip code.toList).take mid =
      ((bytes.toList.zip code.toList).take stop).take mid := by
    rw [List.take_take, Nat.min_eq_left h']
  rw [codeBetween, codeBetween, codeBetween, ← List.filterMap_append, htake]
  generalize (bytes.toList.zip code.toList).take stop = xs
  have hdrop : (xs.drop start).drop (mid - start) = xs.drop mid := by
    rw [List.drop_drop, Nat.add_sub_cancel' h]
  rw [List.drop_take, ← hdrop, List.take_append_drop]

/-- Behind the sign that opens a tag around a position no other one does: it would stand between the
first one and the position, outside of groups. -/
theorem TagAt.le {pos lt lt' : Nat} (h : TagAt bytes code pos lt) (h' : TagAt bytes code pos lt') :
    lt' ≤ lt := by
  refine Nat.not_lt.1 fun hlt => ?_
  have hbetween : Within 0 (codeBetween bytes code (lt + 1) pos) := h.between
  rw [codeBetween_append (Nat.le_succ_of_le hlt) (Nat.succ_le_of_lt h'.lt_pos),
    within_append h'.between (fun _ => IsPlain.noBrace) (fun _ _ => id),
    codeBetween_succ hlt h'.angle h'.inCode, within_concat (by decide)] at hbetween
  exact hbetween.1 rfl (by decide)

/-- **The inside of a tag.** The search gives a result, and it is successful exactly when there is a
tag around the position; there is one at most. -/
theorem insideTag_iff_tagAt (bytes : Array UInt8) (code : Array Bool) (pos : Nat)
    (hsize : code.size = bytes.size) (hpos : pos ≤ bytes.size) :
    ∃ inside, insideTag bytes code 0 pos = .ok inside ∧
      (inside = true ↔ ∃ lt, TagAt bytes code pos lt) ∧
      ∀ lt lt', TagAt bytes code pos lt → TagAt bytes code pos lt' → lt = lt' := by
  refine ⟨_, insideTag_eq hsize 0 hpos, ?_, fun lt lt' h h' =>
    Nat.le_antisymm (h'.le h) (h.le h')⟩
  rw [insideTag_iff, Opened, exists_split_iff hsize hpos fun us vs =>
    Source.opensTag ((us.getLast?.map Mark.char).or (byteAt? bytes pos)) vs = true ∧
      Within 0 (codeOf us).reverse]
  constructor
  · rintro ⟨lt, hlt, hangle, hcode, hopens, hwithin⟩
    rw [getLast?_marksBetween hsize hpos hlt] at hopens
    rw [reverse_codeOf_marksBetween] at hwithin
    exact ⟨lt, hlt, hangle, hcode, by rw [opensTag_eq hsize (by omega), hopens], hwithin⟩
  · rintro ⟨lt, h⟩
    refine ⟨lt, h.lt_pos, h.angle, h.inCode, ?_, ?_⟩
    · rw [getLast?_marksBetween hsize hpos h.lt_pos]
      have hopens := h.opens
      rw [opensTag_eq hsize (by have := h.lt_pos; omega)] at hopens
      exact Except.ok.inj hopens
    · rw [reverse_codeOf_marksBetween]
      exact h.between

/-- A group and a string, which is no code, may stand between the name of a tag and the position. -/
theorem insideTag_behind_group :
    let bytes : Array UInt8 :=
      #[0x3C, 0x62, 0x20, 0x22, 0x3E, 0x22, 0x20, 0x7B, 0x3B, 0x7D, 0x20, 0x79]
    let code := #[true, true, true, false, false, false, true, true, true, true, true, true]
    code.size = bytes.size ∧ 11 ≤ bytes.size ∧ insideTag bytes code 0 11 = .ok true ∧
      ∃ lt, TagAt bytes code 11 lt := by
  intro bytes code
  obtain ⟨inside, hrun, hiff, -⟩ := insideTag_iff_tagAt bytes code 11 rfl (by decide)
  have htrue : insideTag bytes code 0 11 = .ok true := rfl
  obtain rfl : inside = true := Except.ok.inj (hrun.symm.trans htrue)
  exact ⟨rfl, by decide, htrue, hiff.1 rfl⟩

end

end Renaming.Checked
