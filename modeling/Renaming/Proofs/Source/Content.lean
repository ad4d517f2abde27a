import Renaming.Proofs.Source.Form

/-!
The content of a closed string. `inner?` looks at the two ends of a text: whether the last quote is
escaped it tells by the number of backslashes in front of it. The reader goes over the text from the
left.

* `escapes_eq`: both find the same characters escaped.
* `HasForm.inner?_eq_some_iff`: a literal has a content exactly when a quote opens it and its closing
  delimiter ends it.
* `content?_iff`: so it is for every segment of every source.
-/

namespace Renaming.Source

/-! ### Backslashes in front of a character -/

theorem length_takeWhile_concat (t : List Char) (c : Char) :
    ((t ++ [c]).reverse.takeWhile (· == '\\')).length =
      if c = '\\' then (t.reverse.takeWhile (· == '\\')).length + 1 else 0 := by
  rw [List.reverse_append, List.reverse_singleton, List.singleton_append, List.takeWhile_cons]
  by_cases h : c = '\\'
  · simp [h]
  · simp [h]

theorem escapes_eq (t : List Char) :
    escapes false t = decide ((t.reverse.takeWhile (· == '\\')).length % 2 = 1) := by
  induction t using List.reverseRecOn with
  | nil => rfl
  | append_singleton t c ih =>
    rw [escapes_append, ih, length_takeWhile_concat]
    by_cases h : c = '\\'
    · rw [if_pos h]
      by_cases hodd : (t.reverse.takeWhile (· == '\\')).length % 2 = 1
      · have heven : ((t.reverse.takeWhile (· == '\\')).length + 1) % 2 ≠ 1 := by omega
        simp [hodd, heven]
      · have hodd' : ((t.reverse.takeWhile (· == '\\')).length + 1) % 2 = 1 := by omega
        simp [hodd, hodd', h]
    · rw [if_neg h]
      simp [h]

theorem inner?_eq_some_iff {t c : List Char} : inner? t = some c ↔
    ∃ q, isQuote q = true ∧ escapes false c = false ∧ t = q :: (c ++ [q]) := by
  constructor
  · intro h
    unfold inner? at h
    split at h
    · cases h
    · next q r =>
      split at h
      · cases h
      · next z m hm =>
        split at h
        · next hq =>
          obtain rfl := Option.some.inj h
          refine ⟨q, hq.2.1, ?_, ?_⟩
          · rw [escapes_eq, List.reverse_reverse]
            simp [hq.2.2]
          · rw [hq.1, ← List.reverse_cons, ← hm, List.reverse_reverse]
        · cases h
  · rintro ⟨q, hq, he, rfl⟩
    rw [escapes_eq, decide_eq_false_iff_not] at he
    have heven : (c.reverse.takeWhile (· == '\\')).length % 2 = 0 := by omega
    simp [inner?, hq, heven]

/-! ### Closed literals -/

theorem not_escaped_of_closed {q : Char} {c u : List Char} (he : escapes false c = false)
    (hu : u = c ++ [q]) : ¬ Escaped false [q] u := by
  intro h
  rw [h c [] (by rw [hu, List.append_nil])] at he
  cases he

theorem closer_of_isQuote {q : Char} (h : isQuote q = true) : closer q = q := by
  simp only [isQuote, Bool.or_eq_true, beq_iff_eq] at h
  rcases h with (rfl | rfl) | rfl <;> rfl

theorem mem_stops_of_isQuote {q : Char} (h : isQuote q = true) : [q] ∈ stops q := by
  simp only [isQuote, Bool.or_eq_true, beq_iff_eq] at h
  rcases h with (rfl | rfl) | rfl <;> decide

theorem HasForm.delimits {q : Char} {c b : List Char} (hq : isQuote q = true)
    (h : HasForm (.delimited q .delimiter) (q :: (c ++ [q])) b) :
    Delimits q false .delimiter c [q] b := by
  generalize ht : q :: (c ++ [q]) = t at h
  cases h with
  | @delimited _ _ u tail b ho hd =>
    obtain ⟨-, hu⟩ := List.cons.inj ht
    obtain ⟨htail, -⟩ := ends_delimiter_iff.1 hd.ends
    rw [closer_of_isQuote hq] at htail
    rw [htail] at hd hu
    rwa [List.append_cancel_right hu]

theorem HasForm.inner?_eq_some_iff {form : Form} {t b c : List Char} (h : HasForm form t b)
    (hk : form.kind = .literal) : inner? t = some c ↔
      ∃ q, isQuote q = true ∧ form = .delimited q .delimiter ∧ t = q :: (c ++ [q]) := by
  rw [Source.inner?_eq_some_iff]
  constructor
  · rintro ⟨q, hq, he, ht⟩
    refine ⟨q, hq, ?_, ht⟩
    cases h with
    | code => cases hk
    | lineComment => cases hk
    | blockComment => cases hk
    | openComment => cases hk
    | regex =>
      obtain ⟨rfl, -⟩ := List.cons.inj ht
      cases hq
    | @delimited o fin u tail b ho hd =>
      obtain ⟨rfl, hu⟩ := List.cons.inj ht
      have hinside := hd.inside [o] (mem_stops_of_isQuote hq)
      cases hd.ends with
      | delimiter => rfl
      | line =>
        rw [List.append_nil] at hu
        exact absurd hinside (not_escaped_of_closed he hu)
      | substitution =>
        have hlast := congrArg List.getLast? hu
        simp only [List.getLast?_append, List.getLast?_cons_cons, List.getLast?_singleton,
          Option.some_or, Option.some.injEq] at hlast
        rw [← hlast] at hq
        cases hq
      | source =>
        rw [List.append_nil] at hu
        exact absurd hinside (not_escaped_of_closed he hu)
  · rintro ⟨q, hq, rfl, rfl⟩
    exact ⟨q, hq, (ends_delimiter_iff.1 (h.delimits hq).ends).2, rfl⟩

/-! ### The contents of segments -/

theorem Segment.Spans.text? {source : String} {s : Segment} {t b : List Char}
    (h : s.Spans source t b) : s.text? source = some t := by
  obtain ⟨a, hsource, hstart, hstop⟩ := h
  obtain ⟨kind, start, stop⟩ := s
  simp only at hstart hstop
  rw [hstart, hstop, byteLength_append]
  exact text?_eq hsource kind

/-- **The content of a segment** is what stands between its delimiters, when a quote opens it and its
closing delimiter ends it. A segment of any other form has none: code, a comment, a regular
expression, a piece of a template with a substitution at one of its ends, and a string or template
that is not closed. -/
theorem content?_iff (source : String) : ∀ s ∈ segmentsOf source, ∃ t b : List Char,
    s.Spans source t b ∧ (∃ form : Form, form.kind = s.kind ∧ HasForm form t b) ∧
      ∀ form : Form, form.kind = s.kind → HasForm form t b → ∀ c : List Char,
        s.content? source = some c ↔ ∃ q, isQuote q = true ∧ form = .delimited q .delimiter ∧
          t = q :: (c ++ [q]) ∧ Escaped false [q] c := by
  intro s hs
  obtain ⟨xs, p, ys, hp, hkind, hspans⟩ := Segment.exists_piece hs
  obtain ⟨form₀, hk₀, hform₀⟩ := hasForm_of_pieces hp
  refine ⟨p.text, textOf ys, hspans, ⟨form₀, hk₀.trans hkind.symm, hform₀⟩, ?_⟩
  intro form hk hform c
  by_cases hliteral : s.kind = .literal
  · rw [Segment.content?, if_pos hliteral, hspans.text?, Option.bind_some,
      hform.inner?_eq_some_iff (hk.trans hliteral)]
    constructor
    · rintro ⟨q, hq, rfl, ht⟩
      rw [ht] at hform
      have hinside := (hform.delimits hq).inside [q] (mem_stops_of_isQuote hq)
      exact ⟨q, hq, rfl, ht, hinside⟩
    · rintro ⟨q, hq, hf, ht, -⟩
      exact ⟨q, hq, hf, ht⟩
  · rw [Segment.content?, if_neg hliteral]
    constructor
    · intro h
      cases h
    · rintro ⟨q, -, rfl, -⟩
      exact absurd hk.symm hliteral

/-- Two backslashes in front of a quote do not escape it. -/
theorem content?_iff_backslashes : (⟨.literal, 2, 7⟩ : Segment) ∈ segmentsOf "f('a\\\\')" ∧
    ∃ t b : List Char, Segment.Spans "f('a\\\\')" ⟨.literal, 2, 7⟩ t b ∧
      (∃ form : Form, form.kind = .literal ∧ HasForm form t b) ∧
      ∀ form : Form, form.kind = .literal → HasForm form t b → ∀ c : List Char,
        Segment.content? "f('a\\\\')" ⟨.literal, 2, 7⟩ = some c ↔
          ∃ q, isQuote q = true ∧ form = .delimited q .delimiter ∧
            t = q :: (c ++ [q]) ∧ Escaped false [q] c := by
  have hmem : (⟨.literal, 2, 7⟩ : Segment) ∈ segmentsOf "f('a\\\\')" := by decide +kernel
  exact ⟨hmem, content?_iff _ _ hmem⟩

end Renaming.Source
