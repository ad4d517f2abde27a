import Renaming.Proofs.Rename.Splice
import Renaming.Proofs.Source.Step
import Renaming.Source.Segment

/-!
The scanners of the segmenter go by bytes, those of the reader by characters. Each of them ends at
the position at which the other one cuts the source: `quotedEnd_eq`, `templateEnd_eq`,
`regexEnd?_eq` and so on. What makes it so is that no byte of a character outside ASCII is one that
a scanner stops at, not even when it starts in the middle of one (`pass_rest`).
-/

namespace Renaming

/-! ### The bytes of a character -/

theorem utf8_of_lt {c : Char} (h : c.toNat < 0x80) : utf8 [c] = [UInt8.ofNat c.toNat] := by
  have hc : c.toNat = c.val.toNat := rfl
  rw [utf8, List.flatMap_singleton, String.utf8EncodeChar, if_pos (by omega), hc]

theorem ofUInt8_ofNat {c : Char} (h : c.toNat < 0x80) : Char.ofUInt8 (UInt8.ofNat c.toNat) = c := by
  rw [← Char.toNat_inj]
  change (UInt8.ofNat c.toNat).toNat = c.toNat
  rw [UInt8.toNat_ofNat']
  omega

/-- Outside ASCII every byte has its high bit set. -/
theorem le_of_mem_utf8 {c : Char} (h : 0x80 ≤ c.toNat) {b : UInt8} (hb : b ∈ utf8 [c]) :
    0x80 ≤ b.toNat := by
  have hc : c.toNat = c.val.toNat := rfl
  rw [utf8, List.flatMap_singleton, String.utf8EncodeChar, if_neg (by omega)] at hb
  split at hb
  · simp only [List.mem_cons, List.not_mem_nil, or_false] at hb
    rcases hb with rfl | rfl <;> rw [UInt8.toNat_ofNat'] <;> omega
  · split at hb
    · simp only [List.mem_cons, List.not_mem_nil, or_false] at hb
      rcases hb with rfl | rfl | rfl <;> rw [UInt8.toNat_ofNat'] <;> omega
    · simp only [List.mem_cons, List.not_mem_nil, or_false] at hb
      rcases hb with rfl | rfl | rfl | rfl <;> rw [UInt8.toNat_ofNat'] <;> omega

namespace Source.Segment

/-! ### Bytes at positions -/

/-- The bytes of a text. -/
def encoded (text : List Char) : Array UInt8 := (utf8 text).toArray

theorem size_encoded (text : List Char) : (encoded text).size = byteLength text := by
  rw [encoded, List.size_toArray, length_utf8]

section

variable {source a r : List Char} {c d : Char}

theorem byteAt?_eq (source : List Char) (i : Nat) :
    byteAt? (encoded source) i = ((utf8 source)[i]?).map Char.ofUInt8 := by
  rw [byteAt?, encoded, List.getElem?_toArray]

theorem byteAt?_add (h : source = a ++ r) (k : Nat) :
    byteAt? (encoded source) (byteLength a + k) = ((utf8 r)[k]?).map Char.ofUInt8 := by
  rw [byteAt?_eq, h, utf8_append, ← length_utf8, List.getElem?_append_right (Nat.le_add_right ..),
    Nat.add_sub_cancel_left]

theorem byteAt?_end (h : byteLength source ≤ i) : byteAt? (encoded source) i = none := by
  rw [byteAt?_eq, List.getElem?_eq_none (by rwa [length_utf8])]
  rfl

theorem byteLength_of_lt (h : c.toNat < 0x80) : byteLength [c] = 1 := by
  rw [← length_utf8, utf8_of_lt h]
  rfl

/-- At an ASCII character stands its only byte. -/
theorem byteAt?_of_lt (h : source = a ++ c :: r) (hc : c.toNat < 0x80) :
    byteAt? (encoded source) (byteLength a) = some c := by
  have hk := byteAt?_add h 0
  rw [← List.singleton_append, utf8_append, utf8_of_lt hc] at hk
  exact hk.trans (congrArg some (ofUInt8_ofNat hc))

/-- At another character stand bytes outside ASCII. -/
theorem byteAt?_of_le (h : source = a ++ c :: r) (hc : 0x80 ≤ c.toNat) {k : Nat}
    (hk : k < byteLength [c]) :
    ∃ d, byteAt? (encoded source) (byteLength a + k) = some d ∧ 0x80 ≤ d.toNat := by
  rw [byteAt?_add h, ← List.singleton_append, utf8_append]
  rw [← length_utf8] at hk
  rw [List.getElem?_append_left hk, List.getElem?_eq_getElem hk]
  exact ⟨_, rfl, le_of_mem_utf8 hc (List.getElem_mem hk)⟩

/-- An ASCII byte is found where its character is. -/
theorem byteAt?_eq_some_iff (h : source = a ++ r) (hd : d.toNat < 0x80) :
    byteAt? (encoded source) (byteLength a) = some d ↔ r.head? = some d := by
  rcases r with _ | ⟨c, r⟩
  · rw [List.append_nil] at h
    rw [byteAt?_end (by rw [h])]
    simp
  · by_cases hc : c.toNat < 0x80
    · rw [byteAt?_of_lt h hc]
      simp
    · have hpos : 0 < byteLength [c] := byteLength_pos (by simp)
      obtain ⟨e, he, hhigh⟩ := byteAt?_of_le h (Nat.not_lt.1 hc) hpos
      rw [Nat.add_zero] at he
      rw [he]
      constructor
      · intro h
        obtain rfl := Option.some.inj h
        omega
      · intro h
        obtain rfl : c = d := Option.some.inj h
        exact absurd hd hc

/-! ### Passing over characters -/

/-- A byte outside ASCII is no mark. -/
theorem ne_of_le (h : 0x80 ≤ c.toNat) (hd : d.toNat < 0x80) : c ≠ d := by
  rintro rfl
  omega

theorem eq_snoc_append (h : source = a ++ c :: r) : source = (a ++ [c]) ++ r := by
  rw [h, List.append_assoc]
  rfl

section

variable {β : Type} {f : Nat → β}

/-- Bytes outside ASCII that a scanner passes over one by one. -/
theorem pass_bytes (hf : ∀ i d, byteAt? (encoded source) i = some d → 0x80 ≤ d.toNat →
    f i = f (i + 1)) {i : Nat} (n : Nat)
    (hn : ∀ k < n, ∃ d, byteAt? (encoded source) (i + k) = some d ∧ 0x80 ≤ d.toNat) :
    f i = f (i + n) := by
  induction n with
  | zero => rfl
  | succ n ih =>
    obtain ⟨d, hd, hhigh⟩ := hn n (Nat.lt_succ_self n)
    rw [ih fun k hk => hn k (Nat.lt_succ_of_lt hk), hf _ d hd hhigh, Nat.add_assoc]

variable (hf : ∀ i d, byteAt? (encoded source) i = some d → 0x80 ≤ d.toNat → f i = f (i + 1))
include hf

/-- A scanner passes over a character when it does so over those of ASCII. -/
theorem pass (h : source = a ++ c :: r) (hc : c.toNat < 0x80 →
    byteAt? (encoded source) (byteLength a) = some c → f (byteLength a) = f (byteLength a + 1)) :
    f (byteLength a) = f (byteLength (a ++ [c])) := by
  rw [byteLength_append]
  by_cases hlt : c.toNat < 0x80
  · rw [byteLength_of_lt hlt]
    exact hc hlt (byteAt?_of_lt h hlt)
  · exact pass_bytes hf _ fun k hk => byteAt?_of_le h (Nat.not_lt.1 hlt) hk

/-- A scanner that has passed over the first byte of a character passes over all of it. -/
theorem pass_rest (h : source = a ++ c :: r) :
    f (byteLength a + 1) = f (byteLength (a ++ [c])) := by
  rw [byteLength_append]
  by_cases hc : c.toNat < 0x80
  · rw [byteLength_of_lt hc]
  · have hpos : 0 < byteLength [c] := byteLength_pos (by simp)
    rw [pass_bytes (i := byteLength a + 1) hf (byteLength [c] - 1)]
    · congr 1
      omega
    · intro k hk
      obtain ⟨d, hd⟩ := byteAt?_of_le h (Nat.not_lt.1 hc) (k := k + 1) (by omega)
      exact ⟨d, by rw [Nat.add_assoc, Nat.add_comm 1 k, hd.1], hd.2⟩

end

/-! ### Scanners -/

theorem byteAt?_nil (h : source = a ++ []) : byteAt? (encoded source) (byteLength a) = none :=
  byteAt?_end (by rw [h, List.append_nil])

theorem lineEnd_eq (h : source = a ++ r) : lineEnd (encoded source) (byteLength a) =
    byteLength (a ++ (lineComment r).text) := by
  induction r generalizing a with
  | nil =>
    rw [lineEnd_of_none (byteAt?_nil h), size_encoded, h]
    rfl
  | cons c r ih =>
    by_cases hn : c = '\n'
    · subst hn
      rw [lineEnd_of_some (byteAt?_of_lt h (by decide))]
      simp [lineComment]
    · rw [pass (f := lineEnd (encoded source)) (fun i d hd hhigh => ?_) h (fun _ hc => ?_),
        ih (eq_snoc_append h)]
      · simp [lineComment, hn]
      · rw [lineEnd_of_some hd, if_neg (ne_of_le hhigh (by decide))]
      · rw [lineEnd_of_some hc, if_neg hn]

theorem byteLength_add_one (hc : c.toNat < 0x80) : byteLength a + 1 = byteLength (a ++ [c]) := by
  rw [byteLength_append, byteLength_of_lt hc]

theorem blockEnd_eq (h : source = a ++ r) : blockEnd (encoded source) (byteLength a) =
    byteLength (a ++ (blockComment r).text) := by
  fun_induction blockComment r generalizing a with
  | case1 =>
    rw [blockEnd_of_none (byteAt?_nil h), size_encoded, h]
  | case2 r =>
    have hnext : byteAt? (encoded source) (byteLength a + 1) = some '/' := by
      rw [byteLength_add_one (c := '*') (by decide)]
      exact byteAt?_of_lt (eq_snoc_append h) (by decide)
    rw [blockEnd_of_some (byteAt?_of_lt h (by decide)), if_pos ⟨rfl, hnext⟩, byteLength_append]
    rfl
  | case3 c r hr ih =>
    rw [pass (f := blockEnd (encoded source)) (fun i d hd hhigh => ?_) h (fun hlt hc => ?_),
      ih (eq_snoc_append h)]
    · simp
    · rw [blockEnd_of_some hd, if_neg fun hm => ne_of_le hhigh (by decide) hm.1]
    · rw [blockEnd_of_some hc, if_neg]
      rintro ⟨rfl, hnext⟩
      rw [byteLength_add_one hlt, byteAt?_eq_some_iff (eq_snoc_append h) (by decide)] at hnext
      obtain ⟨u, rfl⟩ := List.head?_eq_some_iff.1 hnext
      exact hr u rfl rfl

/-- The position behind a backslash is one of the character that it escapes. -/
theorem quotedEnd_eq {q : Char} (hq : q.toNat < 0x80) (e : Bool) (h : source = a ++ r) :
    quotedEnd (encoded source) q (byteLength a + e.toNat) =
      byteLength (a ++ (quoted q e r).text) := by
  have hpass : ∀ i d, byteAt? (encoded source) i = some d → 0x80 ≤ d.toNat →
      quotedEnd (encoded source) q i = quotedEnd (encoded source) q (i + 1) := by
    intro i d hd hhigh
    rw [quotedEnd_of_some hd, if_neg (ne_of_le hhigh (by decide)),
      if_neg (ne_of_le hhigh (by decide)), if_neg (ne_of_le hhigh hq)]
  fun_induction quoted q e r generalizing a with
  | case1 e =>
    rw [List.append_nil] at h
    rw [quotedEnd_of_none (byteAt?_end (by rw [h]; omega)), size_encoded, h, List.append_nil]
  | case2 c r ih =>
    rw [Bool.toNat_true, pass_rest hpass h]
    exact (ih (eq_snoc_append h)).trans (by simp)
  | case3 r ih =>
    rw [Bool.toNat_false, Nat.add_zero, quotedEnd_of_some (byteAt?_of_lt h (by decide)), if_pos rfl]
    have := ih (eq_snoc_append h)
    rw [← byteLength_add_one (by decide)] at this
    exact this.trans (by simp)
  | case4 r =>
    rw [Bool.toNat_false, Nat.add_zero, quotedEnd_of_some (byteAt?_of_lt h (by decide)),
      if_neg (by decide), if_pos rfl, List.append_nil]
  | case5 r h1 h2 =>
    rw [Bool.toNat_false, Nat.add_zero, quotedEnd_of_some (byteAt?_of_lt h hq), if_neg h1, if_neg h2,
      if_pos rfl, byteLength_add_one hq]
  | case6 c r h1 h2 h3 ih =>
    rw [Bool.toNat_false, Nat.add_zero, pass hpass h fun _ hc => by
      rw [quotedEnd_of_some hc, if_neg h1, if_neg h2, if_neg h3]]
    exact (ih (eq_snoc_append h)).trans (by simp)

theorem templateEnd_eq (e : Bool) (h : source = a ++ r) :
    templateEnd (encoded source) (byteLength a + e.toNat) =
      (byteLength (a ++ (template e r).1.text), (template e r).2) := by
  have hpass : ∀ i d, byteAt? (encoded source) i = some d → 0x80 ≤ d.toNat →
      templateEnd (encoded source) i = templateEnd (encoded source) (i + 1) := by
    intro i d hd hhigh
    rw [templateEnd_of_some hd, if_neg (ne_of_le hhigh (by decide)),
      if_neg (ne_of_le hhigh (by decide)), if_neg fun hm => ne_of_le hhigh (by decide) hm.1]
  fun_induction template e r generalizing a with
  | case1 e =>
    rw [List.append_nil] at h
    rw [templateEnd_of_none (byteAt?_end (by rw [h]; omega)), size_encoded, h, List.append_nil]
  | case2 c r s b hs ih =>
    rw [Bool.toNat_true, pass_rest hpass h]
    have := ih (eq_snoc_append h)
    rw [hs] at this
    exact this.trans (by simp)
  | case3 r s b hs ih =>
    rw [Bool.toNat_false, Nat.add_zero, templateEnd_of_some (byteAt?_of_lt h (by decide)),
      if_pos rfl]
    have := ih (eq_snoc_append h)
    rw [← byteLength_add_one (c := '\\') (by decide), hs] at this
    exact this.trans (by simp)
  | case4 r =>
    rw [Bool.toNat_false, Nat.add_zero, templateEnd_of_some (byteAt?_of_lt h (by decide)),
      if_neg (by decide), if_pos rfl, byteLength_add_one (c := '\x60') (by decide)]
  | case5 u =>
    have hnext : byteAt? (encoded source) (byteLength a + 1) = some '{' := by
      rw [byteLength_add_one (c := '$') (by decide)]
      exact byteAt?_of_lt (eq_snoc_append h) (by decide)
    rw [Bool.toNat_false, Nat.add_zero, templateEnd_of_some (byteAt?_of_lt h (by decide)),
      if_neg (by decide), if_neg (by decide), if_pos ⟨rfl, hnext⟩, byteLength_append]
    rfl
  | case6 c r h3 s b hs h1 h2 ih =>
    rw [Bool.toNat_false, Nat.add_zero, pass hpass h fun hlt hc => ?_]
    · have := ih (eq_snoc_append h)
      rw [Bool.toNat_false, Nat.add_zero, hs] at this
      exact this.trans (by simp)
    · rw [templateEnd_of_some hc, if_neg h1, if_neg h2, if_neg]
      rintro ⟨rfl, hnext⟩
      rw [byteLength_add_one hlt, byteAt?_eq_some_iff (eq_snoc_append h) (by decide)] at hnext
      obtain ⟨u, rfl⟩ := List.head?_eq_some_iff.1 hnext
      exact h3 u rfl rfl

theorem isAlpha_of_le (h : 0x80 ≤ c.toNat) : c.isAlpha = false := by
  rw [Bool.eq_false_iff, Ne, isAlpha_iff]
  omega

theorem flagsEnd_eq (h : source = a ++ r) : flagsEnd (encoded source) (byteLength a) =
    byteLength (a ++ r.takeWhile isFlag) := by
  induction r generalizing a with
  | nil => 
    rw [flagsEnd_of_none (byteAt?_nil h)]
    simp
  | cons c r ih =>
    by_cases hc : isFlag c = true
    · have hlt : c.toNat < 0x80 := by
        refine Nat.not_le.1 fun hle => ?_
        rw [isFlag, isAlpha_of_le hle] at hc
        cases hc
      rw [flagsEnd_of_some (byteAt?_of_lt h hlt), if_pos hc, byteLength_add_one hlt,
        ih (eq_snoc_append h), List.takeWhile_cons_of_pos hc, List.append_assoc]
      rfl
    · rw [List.takeWhile_cons_of_neg hc, List.append_nil]
      by_cases hlt : c.toNat < 0x80
      · rw [flagsEnd_of_some (byteAt?_of_lt h hlt), if_neg hc]
      · have hpos : 0 < byteLength [c] := byteLength_pos (by simp)
        obtain ⟨d, hd, hhigh⟩ := byteAt?_of_le h (Nat.not_lt.1 hlt) hpos
        rw [Nat.add_zero] at hd
        rw [flagsEnd_of_some hd, if_neg (by rw [isFlag, isAlpha_of_le hhigh]; decide)]

theorem regexEnd?_eq (e k : Bool) (h : source = a ++ r) :
    regexEnd? (encoded source) k (byteLength a + e.toNat) =
      (regex e k r).map fun cut => byteLength (a ++ cut.text) := by
  have hpass : ∀ k i d, byteAt? (encoded source) i = some d → 0x80 ≤ d.toNat →
      regexEnd? (encoded source) k i = regexEnd? (encoded source) k (i + 1) := by
    intro k i d hd hhigh
    rw [regexEnd?_of_some hd, if_neg (ne_of_le hhigh (by decide)),
      if_neg (ne_of_le hhigh (by decide)), if_neg (ne_of_le hhigh (by decide)),
      if_neg (ne_of_le hhigh (by decide)), if_neg fun hm => ne_of_le hhigh (by decide) hm.1]
  have hpush : ∀ {a : List Char} {c : Char} {o : Option Cut},
      o.map (fun cut => byteLength (a ++ [c] ++ cut.text)) =
        (o.map (·.push c)).map fun cut => byteLength (a ++ cut.text) := by
    intro a c o
    rw [Option.map_map]
    congr 1
    funext cut
    simp
  fun_induction regex e k r generalizing a with
  | case1 e k =>
    rw [List.append_nil] at h
    rw [regexEnd?_of_none (byteAt?_end (by rw [h]; omega))]
    rfl
  | case2 k c r ih =>
    rw [Bool.toNat_true, pass_rest (hpass k) h, ← hpush]
    exact ih (eq_snoc_append h)
  | case3 k r ih =>
    rw [Bool.toNat_false, Nat.add_zero, regexEnd?_of_some (byteAt?_of_lt h (by decide)), if_pos rfl,
      ← hpush]
    have := ih (eq_snoc_append h)
    rwa [← byteLength_add_one (c := '\\') (by decide)] at this
  | case4 k r =>
    rw [Bool.toNat_false, Nat.add_zero, regexEnd?_of_some (byteAt?_of_lt h (by decide)),
      if_neg (by decide), if_pos rfl]
    rfl
  | case5 k r _ _ ih =>
    rw [Bool.toNat_false, Nat.add_zero, regexEnd?_of_some (byteAt?_of_lt h (by decide)),
      if_neg (by decide), if_neg (by decide), if_pos rfl,
      byteLength_add_one (c := '[') (by decide), ← hpush]
    exact ih (eq_snoc_append h)
  | case6 k r _ _ _ ih =>
    rw [Bool.toNat_false, Nat.add_zero, regexEnd?_of_some (byteAt?_of_lt h (by decide)),
      if_neg (by decide), if_neg (by decide), if_neg (by decide), if_pos rfl,
      byteLength_add_one (c := ']') (by decide), ← hpush]
    exact ih (eq_snoc_append h)
  | case7 k c r h1 h2 h3 h4 hc =>
    obtain ⟨rfl, rfl⟩ : c = '/' ∧ k = false := by simpa using hc
    rw [Bool.toNat_false, Nat.add_zero, regexEnd?_of_some (byteAt?_of_lt h (by decide)), if_neg h1,
      if_neg h2, if_neg h3, if_neg h4, if_pos ⟨rfl, rfl⟩, byteLength_add_one (c := '/') (by decide),
      flagsEnd_eq (eq_snoc_append h)]
    simp
  | case8 k c r h1 h2 h3 h4 hc ih =>
    rw [Bool.toNat_false, Nat.add_zero, pass (hpass k) h fun _ hat => ?_, ← hpush]
    · exact ih (eq_snoc_append h)
    · rw [regexEnd?_of_some hat, if_neg h1, if_neg h2, if_neg h3, if_neg h4, if_neg]
      rintro ⟨rfl, rfl⟩
      exact hc rfl

end

end Source.Segment

end Renaming
