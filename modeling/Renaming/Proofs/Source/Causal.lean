import Renaming.Proofs.Source.Form

/-!
What a text settles, whatever follows it. The reader looks far ahead in one place only: a slash opens
a regular expression if one ends behind it. That search stops at the end of the line, but a backslash
in front of the end of the line takes it to the next one. A text dangles (`dangles`) when a search
goes on to its end.

* `kindAt?_eq`: the kind of a byte is that of the lexeme it stands in.
* `Reads.next_append`: what the reader takes in front of the end of a text, it takes whatever follows.
* `kinds_prefix_iff`: whole lines keep their kinds exactly when they do not dangle.
* `causal_iff`: so they do in every source.
-/

namespace Renaming.Source

/-! ### The kinds of bytes -/

/-- The kind of the byte at the offset `i`. -/
def kindAt? (source : String) (i : Nat) : Option Kind :=
  ((segmentsOf source).find? fun s => s.start ≤ i ∧ i < s.stop).map Segment.kind

/-- The bytes of `p` have the same kinds whatever follows `p`. -/
def Causal (p : String) : Prop :=
  ∀ t t' : String, ∀ i < p.utf8ByteSize, kindAt? (p ++ t) i = kindAt? (p ++ t') i

/-- The kinds of the bytes of the text `t`, which is all of one kind. -/
def kindsOf (k : Kind) (t : List Char) : List Kind := List.replicate (byteLength t) k

/-- The kinds of the bytes of a text that is read from the state `s` on. -/
def kinds (s : Reader) (cs : List Char) : List Kind :=
  (lexemes s cs).flatMap fun l => kindsOf l.kind l.text

theorem kindsOf_append (k : Kind) (a b : List Char) :
    kindsOf k (a ++ b) = kindsOf k a ++ kindsOf k b := by
  rw [kindsOf, byteLength_append, ← List.replicate_append_replicate]
  rfl

@[simp] theorem length_kindsOf (k : Kind) (t : List Char) : (kindsOf k t).length = byteLength t :=
  List.length_replicate

@[simp] theorem kinds_nil (s : Reader) : kinds s [] = [] := by rw [kinds, lexemes_nil, List.flatMap_nil]

theorem kinds_cons (s : Reader) (c : Char) (r : List Char) : kinds s (c :: r) =
    kindsOf (s.next c r).1.kind (s.next c r).1.text ++ kinds (s.next c r).2 (s.next c r).1.rest := by
  rw [kinds, lexemes_cons, List.flatMap_cons]
  rfl

theorem length_kinds (s : Reader) (cs : List Char) : (kinds s cs).length = byteLength cs := by
  fun_induction lexemes s cs with
  | case1 => simp
  | case2 s c r ih =>
    rw [kinds_cons, List.length_append, length_kindsOf, ih, ← byteLength_append, s.next_whole]

theorem find?_segmentsAt (ps : List Piece) (start i : Nat) :
    ((Segment.segmentsAt start ps).find? fun s => s.start ≤ start + i ∧ start + i < s.stop).map
      Segment.kind = (ps.flatMap fun p => kindsOf p.kind p.text)[i]? := by
  induction ps generalizing start i with
  | nil => rfl
  | cons p ps ih =>
    have hcons : Segment.segmentsAt start (p :: ps) = ⟨p.kind, start, start + byteLength p.text⟩ ::
        Segment.segmentsAt (start + byteLength p.text) ps := rfl
    rw [hcons, List.flatMap_cons]
    by_cases hi : i < byteLength p.text
    · rw [List.find?_cons_of_pos (by simpa using hi), List.getElem?_append_left (by simpa using hi),
        kindsOf, List.getElem?_replicate_of_lt hi]
      rfl
    · obtain ⟨j, rfl⟩ := Nat.exists_eq_add_of_le (Nat.le_of_not_lt hi)
      rw [List.find?_cons_of_neg (by simp), List.getElem?_append_right (by simp), length_kindsOf,
        Nat.add_sub_cancel_left, ← ih, Nat.add_assoc]

theorem kindAt?_eq (source : String) (i : Nat) :
    kindAt? source i = (kinds .start source.toList)[i]? := by
  have hfind := find?_segmentsAt (pieces source.toList) 0 i
  rw [Nat.zero_add, flatMap_pieces (kindsOf_append .code)] at hfind
  rw [kindAt?, segmentsOf_eq, hfind]
  rfl

theorem causal_iff_kinds {p : String} : Causal p ↔
    ∀ t : List Char, kinds .start p.toList <+: kinds .start (p.toList ++ t) := by
  have hlen : (kinds .start p.toList).length = p.utf8ByteSize := by
    rw [length_kinds, byteLength, String.ofList_toList]
  constructor
  · intro h t
    rw [List.prefix_iff_getElem?]
    intro i hi
    have heq := h (String.ofList t) "" i (by rwa [← hlen])
    rw [kindAt?_eq, kindAt?_eq, String.toList_append, String.toList_ofList, String.append_empty,
      List.getElem?_eq_getElem hi] at heq
    exact heq
  · intro h t t' i hi
    have hat : ∀ t : String, kindAt? (p ++ t) i = (kinds .start p.toList)[i]? := by
      intro t
      rw [← hlen] at hi
      rw [kindAt?_eq, String.toList_append, List.getElem?_eq_getElem hi]
      exact List.prefix_iff_getElem?.1 (h t.toList) i hi
    rw [hat, hat]

/-! ### Regular expressions that go on -/

theorem GoesOn.regex_append_iff {q : Bool × Bool} {r : List Char} (h : GoesOn q r) (y : List Char) :
    regex q.1 q.2 (r ++ y) = none ↔ regex (regexState q r).1 (regexState q r).2 y = none := by
  induction r generalizing q with
  | nil => rfl
  | cons c r ih =>
    obtain ⟨e, k⟩ := q
    obtain ⟨hn, hs, h⟩ := goesOn_cons_iff.1 h
    rw [List.cons_append, regex_cons_eq_none_iff, regexState_cons, ← ih h]
    constructor
    · rintro (⟨he, hc⟩ | ⟨-, hr⟩)
      · exact absurd hc (hn he)
      · exact hr
    · exact fun hr => .inr ⟨fun ⟨he, hc, hk⟩ => hs he hk hc, hr⟩

theorem regex_append_iff {q : Bool × Bool} {r : List Char} (h : ¬ GoesOn q r) (y : List Char) :
    regex q.1 q.2 (r ++ y) = none ↔ regex q.1 q.2 r = none := by
  induction r generalizing q with
  | nil => exact absurd (goesOn_nil _) h
  | cons c r ih =>
    obtain ⟨e, k⟩ := q
    rw [List.cons_append, regex_cons_eq_none_iff, regex_cons_eq_none_iff]
    by_cases hn : e = false ∧ c = '\n'
    · simp [hn]
    by_cases hs : e = false ∧ c = '/' ∧ k = false
    · simp [hs]
    have hr : ¬ GoesOn (regexStep e k c) r := fun hr =>
      h (goesOn_cons_iff.2 ⟨fun he hc => hn ⟨he, hc⟩, fun he hk hc => hs ⟨he, hc, hk⟩, hr⟩)
    rw [ih hr]

/-! ### One step of the reader -/

/-- At `c :: r` stands a slash that opens a regular expression if the search for its end, which goes on
over all of `r`, finds one behind it. -/
structure Hangs (s : Reader) (c : Char) (r : List Char) : Prop where
  slash : c = '/'
  allowed : s.allowsRegex = true
  /-- No comment opens. -/
  head : ∀ d ∈ r.head?, d ≠ '/' ∧ d ≠ '*'
  goesOn : GoesOn (false, false) r

theorem hangs_iff {s : Reader} {c : Char} {r : List Char} : Hangs s c r ↔
    c = '/' ∧ s.allowsRegex = true ∧ r.head? ≠ some '/' ∧ r.head? ≠ some '*' ∧
      GoesOn (false, false) r := by
  constructor
  · rintro ⟨hc, ha, hhead, hgoes⟩
    exact ⟨hc, ha, fun h => (hhead _ h).1 rfl, fun h => (hhead _ h).2 rfl, hgoes⟩
  · rintro ⟨hc, ha, hslash, hstar, hgoes⟩
    refine ⟨hc, ha, fun d hd => ⟨?_, ?_⟩, hgoes⟩
    · rintro rfl
      exact hslash hd
    · rintro rfl
      exact hstar hd

instance (s : Reader) (c : Char) (r : List Char) : Decidable (Hangs s c r) :=
  decidable_of_iff _ hangs_iff.symm

theorem sameEnd_append {v : List Char} (hv : v ≠ []) (t t' : List Char) :
    SameEnd (v ++ t) (v ++ t') where
  nil h := absurd (List.append_eq_nil_iff.1 h).1 hv
  line h := by rwa [List.head?_append_of_ne_nil _ hv] at h ⊢

section

variable {s : Reader} {c : Char} {r : List Char} {o : Lexeme × Reader}

/-- Unless the slash in front of a text hangs, the text decides alone whether a regular expression
opens. -/
theorem regex_iff_of_not_hangs (h : ¬ Hangs s '/' r) (ha : s.allowsRegex = true)
    (hr : ∀ d ∈ r.head?, d ≠ '/' ∧ d ≠ '*') (t : List Char) :
    regex false false (r ++ t) = none ↔ regex false false r = none :=
  regex_append_iff (fun hgoes => h ⟨rfl, ha, hr, hgoes⟩) t

theorem Reads.kind_append (h : Reads s c r o) (hhangs : ¬ Hangs s c r) (hr : c = '/' → r ≠ [])
    (t : List Char) : (s.next c (r ++ t)).1.kind = o.1.kind := by
  have hreads : ∀ {o' : Lexeme × Reader}, Reads s c (r ++ t) o' → o'.1.kind = o.1.kind →
      (s.next c (r ++ t)).1.kind = o.1.kind := fun h' hk => by rw [h'.next_eq, hk]
  cases h with
  | line u => exact hreads (.line _) rfl
  | block u => exact hreads (.block _) rfl
  | regex cut hhead ha hcut =>
    have hsome : Source.regex false false (r ++ t) ≠ none := by
      rw [ne_eq, regex_iff_of_not_hangs hhangs ha hhead, hcut]
      exact Option.some_ne_none _
    obtain ⟨cut', hcut'⟩ := Option.ne_none_iff_exists'.1 hsome
    rw [← List.head?_append_of_ne_nil _ (hr rfl)] at hhead
    exact hreads (.regex cut' hhead ha hcut') rfl
  | slash hhead ha =>
    have hnone : s.allowsRegex = true → Source.regex false false (r ++ t) = none :=
      fun ha' => (regex_iff_of_not_hangs hhangs ha' hhead t).2 (ha ha')
    rw [← List.head?_append_of_ne_nil _ (hr rfl)] at hhead
    exact hreads (.slash hhead hnone) rfl
  | string hq => exact hreads (.string hq) rfl
  | template => exact hreads (.template _) rfl
  | resume opened ho => exact hreads (.resume opened ho) rfl
  | openBrace => exact hreads (.openBrace _) rfl
  | closeBrace ho => exact hreads (.closeBrace ho) rfl
  | mark hm => exact hreads (.mark hm) rfl

/-- What the reader takes in front of the end of the text `u ++ v`, it takes whatever follows the
text. -/
theorem Reads.next_append {u v t : List Char} (h : Reads s c r o) (hr : r = u ++ v ++ t)
    (hv : v ≠ []) (hhangs : ¬ Hangs s c (u ++ v)) (htext : o.1.text = c :: u) (t' : List Char) :
    s.next c (u ++ v ++ t') = (⟨o.1.kind, c :: u, v ++ t'⟩, o.2) := by
  have hrest : o.1.rest = v ++ t := by
    have hwhole := s.next_whole c r
    rw [h.next_eq, htext, hr, List.append_assoc, List.cons_append] at hwhole
    exact List.append_cancel_left (List.cons.inj hwhole).2
  have hsame : SameEnd o.1.rest (v ++ t') := hrest ▸ sameEnd_append hv t t'
  rw [List.append_assoc]
  cases h with
  | line u₀ =>
    obtain rfl : '/' :: (lineComment u₀).text = u := (List.cons.inj htext).2
    rw [List.cons_append, (Reads.line _).next_eq, lineComment_append hsame]
    rfl
  | block u₀ =>
    obtain rfl : '*' :: (blockComment u₀).text = u := (List.cons.inj htext).2
    rw [List.cons_append, (Reads.block _).next_eq, blockComment_append hsame.nil]
    rfl
  | regex cut hhead ha hcut =>
    obtain rfl : cut.text = u := (List.cons.inj htext).2
    obtain ⟨d, v, rfl⟩ := List.exists_cons_of_ne_nil hv
    have hd : isFlag d = false := by
      obtain ⟨-, -, -, -, hend⟩ := regex_eq hcut
      exact hend d (by rw [show cut.rest = d :: v ++ t from hrest]; rfl)
    have hcut' := regex_append hcut (d :: v ++ t')
    rw [List.cons_append, List.takeWhile_cons_of_neg (by simp [hd]), List.append_nil,
      List.dropWhile_cons_of_neg (by simp [hd])] at hcut'
    refine (Reads.regex _ ?_ ha hcut').next_eq
    have hne : cut.text ++ d :: v ≠ [] := by simp
    rw [hr, List.head?_append_of_ne_nil _ hne] at hhead
    rwa [← List.cons_append, ← List.append_assoc, List.head?_append_of_ne_nil _ hne]
  | slash hhead ha =>
    obtain rfl : [] = u := (List.cons.inj htext).2
    rw [List.nil_append] at hhangs hr ⊢
    rw [hr, List.head?_append_of_ne_nil _ hv] at hhead
    rw [hr] at ha
    have hregex : s.allowsRegex = true → Source.regex false false (v ++ t') = none := fun ha' => by
      have hiff := regex_iff_of_not_hangs hhangs ha' hhead
      exact (hiff t').2 ((hiff t).1 (ha ha'))
    refine (Reads.slash ?_ hregex).next_eq
    rwa [List.head?_append_of_ne_nil _ hv]
  | string hq =>
    obtain rfl : (quoted c false r).text = u := (List.cons.inj htext).2
    rw [(Reads.string hq).next_eq, quoted_append hsame]
    rfl
  | template =>
    obtain rfl : (Source.template false r).1.text = u := (List.cons.inj htext).2
    rw [(Reads.template _).next_eq, template_append hsame.nil]
    rfl
  | resume opened ho =>
    obtain rfl : (Source.template false r).1.text = u := (List.cons.inj htext).2
    rw [(Reads.resume opened ho).next_eq, template_append hsame.nil]
    rfl
  | openBrace =>
    obtain rfl : [] = u := (List.cons.inj htext).2
    exact (Reads.openBrace _).next_eq
  | closeBrace ho =>
    obtain rfl : [] = u := (List.cons.inj htext).2
    exact (Reads.closeBrace ho).next_eq
  | mark hm =>
    obtain rfl : [] = u := (List.cons.inj htext).2
    exact (Reads.mark hm).next_eq

theorem Reader.next_append (s : Reader) {c : Char} {r : List Char} (hhangs : ¬ Hangs s c r)
    (hrest : (s.next c r).1.rest ≠ []) (t : List Char) : s.next c (r ++ t) =
      ({ (s.next c r).1 with rest := (s.next c r).1.rest ++ t }, (s.next c r).2) := by
  have hread := s.reads_next c r
  have hwhole := s.next_whole c r
  obtain ⟨u, hu⟩ := List.head?_eq_some_iff.1 (s.head?_text_next c r)
  generalize s.next c r = o at *
  rw [hu, List.cons_append] at hwhole
  obtain rfl := (List.cons.inj hwhole).2
  rw [hread.next_append (t := []) (List.append_nil _).symm hrest hhangs hu t, ← hu]

theorem Reader.exists_text_next (s : Reader) {c : Char} {r : List Char} (hhangs : ¬ Hangs s c r)
    (hrest : (s.next c r).1.rest = []) (t : List Char) :
    ∃ w, (s.next c (r ++ t)).1.text = c :: r ++ w := by
  obtain ⟨u, hu⟩ := List.head?_eq_some_iff.1 (s.head?_text_next c (r ++ t))
  have hwhole := s.next_whole c (r ++ t)
  rw [hu, List.cons_append] at hwhole
  rcases List.append_eq_append_iff.1 (List.cons.inj hwhole).2 with ⟨v, rfl, -⟩ | ⟨w, rfl, -⟩
  · by_cases hv : v = []
    · exact ⟨[], by rw [hu, hv, List.append_nil, List.append_nil]⟩
    · -- it would take the same when nothing follows
      have hnext := (s.reads_next c (u ++ v ++ t)).next_append rfl hv hhangs hu []
      rw [List.append_nil, List.append_nil] at hnext
      rw [hnext] at hrest
      exact absurd hrest hv
  · exact ⟨w, hu⟩

end

/-! ### Whole lines -/

/-- The text ends with a line, or it is empty. -/
def WholeLines (cs : List Char) : Prop := ∀ d ∈ cs.getLast?, d = '\n'

theorem WholeLines.of_append {a b : List Char} (h : WholeLines (a ++ b)) : WholeLines b := by
  intro d hd
  refine h d ?_
  rw [List.getLast?_append, Option.mem_def.1 hd]
  rfl

theorem WholeLines.exists_eq {c : Char} {r : List Char} (h : WholeLines (c :: r)) (hc : c ≠ '\n') :
    ∃ w, r = w ++ ['\n'] := by
  rcases List.eq_nil_or_concat r with rfl | ⟨w, d, rfl⟩
  · exact absurd (h c rfl) hc
  · rw [List.concat_eq_append] at h ⊢
    obtain rfl : d = '\n' := h d (by rw [← List.cons_append, List.getLast?_concat]; rfl)
    exact ⟨w, rfl⟩

/-- Whether the reader comes to a slash that hangs. -/
def dangles (s : Reader) : List Char → Bool
  | [] => false
  | c :: r => decide (Hangs s c r) || dangles (s.next c r).2 (s.next c r).1.rest
termination_by cs => cs.length
decreasing_by exact s.next_rest_length_lt c r

@[simp] theorem dangles_nil (s : Reader) : dangles s [] = false := by rw [dangles]

theorem dangles_cons (s : Reader) (c : Char) (r : List Char) : dangles s (c :: r) =
    (decide (Hangs s c r) || dangles (s.next c r).2 (s.next c r).1.rest) := by rw [dangles]

theorem exists_kinds_cons (s : Reader) (c : Char) (r : List Char) :
    ∃ ks, kinds s (c :: r) = (s.next c r).1.kind :: ks := by
  obtain ⟨n, hn⟩ := Nat.exists_eq_add_one_of_ne_zero (byteLength_pos (s.next_text_ne_nil c r)).ne'
  rw [kinds_cons, kindsOf, hn, List.replicate_succ]
  exact ⟨_, rfl⟩

/-- A slash that hangs is code, but it opens a regular expression when a closing bracket and a slash
follow. -/
theorem Hangs.kinds_differ {s : Reader} {c : Char} {r : List Char} (h : Hangs s c r)
    (hlines : WholeLines (c :: r)) :
    ¬ kinds s (c :: r) <+: kinds s (c :: r ++ [']', '/']) := by
  obtain ⟨rfl, ha, hhead, hgoes⟩ := h
  obtain ⟨w, rfl⟩ := hlines.exists_eq (by decide)
  have hnone : regex false false (w ++ ['\n']) = none := by
    have := (hgoes.regex_append_iff []).2 rfl
    rwa [List.append_nil] at this
  have hstate : (regexState (false, false) (w ++ ['\n'])).1 = false := by
    rw [fst_regexState, escapes_append]
    simp
  have hsome : regex false false (w ++ ['\n'] ++ [']', '/']) ≠ none := by
    rw [ne_eq, hgoes.regex_append_iff, hstate]
    cases (regexState (false, false) (w ++ ['\n'])).2 <;> decide
  obtain ⟨cut, hcut⟩ := Option.ne_none_iff_exists'.1 hsome
  have hne : w ++ ['\n'] ≠ [] := by simp
  obtain ⟨ks, hks⟩ := exists_kinds_cons s '/' (w ++ ['\n'])
  obtain ⟨ks', hks'⟩ := exists_kinds_cons s '/' (w ++ ['\n'] ++ [']', '/'])
  rw [List.cons_append, hks, hks', (Reads.slash hhead fun _ => hnone).next_eq,
    (Reads.regex cut (by rwa [List.head?_append_of_ne_nil _ hne]) ha hcut).next_eq]
  intro hp
  cases (List.cons_prefix_cons.1 hp).1

theorem kinds_prefix_of_rest {s : Reader} {c : Char} {r : List Char} (hhangs : ¬ Hangs s c r)
    (hr : c = '/' → r ≠ []) (hrest : (s.next c r).1.rest = []) (t : List Char) :
    kinds s (c :: r) <+: kinds s (c :: r ++ t) := by
  obtain ⟨w, hw⟩ := s.exists_text_next hhangs hrest t
  have hwhole := s.next_whole c r
  rw [hrest, List.append_nil] at hwhole
  rw [List.cons_append, kinds_cons, kinds_cons, hrest, kinds_nil, List.append_nil, hwhole, hw,
    (s.reads_next c r).kind_append hhangs hr, kindsOf_append, List.append_assoc]
  exact List.prefix_append _ _

theorem kinds_prefix_iff {s : Reader} {cs : List Char} (hlines : WholeLines cs) :
    (∀ t, kinds s cs <+: kinds s (cs ++ t)) ↔ dangles s cs = false := by
  fun_induction lexemes s cs with
  | case1 s => simp
  | case2 s c r ih =>
    rw [dangles_cons, Bool.or_eq_false_iff, decide_eq_false_iff_not]
    by_cases hhangs : Hangs s c r
    · exact iff_of_false (fun h => hhangs.kinds_differ hlines (h _)) fun h => h.1 hhangs
    by_cases hrest : (s.next c r).1.rest = []
    · refine iff_of_true (kinds_prefix_of_rest hhangs ?_ hrest) ⟨hhangs, by rw [hrest, dangles_nil]⟩
      rintro rfl
      obtain ⟨w, rfl⟩ := hlines.exists_eq (by decide)
      simp
    · have hkeeps : ∀ t, kinds s (c :: r) <+: kinds s (c :: r ++ t) ↔
          kinds (s.next c r).2 (s.next c r).1.rest <+:
            kinds (s.next c r).2 ((s.next c r).1.rest ++ t) := by
        intro t
        rw [List.cons_append, kinds_cons, kinds_cons, s.next_append hhangs hrest,
          List.prefix_append_right_inj]
      rw [← s.next_whole c r] at hlines
      rw [forall_congr' hkeeps, ih hlines.of_append, and_iff_right hhangs]

/-- **Whole lines settle the kinds of their bytes** exactly when no slash hangs in them: one behind
which a regular expression goes on to the end of the lines. -/
theorem causal_iff {p : String} (h : p.toList.getLast? = some '\n') :
    Causal p ↔ dangles .start p.toList = false := by
  refine causal_iff_kinds.trans (kinds_prefix_iff fun d hd => ?_)
  rw [h] at hd
  exact (Option.some.inj hd).symm

/-- The line ends behind the open class of a regular expression, and so does the search for its end. -/
theorem causal_iff_class : "x = /[\n".toList.getLast? = some '\n' ∧ Causal "x = /[\n" := by
  have hlast : "x = /[\n".toList.getLast? = some '\n' := by decide +kernel
  exact ⟨hlast, (causal_iff hlast).2 (by decide +kernel)⟩

/-- A backslash in front of the end of the line takes the search to the next line. -/
theorem not_causal_escapedEnd :
    "/a\\\n".toList.getLast? = some '\n' ∧ ¬ Causal "/a\\\n" := by
  refine ⟨by decide +kernel, fun h => ?_⟩
  have hkind := h "b/" "" 0 (by decide +kernel)
  revert hkind
  decide +kernel

/-! ### Backslashes at the end of a line -/

theorem getLast?_of_escapes {t : List Char} (h : escapes false t = true) :
    t.getLast? = some '\\' := by
  rcases List.eq_nil_or_concat t with rfl | ⟨t, c, rfl⟩
  · cases h
  · rw [List.concat_eq_append, escapes_append] at h
    simp only [escapes_cons, escapes_nil, Bool.and_eq_true, beq_iff_eq] at h
    rw [List.concat_eq_append, List.getLast?_concat, h.2]

theorem exists_suffix_of_dangles {s : Reader} {cs : List Char} (h : dangles s cs = true) :
    ∃ r, '/' :: r <:+ cs ∧ GoesOn (false, false) r := by
  fun_induction dangles s cs with
  | case1 => cases h
  | case2 s c r ih =>
    rw [Bool.or_eq_true, decide_eq_true_iff] at h
    rcases h with ⟨rfl, -, -, hgoes⟩ | h
    · exact ⟨r, List.suffix_refl _, hgoes⟩
    · obtain ⟨r', hsuffix, hgoes⟩ := ih h
      refine ⟨r', hsuffix.trans ?_, hgoes⟩
      rw [← s.next_whole c r]
      exact List.suffix_append _ _

theorem causal_of_getLast?_ne {p : String} {w : List Char} (h : p.toList = w ++ ['\n'])
    (hw : w.getLast? ≠ some '\\') : Causal p := by
  have hlines : WholeLines (w ++ ['\n']) := by
    intro d hd
    rw [List.getLast?_concat] at hd
    exact (Option.some.inj hd).symm
  rw [causal_iff_kinds, h, kinds_prefix_iff hlines, Bool.eq_false_iff]
  intro hdangles
  obtain ⟨r, ⟨a, ha⟩, hgoes⟩ := exists_suffix_of_dangles hdangles
  rw [← ha] at hlines
  obtain ⟨v, rfl⟩ := hlines.of_append.exists_eq (by decide)
  have hv : v.getLast? = some '\\' := getLast?_of_escapes (hgoes.line v [] rfl)
  rw [← List.cons_append, ← List.append_assoc] at ha
  rw [← List.append_cancel_right ha, List.getLast?_append, getLast?_cons_of_eq_some hv] at hw
  exact hw rfl

end Renaming.Source
