import Renaming.Path

/-!
The names on a path. `names_join` says that the names of a path taken from a directory are those of
the directory and then those of the path, `names_parent?` that a parent has the first names of its
path, without the last one, and `parent?_join`, `fileName?_join` that taking a plain name from a
directory can be undone.
-/

namespace Renaming.Path

/-! ### The parts between slashes -/

theorem cut_ne_nil (cs : List Char) : cut cs ≠ [] := by
  cases cs with
  | nil => simp [cut]
  | cons c cs =>
    by_cases hc : c = '/'
    · simp [cut, hc]
    · simp only [cut, hc, if_false]
      split <;> simp

theorem cut_append (a b : List Char) : cut (a ++ '/' :: b) = cut a ++ cut b := by
  induction a with
  | nil => rfl
  | cons c a ih =>
    obtain ⟨p, ps, hp⟩ := List.exists_cons_of_ne_nil (cut_ne_nil a)
    by_cases hc : c = '/' <;> simp [cut, hc, ih, hp]

theorem cut_eq_singleton {cs : List Char} (h : '/' ∉ cs) : cut cs = [cs] := by
  induction cs with
  | nil => rfl
  | cons c cs ih =>
    rw [List.mem_cons, not_or] at h
    simp [cut, Ne.symm h.1, ih h.2]

theorem mem_of_mem_cut {cs p : List Char} {c : Char} (hp : p ∈ cut cs) (hc : c ∈ p) :
    c ∈ cs ∧ c ≠ '/' := by
  induction cs generalizing p with
  | nil => simp_all [cut]
  | cons d cs ih =>
    by_cases hd : d = '/'
    · simp only [cut, hd, if_true, List.mem_cons] at hp
      rcases hp with rfl | hp
      · cases hc
      · exact ⟨List.mem_cons_of_mem _ (ih hp hc).1, (ih hp hc).2⟩
    · simp only [cut, hd, if_false] at hp
      split at hp
      next h => exact absurd h (cut_ne_nil cs)
      next q qs h =>
        rcases List.mem_cons.1 hp with rfl | hp
        · rcases List.mem_cons.1 hc with rfl | hc
          · exact ⟨List.mem_cons_self, hd⟩
          · have := ih (h ▸ List.mem_cons_self) hc
            exact ⟨List.mem_cons_of_mem _ this.1, this.2⟩
        · have := ih (h ▸ List.mem_cons_of_mem _ hp) hc
          exact ⟨List.mem_cons_of_mem _ this.1, this.2⟩

theorem mem_cut_of_mem {cs : List Char} {c : Char} (h : c ∈ cs) :
    c = '/' ∨ ∃ p ∈ cut cs, c ∈ p := by
  induction cs with
  | nil => cases h
  | cons d cs ih =>
    obtain ⟨q, qs, hq⟩ := List.exists_cons_of_ne_nil (cut_ne_nil cs)
    by_cases hd : d = '/'
    · rcases List.mem_cons.1 h with rfl | h
      · exact .inl hd
      · exact (ih h).imp_right fun ⟨p, hp, hc⟩ => ⟨p, by simp [cut, hd, hp], hc⟩
    · simp only [cut, hd, if_false, hq]
      rcases List.mem_cons.1 h with rfl | h
      · exact .inr ⟨_, List.mem_cons_self, List.mem_cons_self⟩
      · refine (ih h).imp_right ?_
        rw [hq]
        rintro ⟨p, hp, hc⟩
        rcases List.mem_cons.1 hp with rfl | hp
        · exact ⟨_, List.mem_cons_self, List.mem_cons_of_mem _ hc⟩
        · exact ⟨p, List.mem_cons_of_mem _ hp, hc⟩

/-- A text is its parts with slashes between them. -/
theorem flatten_cut (cs : List Char) : ((cut cs).intersperse ['/']).flatten = cs := by
  induction cs with
  | nil => rfl
  | cons c cs ih =>
    by_cases hc : c = '/'
    · obtain ⟨p, ps, hp⟩ := List.exists_cons_of_ne_nil (cut_ne_nil cs)
      rw [hp] at ih
      simp [cut, hc, hp, ih]
    · simp only [cut, hc, if_false]
      split
      next h => exact absurd h (cut_ne_nil cs)
      next q qs h =>
        rw [h] at ih
        cases qs <;> simp_all

theorem cut_flatten {parts : List (List Char)} (hne : parts ≠ []) (h : ∀ p ∈ parts, '/' ∉ p) :
    cut (parts.intersperse ['/']).flatten = parts := by
  induction parts with
  | nil => exact absurd rfl hne
  | cons p parts ih =>
    cases parts with
    | nil => simpa using cut_eq_singleton (h p (by simp))
    | cons q parts =>
      have hq := ih (by simp) fun x hx => h x (List.mem_cons_of_mem _ hx)
      simp only [List.intersperse_cons_cons, List.flatten_cons, List.singleton_append]
      rw [cut_append, cut_eq_singleton (h p (by simp)), hq]
      rfl

theorem segments_ofSegments {parts : List (List Char)} (hne : parts ≠ [])
    (h : ∀ p ∈ parts, '/' ∉ p) : segments (ofSegments parts) = parts := by
  simp [segments, ofSegments, cut_flatten hne h]

theorem ofSegments_segments (path : String) : ofSegments (segments path) = path := by
  simp [segments, ofSegments, flatten_cut]

theorem segments_append_slash (a b : String) :
    segments (a ++ "/" ++ b) = segments a ++ segments b := by
  have : (a ++ "/" ++ b).toList = a.toList ++ '/' :: b.toList := by simp
  rw [segments, this, cut_append]
  rfl

theorem slash_not_mem_of_mem_segments {path : String} {p : List Char} (h : p ∈ segments path) :
    '/' ∉ p := fun hc => (mem_of_mem_cut h hc).2 rfl

/-! ### Names -/

/-- A name on a path: any text without slashes and NULs but the empty one. -/
structure IsSegment (name : String) : Prop where
  ne_empty : name ≠ ""
  slash : '/' ∉ name.toList
  nul : '\x00' ∉ name.toList

/-- A name that an entry of a directory can have. -/
structure IsPlain (name : String) : Prop extends IsSegment name where
  ne_dot : name ≠ "."
  ne_up : name ≠ ".."

instance (name : String) : Decidable (IsPlain name) :=
  decidable_of_iff (name ≠ "" ∧ '/' ∉ name.toList ∧ '\x00' ∉ name.toList ∧ name ≠ "." ∧ name ≠ "..")
    ⟨fun ⟨h1, h2, h3, h4, h5⟩ => ⟨⟨h1, h2, h3⟩, h4, h5⟩,
      fun ⟨⟨h1, h2, h3⟩, h4, h5⟩ => ⟨h1, h2, h3, h4, h5⟩⟩

theorem isDigit_of_mem_toString {n : Nat} {c : Char} (h : c ∈ (toString n).toList) :
    c.isDigit = true := by
  rw [Nat.toString_eq_repr, Nat.repr, String.toList_ofList] at h
  exact Nat.isDigit_of_mem_toDigits (by decide) (by decide) h

theorem mem_numbered {name : String} {n : Nat} {c : Char}
    (h : c ∈ (name ++ "-" ++ toString n).toList) :
    c ∈ name.toList ∨ c = '-' ∨ c.isDigit = true := by
  simp only [String.toList_append, List.mem_append] at h
  rcases h with (h | h) | h
  · exact .inl h
  · exact .inr (.inl (by simpa using h))
  · exact .inr (.inr (isDigit_of_mem_toString h))

/-- A plain name stays plain with a number behind it. -/
theorem IsPlain.numbered {name : String} (h : IsPlain name) (n : Nat) :
    IsPlain (name ++ "-" ++ toString n) := by
  have hdash : '-' ∈ (name ++ "-" ++ toString n).toList := by simp
  have hnot : ∀ c, c ∉ name.toList → c ≠ '-' → c.isDigit = false →
      c ∉ (name ++ "-" ++ toString n).toList := by
    intro c hc hd hdigit hmem
    rcases mem_numbered hmem with h | h | h
    · exact hc h
    · exact hd h
    · rw [hdigit] at h
      cases h
  refine ⟨⟨?_, hnot _ h.slash (by decide) (by decide), hnot _ h.nul (by decide) (by decide)⟩,
    ?_, ?_⟩
  all_goals
    intro he
    rw [he] at hdash
    simp at hdash

theorem isSegment_of_mem_names {path name : String} (hnul : '\x00' ∉ path.toList)
    (h : name ∈ names path) : IsSegment name := by
  simp only [names, List.mem_map, List.mem_filter] at h
  obtain ⟨p, ⟨hp, hne⟩, rfl⟩ := h
  refine ⟨fun h => ?_, ?_, fun h => hnul ?_⟩
  · have := congrArg String.toList h
    simp_all
  · simpa using slash_not_mem_of_mem_segments hp
  · exact (mem_of_mem_cut hp (by simpa using h)).1

/-- Every character of a path but the slashes is in one of its names. -/
theorem mem_names_of_mem {path : String} {c : Char} (h : c ∈ path.toList) (hc : c ≠ '/') :
    ∃ name ∈ names path, c ∈ name.toList := by
  obtain ⟨p, hp, hcp⟩ := (mem_cut_of_mem h).resolve_left hc
  refine ⟨String.ofList p, List.mem_map_of_mem (List.mem_filter.2 ⟨hp, ?_⟩), by simpa using hcp⟩
  cases p with
  | nil => cases hcp
  | cons => rfl

theorem mem_of_mem_names {path name : String} {c : Char} (hn : name ∈ names path)
    (hc : c ∈ name.toList) : c ∈ path.toList := by
  obtain ⟨p, hp, rfl⟩ := List.mem_map.1 hn
  rw [String.toList_ofList] at hc
  exact (mem_of_mem_cut (List.mem_filter.1 hp).1 hc).1

theorem names_empty : names "" = [] := rfl

theorem names_of_slash_not_mem {name : String} (hne : name ≠ "") (h : '/' ∉ name.toList) :
    names name = [name] := by
  have : name.toList ≠ [] := fun h => hne (String.toList_eq_nil_iff.1 h)
  simp [names, segments, cut_eq_singleton h, this]

theorem IsPlain.names {name : String} (h : IsPlain name) : names name = [name] :=
  names_of_slash_not_mem h.ne_empty h.slash

theorem IsPlain.isAbsolute {name : String} (h : IsPlain name) : isAbsolute name = false := by
  have := h.slash
  cases hl : name.toList with
  | nil => simp [Path.isAbsolute, hl]
  | cons c cs =>
    rw [hl, List.mem_cons, not_or] at this
    simp [Path.isAbsolute, hl, Ne.symm this.1]

/-! ### Taking a path from a directory -/

theorem getLast?_eq_some_slash {cs : List Char} (h : cs.getLast? = some '/') :
    ∃ a, cs = a ++ ['/'] := by
  have hne : cs ≠ [] := by rintro rfl; simp at h
  refine ⟨cs.dropLast, ?_⟩
  rw [List.getLast?_eq_some_getLast hne, Option.some.injEq] at h
  rw [← h, List.dropLast_concat_getLast]

/-- The names of a path taken from a directory are those of the directory and those of the path. -/
theorem names_join {path : String} (dir : String) (h : isAbsolute path = false) :
    names (join dir path) = names dir ++ names path := by
  simp only [join, h, Bool.false_or]
  split
  next hd => simp_all [names_empty]
  split
  next hd hl =>
    obtain ⟨a, ha⟩ := getLast?_eq_some_slash (by simpa using hl)
    simp only [names, segments, String.toList_append, ha, List.append_assoc, List.singleton_append,
      cut_append, cut, List.filter_append, List.map_append]
    simp
  · simp only [names, segments_append_slash, List.filter_append, List.map_append]

theorem isEmpty_eq_false {path : String} (h : path ≠ "") : path.isEmpty = false := by
  simpa [Bool.eq_false_iff, String.isEmpty_iff] using h

theorem toList_ne_nil_of_not_isEmpty {s : String} (h : ¬ s.isEmpty = true) : s.toList ≠ [] := by
  simpa [String.isEmpty_iff, String.toList_eq_nil_iff] using h

/-- A path taken from a directory starts where the directory starts. -/
theorem isAbsolute_join {path : String} (dir : String) (h : isAbsolute path = false) :
    isAbsolute (join dir path) = isAbsolute dir := by
  simp only [join, h, Bool.false_or]
  split
  next hd =>
    rw [String.isEmpty_iff] at hd
    subst hd
    rw [h]
    rfl
  next hd =>
    obtain ⟨c, cs, hc⟩ := List.exists_cons_of_ne_nil (toList_ne_nil_of_not_isEmpty hd)
    split <;> simp [isAbsolute, hc]

theorem mem_join {dir path : String} {c : Char} (h : c ∈ (join dir path).toList) :
    c ∈ dir.toList ∨ c = '/' ∨ c ∈ path.toList := by
  simp only [join] at h
  split at h
  · exact .inr (.inr h)
  split at h
  · simp only [String.toList_append, List.mem_append] at h
    exact h.imp_right .inr
  · simp only [String.toList_append, List.mem_append] at h
    rcases h with (h | h) | h
    · exact .inl h
    · exact .inr (.inl (by simpa using h))
    · exact .inr (.inr h)

theorem mem_join_left {dir path : String} {c : Char} (h : isAbsolute path = false)
    (hc : c ∈ dir.toList) : c ∈ (join dir path).toList := by
  have hdir : dir.isEmpty = false := isEmpty_eq_false fun he => by simp [he] at hc
  simp only [join, h, hdir, Bool.or_self, Bool.false_eq_true, if_false]
  split <;> simp [hc]

theorem join_ne_empty {path : String} (dir : String) (hne : path ≠ "") : join dir path ≠ "" := by
  have hpath : path.toList ≠ [] := fun h => hne (String.toList_eq_nil_iff.1 h)
  intro h
  have h := congrArg String.toList h
  simp only [join] at h
  split at h
  · exact hne (String.toList_injective h)
  split at h <;> simp_all

/-- A path taken from a directory ends as the path does. -/
theorem size_join {path : String} (dir : String) (h : isAbsolute path = false) :
    dir.utf8ByteSize + path.utf8ByteSize ≤ (join dir path).utf8ByteSize := by
  simp only [join, h, Bool.false_or]
  split
  next hd => simp [String.isEmpty_iff.1 hd]
  split
  · simp
  · simp only [String.utf8ByteSize_append]
    omega

theorem getLast?_join {path : String} (dir : String) (hne : path ≠ "") :
    (join dir path).toList.getLast? = path.toList.getLast? := by
  obtain ⟨c, cs, hc⟩ :=
    List.exists_cons_of_ne_nil fun h => hne (String.toList_eq_nil_iff.1 h)
  simp only [join]
  split
  · rfl
  split <;> simp [List.getLast?_append, hc, List.getLast?_cons]

/-! ### Parents -/

theorem isAbsolute_iff {path : String} :
    isAbsolute path = true ↔ ∃ p ps, segments path = [] :: p :: ps := by
  unfold isAbsolute segments
  cases path.toList with
  | nil => simp [cut]
  | cons c cs =>
    obtain ⟨p, ps, hp⟩ := List.exists_cons_of_ne_nil (cut_ne_nil cs)
    by_cases hc : c = '/' <;> simp [cut, hc, hp]

theorem prefix_trimmed (parts : List (List Char)) : trimmed parts <+: parts := by
  cases parts with
  | nil => exact List.nil_prefix
  | cons p ps =>
    simp only [trimmed]
    split
    · exact List.nil_prefix
    · have := (List.dropWhile_suffix (!isComponent false ·) (l := ps.reverse)).reverse
      rw [List.reverse_reverse] at this
      exact List.cons_prefix_cons.2 ⟨rfl, this⟩

/-- What is left by `trimmed` does not end in an empty part. -/
theorem ne_nil_of_trimmed_eq {parts before : List (List Char)} {p : List Char}
    (h : trimmed parts = before ++ [p]) : p ≠ [] := by
  rintro rfl
  cases parts with
  | nil => simp [trimmed] at h
  | cons q qs =>
    simp only [trimmed] at h
    split at h
    next => simp at h
    next hq =>
      cases hd : qs.reverse.dropWhile (!isComponent false ·) with
      | nil =>
        rw [hd, List.reverse_nil] at h
        have hlast : some q = some [] := by simpa using congrArg List.getLast? h
        cases hlast
        rw [hd] at hq
        exact hq rfl
      | cons r rs =>
        have hr := List.head?_dropWhile_not (!isComponent false ·) qs.reverse
        have := congrArg List.getLast? h
        simp_all [isComponent, List.getLast?_cons]

theorem trimmed_append {parts : List (List Char)} {p : List Char} (h : isComponent false p = true) :
    trimmed (parts ++ [p]) = parts ++ [p] := by
  have hne : p ≠ [] := by
    rintro rfl
    simp [isComponent] at h
  cases parts with
  | nil => simp [trimmed, isComponent, hne]
  | cons q qs => simp [trimmed, h]

/-- The names of a parent are the first ones of its path. It starts where its path starts; the
parent of a single relative name is the empty path. -/
theorem names_parent? {path parent : String} (h : parent? path = some parent) :
    names parent <+: (names path).dropLast ∧
      (parent ≠ "" → isAbsolute parent = isAbsolute path) ∧
      (parent = "" → isAbsolute path = false) := by
  simp only [parent?] at h
  split at h
  next => cases h
  next p before hbefore =>
  have htrim : trimmed (segments path) = before.reverse ++ [p] := by
    rw [← List.reverse_cons, ← hbefore, List.reverse_reverse]
  have hwhole : before.reverse ++ [p] <+: segments path := htrim ▸ prefix_trimmed _
  have hseg : before.reverse <+: segments path := (List.prefix_append _ _).trans hwhole
  have hnames :
      (before.reverse.filter (!·.isEmpty)).map String.ofList <+: (names path).dropLast := by
    have hp : [p].filter (!·.isEmpty) = [p] := by simpa using ne_nil_of_trimmed_eq htrim
    obtain ⟨more, hmore⟩ := (hwhole.filter (!·.isEmpty)).map String.ofList
    rw [names, ← hmore, List.filter_append, hp, List.map_append,
      List.append_assoc, List.dropLast_append_of_ne_nil (by simp)]
    exact List.prefix_append _ _
  split at h
  next =>
    cases h
    split
    next ha =>
      exact ⟨by simp [names, segments, cut], fun _ => ha.symm, fun he => absurd he (by decide)⟩
    next ha =>
      exact ⟨by simp [names, segments, cut], fun he => absurd rfl he, fun _ => by simpa using ha⟩
  next hne =>
    cases h
    have hpre := (prefix_trimmed before.reverse).trans hseg
    have hself : segments (ofSegments (trimmed before.reverse)) = trimmed before.reverse :=
      segments_ofSegments hne fun q hq => slash_not_mem_of_mem_segments (hpre.subset hq)
    have habs : isAbsolute (ofSegments (trimmed before.reverse)) = isAbsolute path := by
      rw [Bool.eq_iff_iff, isAbsolute_iff, isAbsolute_iff, hself]
      obtain ⟨more, hmore⟩ := hpre
      constructor
      · rintro ⟨q, qs, hq⟩
        exact ⟨q, qs ++ more, by rw [← hmore, hq]; rfl⟩
      · rintro ⟨q, qs, hq⟩
        cases ht : trimmed before.reverse with
        | nil => exact absurd ht hne
        | cons a as =>
          rw [ht, hq, List.cons_append, List.cons_eq_cons] at hmore
          obtain ⟨rfl, hmore⟩ := hmore
          cases as with
          | nil => exact absurd rfl (ne_nil_of_trimmed_eq (show _ = [] ++ [[]] from ht))
          | cons b bs => exact ⟨b, bs, rfl⟩
    have hown :=
      (((prefix_trimmed before.reverse).filter (!·.isEmpty)).map String.ofList).trans hnames
    refine ⟨by rwa [names, hself], fun _ => habs, fun he => ?_⟩
    rw [← habs, he]
    rfl

/-! ### Paths that end in a plain name -/

/-- A path whose last segment is a plain name. -/
def IsTidy (path : String) : Prop :=
  ∃ before name, IsPlain name ∧ segments path = before ++ [name.toList]

theorem IsPlain.isComponent {name : String} (h : IsPlain name) :
    isComponent false name.toList = true := by
  have hdot : name.toList ≠ ['.'] := fun he => h.ne_dot (String.toList_injective he)
  have hne : name.toList ≠ [] := fun he => h.ne_empty (String.toList_eq_nil_iff.1 he)
  simp [Path.isComponent, hdot, hne]

theorem IsPlain.segments {name : String} (h : IsPlain name) : segments name = [name.toList] :=
  cut_eq_singleton h.slash

theorem isTidy_join {name : String} (dir : String) (h : IsPlain name) : IsTidy (join dir name) := by
  simp only [join, h.isAbsolute, Bool.false_or]
  split
  · exact ⟨[], name, h, h.segments⟩
  split
  next hl =>
    obtain ⟨a, ha⟩ := getLast?_eq_some_slash (by simpa using hl)
    refine ⟨cut a, name, h, ?_⟩
    rw [Path.segments, String.toList_append, ha, List.append_assoc, List.singleton_append,
      cut_append, cut_eq_singleton h.slash]
  · exact ⟨Path.segments dir, name, h, by rw [segments_append_slash, h.segments]⟩

theorem IsTidy.ne_empty {path : String} (h : IsTidy path) : path ≠ "" := by
  obtain ⟨before, name, hname, hseg⟩ := h
  rintro rfl
  simp only [Path.segments, String.toList_empty, cut] at hseg
  have := congrArg List.getLast? hseg
  simp only [List.getLast?_singleton, List.getLast?_append, Option.some_or,
    Option.some.injEq] at this
  exact hname.ne_empty (String.toList_eq_nil_iff.1 this.symm)

theorem IsTidy.join_eq {dir : String} (h : IsTidy dir) {path : String}
    (hp : isAbsolute path = false) : join dir path = dir ++ "/" ++ path := by
  have hdir : dir.isEmpty = false := isEmpty_eq_false h.ne_empty
  obtain ⟨before, name, hname, hseg⟩ := h
  have hne : name.toList ≠ [] := fun he => hname.ne_empty (String.toList_eq_nil_iff.1 he)
  have hlast : ¬(dir.toList.getLast? == some '/') = true := by
    intro hl
    obtain ⟨a, ha⟩ := getLast?_eq_some_slash (by simpa using hl)
    rw [Path.segments, ha, cut_append] at hseg
    have := congrArg List.getLast? hseg
    simp only [cut, List.getLast?_append, List.getLast?_singleton, Option.some_or,
      Option.some.injEq] at this
    exact hne this.symm
  simp only [join, hp, hdir, hlast, Bool.or_self, Bool.false_eq_true, if_false]

theorem IsTidy.segments_join {dir : String} (h : IsTidy dir) {path : String}
    (hp : isAbsolute path = false) : segments (join dir path) = segments dir ++ segments path := by
  rw [h.join_eq hp, segments_append_slash]

theorem IsTidy.trimmed_segments {path : String} (h : IsTidy path) :
    trimmed (segments path) = segments path := by
  obtain ⟨before, name, hname, hseg⟩ := h
  rw [hseg, trimmed_append hname.isComponent]

/-- A plain name taken from a directory has the directory for its parent. -/
theorem parent?_join {dir name : String} (hdir : IsTidy dir) (h : IsPlain name) :
    parent? (join dir name) = some dir := by
  have hne : segments dir ≠ [] := cut_ne_nil _
  rw [parent?, (isTidy_join dir h).trimmed_segments, hdir.segments_join h.isAbsolute, h.segments,
    List.reverse_append]
  simp only [List.reverse_cons, List.reverse_nil, List.nil_append, List.singleton_append,
    List.reverse_reverse, hdir.trimmed_segments, ofSegments_segments]

theorem fileName?_of_segments {path name : String} {before : List (List Char)} (h : IsPlain name)
    (hseg : segments path = before ++ [name.toList]) : fileName? path = some name := by
  have hdot : name.toList ≠ ['.'] := fun he => h.ne_dot (String.toList_injective he)
  have hup : name.toList ≠ ['.', '.'] := fun he => h.ne_up (String.toList_injective he)
  rw [fileName?, hseg, trimmed_append h.isComponent]
  simp [hdot, hup]

theorem fileName?_join {dir name : String} (hdir : IsTidy dir) (h : IsPlain name) :
    fileName? (join dir name) = some name :=
  fileName?_of_segments h (by rw [hdir.segments_join h.isAbsolute, h.segments])

/-! ### Ways -/

/-- A path all of whose segments are plain names. -/
def IsWay (path : String) : Prop := ∀ p ∈ segments path, IsPlain (String.ofList p)

theorem IsPlain.isWay {name : String} (h : IsPlain name) : IsWay name := by
  intro p hp
  rw [h.segments, List.mem_singleton] at hp
  rwa [hp, String.ofList_toList]

theorem segments_intercalate {names : List String} (hne : names ≠ [])
    (h : ∀ name ∈ names, IsPlain name) :
    segments ("/".intercalate names) = names.map String.toList := by
  have htext : ("/".intercalate names).toList =
      ((names.map String.toList).intersperse ['/']).flatten := by
    simp [String.toList_intercalate, List.intercalate]
  rw [segments, htext, cut_flatten (by simpa using hne)]
  intro cs hcs
  obtain ⟨name, hname, rfl⟩ := List.mem_map.1 hcs
  exact (h name hname).slash

theorem isWay_intercalate {names : List String} (hne : names ≠ [])
    (h : ∀ name ∈ names, IsPlain name) : IsWay ("/".intercalate names) := by
  intro p hp
  rw [segments_intercalate hne h] at hp
  obtain ⟨name, hname, rfl⟩ := List.mem_map.1 hp
  rw [String.ofList_toList]
  exact h name hname

namespace IsWay

variable {path path' : String}

theorem names (h : IsWay path) : names path = (segments path).map String.ofList := by
  rw [Path.names, List.filter_eq_self.2]
  intro p hp
  have := (h p hp).ne_empty
  cases p <;> simp_all

theorem names_ne_nil (h : IsWay path) : Path.names path ≠ [] := by
  simp [h.names, segments, cut_ne_nil]

theorem isPlain_of_mem_names (h : IsWay path) {name : String} (hn : name ∈ Path.names path) :
    IsPlain name := by
  rw [h.names, List.mem_map] at hn
  obtain ⟨p, hp, rfl⟩ := hn
  exact h p hp

theorem isAbsolute (h : IsWay path) : isAbsolute path = false := by
  rw [Bool.eq_false_iff, ne_eq, isAbsolute_iff]
  rintro ⟨p, ps, hp⟩
  exact (h [] (by simp [hp])).ne_empty rfl

theorem ne_empty (h : IsWay path) : path ≠ "" := by
  rintro rfl
  exact (h [] (by simp [segments, cut])).ne_empty rfl

theorem nul (h : IsWay path) : '\x00' ∉ path.toList := by
  intro hc
  rcases mem_cut_of_mem hc with hc | ⟨p, hp, hc⟩
  · exact absurd hc (by decide)
  · exact (h p hp).nul (by simpa using hc)

theorem getLast?_ne (h : IsWay path) : path.toList.getLast? ≠ some '/' := by
  intro hl
  obtain ⟨a, ha⟩ := getLast?_eq_some_slash hl
  exact (h [] (by simp [segments, ha, cut_append, cut])).ne_empty rfl

theorem append (h : IsWay path) (h' : IsWay path') : IsWay (path ++ "/" ++ path') := by
  intro p hp
  rw [segments_append_slash, List.mem_append] at hp
  exact hp.elim (h p) (h' p)

theorem join_eq (h : IsWay path) (h' : IsWay path') : join path path' = path ++ "/" ++ path' := by
  have hl := h.getLast?_ne
  have he : path.isEmpty = false := isEmpty_eq_false h.ne_empty
  simp [join, h'.isAbsolute, he, hl]

/-- A path taken from what a plain name in a directory leads to. -/
theorem join_join {name : String} (dir : String) (hname : IsPlain name) (h : IsWay path) :
    join (join dir name) path = join dir (name ++ "/" ++ path) := by
  have hway := hname.isWay.append h
  rw [(isTidy_join dir hname).join_eq h.isAbsolute]
  unfold join
  rw [hname.isAbsolute, hway.isAbsolute]
  split
  · rfl
  split
  · simp only [String.append_assoc]
  · simp only [String.append_assoc]

end IsWay

theorem names_intercalate {names : List String} (hne : names ≠ [])
    (h : ∀ name ∈ names, IsPlain name) : Path.names ("/".intercalate names) = names := by
  rw [(isWay_intercalate hne h).names, segments_intercalate hne h, List.map_map]
  simp [Function.comp_def]

/-! ### Components -/

/-- The segment of a component behind the start of a path. -/
def Component.text? : Component → Option String
  | .root | .current => none
  | .parent => some ".."
  | .name text => some text

theorem bind_component? (name : String) :
    (component? name).bind Component.text? = if name ≠ "." then some name else none := by
  unfold component?
  by_cases hdot : name = "."
  · simp [hdot]
  · by_cases hup : name = ".."
    · simp [hup, Component.text?]
    · simp [hdot, hup, Component.text?]

theorem root_not_mem_own {path : String} : Component.root ∉ (names path).filterMap component? := by
  rw [List.mem_filterMap]
  rintro ⟨name, -, hname⟩
  unfold component? at hname
  split at hname
  · cases hname
  split at hname <;> cases hname

theorem root_mem_components_iff {path : String} :
    Component.root ∈ components path ↔ isAbsolute path = true := by
  unfold components
  dsimp only
  split
  next h => simp [h]
  next h =>
    refine iff_of_false (fun hmem => ?_) h
    split at hmem
    · exact root_not_mem_own ((List.mem_cons.1 hmem).resolve_left nofun)
    · exact root_not_mem_own hmem

/-- The components of a path tell its names apart from dots. -/
theorem filterMap_components (path : String) :
    (components path).filterMap Component.text? = (names path).filter (· ≠ ".") := by
  have hown : ((names path).filterMap component?).filterMap Component.text? =
      (names path).filter (· ≠ ".") := by
    have hsegment : (fun name => (component? name).bind Component.text?) =
        Option.guard fun name => decide (name ≠ ".") := by
      funext name
      simp [bind_component?, Option.guard]
    rw [List.filterMap_filterMap, hsegment, List.filterMap_eq_filter]
  unfold components
  dsimp only
  split
  · exact hown
  split
  · exact hown
  · exact hown

theorem mem_names_of_mem_components {path name : String}
    (h : Component.name name ∈ components path) : name ∈ names path := by
  have hmem : name ∈ (components path).filterMap Component.text? :=
    List.mem_filterMap.2 ⟨_, h, rfl⟩
  rw [filterMap_components] at hmem
  exact (List.mem_filter.1 hmem).1

/-- The last component of a path, if it names something, is among its components. -/
theorem mem_components_of_fileName? {path name : String} (h : fileName? path = some name) :
    Component.name name ∈ components path := by
  unfold fileName? at h
  split at h
  · cases h
  next segment hlast =>
  split at h
  · cases h
  next hdots =>
  cases h
  obtain ⟨before, hbefore⟩ := List.getLast?_eq_some_iff.1 hlast
  have hmem : segment ∈ segments path := (prefix_trimmed _).subset (by simp [hbefore])
  have hname : String.ofList segment ∈ names path := by
    refine List.mem_map_of_mem (List.mem_filter.2 ⟨hmem, ?_⟩)
    simpa using ne_nil_of_trimmed_eq hbefore
  have hown : Component.name (String.ofList segment) ∈ (names path).filterMap component? := by
    refine List.mem_filterMap.2 ⟨_, hname, ?_⟩
    have hdot : String.ofList segment ≠ "." := fun he =>
      hdots (.inl (by simpa using congrArg String.toList he))
    have hup : String.ofList segment ≠ ".." := fun he =>
      hdots (.inr (by simpa using congrArg String.toList he))
    rw [component?, if_neg hdot, if_neg hup]
  unfold components
  dsimp only
  split
  · exact List.mem_cons_of_mem _ hown
  split
  · exact List.mem_cons_of_mem _ hown
  · exact hown

/-- The last component of a path, if it names something, is a plain name. -/
theorem isPlain_of_fileName? {path name : String} (hnul : '\x00' ∉ path.toList)
    (h : fileName? path = some name) : IsPlain name := by
  have hmem : name ∈ (names path).filter (· ≠ ".") := by
    rw [← filterMap_components]
    exact List.mem_filterMap.2 ⟨_, mem_components_of_fileName? h, rfl⟩
  obtain ⟨hname, hdot⟩ := List.mem_filter.1 hmem
  refine ⟨isSegment_of_mem_names hnul hname, by simpa using hdot, ?_⟩
  rintro rfl
  unfold fileName? at h
  split at h
  · cases h
  split at h
  · cases h
  next hdots =>
    have heq := congrArg String.toList (Option.some.inj h)
    rw [String.toList_ofList] at heq
    exact hdots (.inr heq)

end Renaming.Path
