import Renaming.Proofs.Json.Scan

/-!
The texts of JSON values. `Reads m part text rest` says without fuel what stands at the start of a
text, and how deep its brackets are nested (`m`). The reader takes exactly the parts that are not
nested as deep as it allows (`Reads.readAs`, `reads_of_readAs`), and refuses the others for their
depth (`Reads.tooDeep`). What is read from a text is read also where more text follows
(`Reads.append`).
-/

namespace Renaming.Json

variable {m fuel depth : Nat} {text inner rest : List Char} {first : Bool}

/-! ### Gaps -/

theorem isPlain_of_isBlank {c : Char} (h : isBlank c = true) : isPlain c = true := by
  simp only [isBlank, Bool.or_eq_true, beq_iff_eq] at h
  rcases h with ((rfl | rfl) | rfl) | rfl <;> decide

theorem skip_spec (text : List Char) : ∃ gap, text = gap ++ skip text ∧ Plain gap :=
  ⟨text.takeWhile isBlank, List.takeWhile_append_dropWhile.symm,
    fun _ hc => isPlain_of_isBlank (List.all_eq_true.1 List.all_takeWhile _ hc)⟩

theorem skip_append {c : Char} (h : skip text = c :: rest) (s : List Char) :
    skip (text ++ s) = c :: (rest ++ s) := by
  rw [skip] at h
  rw [skip, List.dropWhile_append, h]
  rfl

/-- The text of an item or an entry starts behind the blanks, and if it is not the first one, behind
a comma. -/
def Starts (first : Bool) (text inner : List Char) : Prop :=
  if first then skip text = inner else ∃ mid, skip text = ',' :: mid ∧ skip mid = inner

theorem Starts.gap (h : Starts first text inner) : ∃ gap, text = gap ++ inner ∧ Plain gap := by
  obtain ⟨gap, htext, hgap⟩ := skip_spec text
  cases first with
  | true => exact ⟨gap, h ▸ htext, hgap⟩
  | false =>
    obtain ⟨mid, hmid, rfl⟩ := h
    obtain ⟨gap', hmid', hgap'⟩ := skip_spec mid
    refine ⟨gap ++ ',' :: gap', ?_, hgap.append (hgap'.cons rfl)⟩
    rw [List.append_assoc, List.cons_append, ← hmid', ← hmid]
    exact htext

theorem Starts.append {c : Char} (h : Starts first text (c :: inner)) (s : List Char) :
    Starts first (text ++ s) (c :: (inner ++ s)) := by
  cases first with
  | true => exact skip_append h s
  | false =>
    obtain ⟨mid, hmid, hinner⟩ := h
    exact ⟨mid ++ s, skip_append hmid s, skip_append hinner s⟩

theorem nextItem_inr_iff : nextItem first text = .ok (.inr rest) ↔ skip text = ']' :: rest := by
  unfold nextItem
  repeat' split
  all_goals simp_all

theorem nextItem_inl_iff : nextItem first text = .ok (.inl inner) ↔
    Starts first text inner ∧ ∃ c tail, inner = c :: tail ∧ c ≠ ']' := by
  unfold nextItem Starts
  repeat' split
  all_goals simp_all
  all_goals grind [cases List]

theorem nextKey_inr_iff : nextKey first text = .ok (.inr rest) ↔ skip text = '\x7d' :: rest := by
  unfold nextKey
  repeat' split
  all_goals simp_all

theorem nextKey_inl_iff : nextKey first text = .ok (.inl inner) ↔
    Starts first text ('"' :: inner) := by
  unfold nextKey Starts
  repeat' split
  all_goals simp_all

theorem colon_eq_ok_iff : colon text = .ok rest ↔ skip text = ':' :: rest := by
  unfold colon
  split <;> simp_all

/-! ### Parts of a text -/

/-- What is read of a text: a value, or what is left of a list or an object up to its closing
bracket; `first` says that nothing of it has been read. -/
inductive Part
  | value (v : Json)
  | items (first : Bool) (vs : List Json)
  | entries (first : Bool) (es : List (String × Json))

/-- A part stands at the start of a text, `m` brackets deep, and `rest` follows it. -/
inductive Reads : (m : Nat) → Part → (text rest : List Char) → Prop
  | scalar {text rest : List Char} {v : Json} (h : scalar (skip text) = .ok (v, rest)) :
      Reads 0 (.value v) text rest
  | list {m : Nat} {text inner rest : List Char} {vs : List Json} (hopen : skip text = '[' :: inner)
      (h : Reads m (.items true vs) inner rest) : Reads (m + 1) (.value (.arr vs)) text rest
  | object {m : Nat} {text inner rest : List Char} {es : List (String × Json)}
      (hopen : skip text = '\x7b' :: inner) (h : Reads m (.entries true es) inner rest) :
      Reads (m + 1) (.value (.obj (sortedEntries es))) text rest
  | noItem {first : Bool} {text rest : List Char} (hclose : skip text = ']' :: rest) :
      Reads 0 (.items first []) text rest
  | item {m m' : Nat} {first : Bool} {c : Char} {text inner outer rest : List Char} {v : Json}
      {vs : List Json} (hstart : Starts first text (c :: inner)) (hc : c ≠ ']')
      (hv : Reads m (.value v) (c :: inner) outer) (h : Reads m' (.items false vs) outer rest) :
      Reads (max m m') (.items first (v :: vs)) text rest
  | noEntry {first : Bool} {text rest : List Char} (hclose : skip text = '\x7d' :: rest) :
      Reads 0 (.entries first []) text rest
  | entry {m m' : Nat} {first : Bool} {text quoted named inner outer rest : List Char}
      {key : List Char} {v : Json} {es : List (String × Json)}
      (hstart : Starts first text ('"' :: quoted)) (hkey : stringBody quoted = .ok (key, named))
      (hcolon : skip named = ':' :: inner) (hv : Reads m (.value v) inner outer)
      (h : Reads m' (.entries false es) outer rest) :
      Reads (max m m') (.entries first ((String.ofList key, v) :: es)) text rest

/-- The reader takes a part off a text. -/
def Part.ReadAs (fuel depth : Nat) : Part → (text rest : List Char) → Prop
  | .value v, text, rest => Json.value fuel depth text = .ok (v, rest)
  | .items first vs, text, rest => Json.items fuel depth first text = .ok (vs, rest)
  | .entries first es, text, rest => Json.entries fuel depth first text = .ok (es, rest)

/-- The reader refuses a text, in which it looks for such a part, for the depth of its brackets. -/
def Part.TooDeep (fuel depth : Nat) : Part → (text : List Char) → Prop
  | .value _, text => ∃ left, Json.value fuel depth text = .error (.next .tooDeep left)
  | .items first _, text => ∃ left, Json.items fuel depth first text = .error (.next .tooDeep left)
  | .entries first _, text =>
    ∃ left, Json.entries fuel depth first text = .error (.next .tooDeep left)

/-- The fuel that is enough for a part of a text. -/
def Part.need : Part → (text : List Char) → Nat
  | .value _, text => 2 * text.length
  | .items .., text | .entries .., text => 2 * text.length + 1

variable {part : Part}

/-! ### What the reader takes -/

/-- What the reader takes is nested less deep than it allows. -/
theorem reads_of_readAs (hdepth : 0 < depth) (h : part.ReadAs fuel depth text rest) :
    ∃ m < depth, Reads m part text rest := by
  induction fuel generalizing depth part text rest with
  | zero => cases part <;> simp [Part.ReadAs, value, items, entries] at h
  | succ fuel ih =>
    cases part with
    | value v =>
      rw [Part.ReadAs, value] at h
      split at h
      next inner hopen =>
        split at h
        next => cases h
        next hdeep =>
          obtain ⟨⟨vs, left⟩, hitems, heq⟩ := map_eq_ok h
          cases heq
          obtain ⟨m, hm, hreads⟩ := ih (by omega)
            (show Part.ReadAs fuel (depth - 1) (.items true vs) inner rest from hitems)
          exact ⟨m + 1, by omega, .list hopen hreads⟩
      next inner hopen =>
        split at h
        next => cases h
        next hdeep =>
          obtain ⟨⟨es, left⟩, hentries, heq⟩ := map_eq_ok h
          cases heq
          obtain ⟨m, hm, hreads⟩ := ih (by omega)
            (show Part.ReadAs fuel (depth - 1) (.entries true es) inner rest from hentries)
          exact ⟨m + 1, by omega, .object hopen hreads⟩
      next => exact ⟨0, hdepth, .scalar h⟩
    | items first vs =>
      rw [Part.ReadAs, items] at h
      split at h
      next => cases h
      next left hnext =>
        cases h
        exact ⟨0, hdepth, .noItem (nextItem_inr_iff.1 hnext)⟩
      next inner hnext =>
        split at h
        next => cases h
        next v outer hv =>
          obtain ⟨⟨vs, left⟩, hitems, heq⟩ := map_eq_ok h
          cases heq
          obtain ⟨m, hm, hreads⟩ := ih hdepth
            (show Part.ReadAs fuel depth (.value v) inner outer from hv)
          obtain ⟨m', hm', hreads'⟩ := ih hdepth
            (show Part.ReadAs fuel depth (.items false vs) outer rest from hitems)
          obtain ⟨hstart, c, tail, rfl, hc⟩ := nextItem_inl_iff.1 hnext
          exact ⟨max m m', by omega, .item hstart hc hreads hreads'⟩
    | entries first es =>
      rw [Part.ReadAs, entries] at h
      split at h
      next => cases h
      next left hnext =>
        cases h
        exact ⟨0, hdepth, .noEntry (nextKey_inr_iff.1 hnext)⟩
      next quoted hnext =>
        split at h
        next => cases h
        next key named hkey =>
          split at h
          next => cases h
          next inner hcolon =>
            split at h
            next => cases h
            next v outer hv =>
              obtain ⟨⟨es, left⟩, hentries, heq⟩ := map_eq_ok h
              cases heq
              obtain ⟨m, hm, hreads⟩ := ih hdepth
                (show Part.ReadAs fuel depth (.value v) inner outer from hv)
              obtain ⟨m', hm', hreads'⟩ := ih hdepth
                (show Part.ReadAs fuel depth (.entries false es) outer rest from hentries)
              exact ⟨max m m', by omega, .entry (nextKey_inl_iff.1 hnext) hkey
                (colon_eq_ok_iff.1 hcolon) hreads hreads'⟩

theorem length_of_skip {c : Char} (h : skip text = c :: rest) : rest.length < text.length := by
  have := (List.dropWhile_sublist (l := text) isBlank).length_le
  rw [← skip, h] at this
  exact this

theorem Starts.length_le (h : Starts first text inner) : inner.length ≤ text.length := by
  obtain ⟨gap, rfl, -⟩ := h.gap
  simp

theorem Takes.length_le {α : Type} {P : List Char → Prop} {scan : List Char → Scan α} {a : α}
    (h : Takes scan P) (hscan : scan text = .ok (a, rest)) : rest.length ≤ text.length := by
  obtain ⟨pre, rfl, -⟩ := h hscan
  simp

theorem length_entry {quoted named key : List Char} (hstart : Starts first text ('"' :: quoted))
    (hkey : stringBody quoted = .ok (key, named)) (hcolon : skip named = ':' :: inner) :
    inner.length < text.length := by
  have h₁ := hstart.length_le
  have h₂ := takes_stringBody.length_le hkey
  have h₃ := length_of_skip hcolon
  rw [List.length_cons] at h₁
  omega

/-- A part is not empty. -/
theorem Reads.length_lt (h : Reads m part text rest) : rest.length < text.length := by
  induction h with
  | @scalar text _ _ h =>
    obtain ⟨pre, hpre, hflat, -⟩ := takes_scalar h
    obtain ⟨gap, htext, -⟩ := skip_spec text
    have hne := List.length_pos_iff.2 hflat.ne_nil
    rw [htext, hpre, List.length_append, List.length_append]
    omega
  | list hopen _ ih => exact Nat.lt_trans ih (length_of_skip hopen)
  | object hopen _ ih => exact Nat.lt_trans ih (length_of_skip hopen)
  | noItem hclose => exact length_of_skip hclose
  | item hstart hc _ _ ihv ih => exact Nat.lt_trans ih (Nat.lt_of_lt_of_le ihv hstart.length_le)
  | noEntry hclose => exact length_of_skip hclose
  | entry hstart hkey hcolon _ _ ihv ih =>
    exact Nat.lt_trans ih (Nat.lt_trans ihv (length_entry hstart hkey hcolon))

/-! ### One step of the reader -/

theorem value_list (hopen : skip text = '[' :: inner) : value (fuel + 1) depth text =
    if depth ≤ 1 then .error (.next .tooDeep ('[' :: inner))
    else (items fuel (depth - 1) true inner).map fun (vs, left) => (arr vs, left) := by
  rw [value, hopen]
  rfl

theorem value_object (hopen : skip text = '\x7b' :: inner) : value (fuel + 1) depth text =
    if depth ≤ 1 then .error (.next .tooDeep ('\x7b' :: inner))
    else (entries fuel (depth - 1) true inner).map
      fun (es, left) => (obj (sortedEntries es), left) := by
  rw [value, hopen]
  rfl

theorem value_scalar {x : Json × List Char} (h : scalar (skip text) = .ok x) :
    value (fuel + 1) depth text = .ok x := by
  rw [value]
  split
  next hopen =>
    rw [hopen] at h
    cases h
  next hopen =>
    rw [hopen] at h
    cases h
  next => exact h

theorem items_close (hclose : skip text = ']' :: rest) :
    items (fuel + 1) depth first text = .ok ([], rest) := by
  rw [items, nextItem_inr_iff.2 hclose]

theorem items_item {c : Char} (hstart : Starts first text (c :: inner)) (hc : c ≠ ']') :
    items (fuel + 1) depth first text =
      (value fuel depth (c :: inner)).bind fun (v, rest) =>
        (items fuel depth false rest).map fun (vs, left) => (v :: vs, left) := by
  rw [items, nextItem_inl_iff.2 ⟨hstart, c, inner, rfl, hc⟩]
  dsimp only
  cases value fuel depth (c :: inner) <;> rfl

theorem entries_close (hclose : skip text = '\x7d' :: rest) :
    entries (fuel + 1) depth first text = .ok ([], rest) := by
  rw [entries, nextKey_inr_iff.2 hclose]

theorem entries_entry {quoted named key : List Char} (hstart : Starts first text ('"' :: quoted))
    (hkey : stringBody quoted = .ok (key, named)) (hcolon : skip named = ':' :: inner) :
    entries (fuel + 1) depth first text =
      (value fuel depth inner).bind fun (v, rest) =>
        (entries fuel depth false rest).map
          fun (es, left) => ((String.ofList key, v) :: es, left) := by
  simp only [entries, nextKey_inl_iff.2 hstart, hkey, colon_eq_ok_iff.2 hcolon]
  cases value fuel depth inner <;> rfl

/-! ### The limit -/

/-- Every step leaves less to do. -/
theorem exists_fuel {need more : Nat} (hless : need + 1 ≤ more) (hfuel : more ≤ fuel) :
    ∃ left, fuel = left + 1 ∧ need ≤ left :=
  ⟨fuel - 1, by omega, by omega⟩

theorem Reads.need_pos (h : Reads m part text rest) : 0 + 1 ≤ part.need text := by
  have := h.length_lt
  cases part <;> simp only [Part.need] <;> omega

theorem need_items {c : Char} (hopen : skip text = c :: inner) (vs : List Json) (v : Json) :
    (Part.items true vs).need inner + 1 ≤ (Part.value v).need text := by
  have := length_of_skip hopen
  simp only [Part.need]
  omega

theorem need_entries {c : Char} (hopen : skip text = c :: inner) (es : List (String × Json))
    (v : Json) : (Part.entries true es).need inner + 1 ≤ (Part.value v).need text :=
  need_items hopen [] v

theorem need_more {v : Json} {outer : List Char} (hlength : inner.length ≤ text.length)
    (hv : Reads m (.value v) inner outer) : (Part.value v).need inner + 1 ≤ 2 * text.length + 1 ∧
      2 * outer.length + 1 + 1 ≤ 2 * text.length + 1 := by
  have := hv.length_lt
  simp only [Part.need]
  omega

/-- What is not nested too deep is taken by the reader. -/
theorem Reads.readAs (h : Reads m part text rest) (hm : m < depth) (hfuel : part.need text ≤ fuel) :
    part.ReadAs fuel depth text rest := by
  -- the parts of a part need less fuel, and inside a bracket the depth is one less
  induction h generalizing fuel depth with
  | scalar h =>
    obtain ⟨fuel, rfl, -⟩ := exists_fuel (Reads.scalar h).need_pos hfuel
    exact value_scalar h
  | @list m text inner rest vs hopen _ ih =>
    obtain ⟨fuel, rfl, hless⟩ := exists_fuel (need_items hopen vs _) hfuel
    have hitems : items fuel (depth - 1) true inner = .ok (vs, rest) := ih (by omega) hless
    rw [Part.ReadAs.eq_1, value_list hopen, if_neg (by omega), hitems]
    rfl
  | @object m text inner rest es hopen _ ih =>
    obtain ⟨fuel, rfl, hless⟩ := exists_fuel (need_entries hopen es _) hfuel
    have hentries : entries fuel (depth - 1) true inner = .ok (es, rest) := ih (by omega) hless
    rw [Part.ReadAs.eq_1, value_object hopen, if_neg (by omega), hentries]
    rfl
  | noItem hclose =>
    obtain ⟨fuel, rfl, -⟩ := exists_fuel (Reads.noItem hclose).need_pos hfuel
    exact items_close hclose
  | @item m m' first c text inner outer rest v vs hstart hc hv _ ihv ih =>
    obtain ⟨hinner, houter⟩ := need_more hstart.length_le hv
    obtain ⟨fuel, rfl, hless⟩ := exists_fuel hinner hfuel
    have hvalue : value fuel depth (c :: inner) = .ok (v, outer) := ihv (by omega) hless
    have hitems : items fuel depth false outer = .ok (vs, rest) :=
      ih (by omega) (Nat.le_of_succ_le_succ (Nat.le_trans houter hfuel))
    rw [Part.ReadAs.eq_2, items_item hstart hc, hvalue]
    simp only [Except.bind, hitems]
    rfl
  | noEntry hclose =>
    obtain ⟨fuel, rfl, -⟩ := exists_fuel (Reads.noEntry hclose).need_pos hfuel
    exact entries_close hclose
  | @entry m m' first text quoted named inner outer rest key v es hstart hkey hcolon hv _ ihv ih =>
    obtain ⟨hinner, houter⟩ := need_more (Nat.le_of_lt (length_entry hstart hkey hcolon)) hv
    obtain ⟨fuel, rfl, hless⟩ := exists_fuel hinner hfuel
    have hvalue : value fuel depth inner = .ok (v, outer) := ihv (by omega) hless
    have hentries : entries fuel depth false outer = .ok (es, rest) :=
      ih (by omega) (Nat.le_of_succ_le_succ (Nat.le_trans houter hfuel))
    rw [Part.ReadAs.eq_3, entries_entry hstart hkey hcolon, hvalue]
    simp only [Except.bind, hentries]
    rfl

/-- What is nested too deep is refused. -/
theorem Reads.tooDeep (h : Reads m part text rest) (hdepth : 0 < depth) (hm : depth ≤ m)
    (hfuel : part.need text ≤ fuel) : part.TooDeep fuel depth text := by
  induction h generalizing fuel depth with
  | scalar | noItem | noEntry => omega
  | @list m text inner rest vs hopen _ ih =>
    obtain ⟨fuel, rfl, hless⟩ := exists_fuel (need_items hopen vs _) hfuel
    rw [Part.TooDeep.eq_1, value_list hopen]
    split
    next => exact ⟨_, rfl⟩
    next hdeep =>
      obtain ⟨left, hitems⟩ := ih (show 0 < depth - 1 by omega) (by omega) hless
      exact ⟨left, by rw [hitems]; rfl⟩
  | @object m text inner rest es hopen _ ih =>
    obtain ⟨fuel, rfl, hless⟩ := exists_fuel (need_entries hopen es _) hfuel
    rw [Part.TooDeep.eq_1, value_object hopen]
    split
    next => exact ⟨_, rfl⟩
    next hdeep =>
      obtain ⟨left, hentries⟩ := ih (show 0 < depth - 1 by omega) (by omega) hless
      exact ⟨left, by rw [hentries]; rfl⟩
  | @item m m' first c text inner outer rest v vs hstart hc hv _ ihv ih =>
    obtain ⟨hinner, houter⟩ := need_more hstart.length_le hv
    obtain ⟨fuel, rfl, hless⟩ := exists_fuel hinner hfuel
    rw [Part.TooDeep.eq_2, items_item hstart hc]
    -- the item is too deep itself, or it is taken and one behind it is
    by_cases hmv : depth ≤ m
    · obtain ⟨left, hvalue⟩ := ihv hdepth hmv hless
      exact ⟨left, by rw [hvalue]; rfl⟩
    · have hvalue : value fuel depth (c :: inner) = .ok (v, outer) := hv.readAs (by omega) hless
      obtain ⟨left, hitems⟩ := ih hdepth (by omega)
        (Nat.le_of_succ_le_succ (Nat.le_trans houter hfuel))
      exact ⟨left, by rw [hvalue]; simp only [Except.bind, hitems]; rfl⟩
  | @entry m m' first text quoted named inner outer rest key v es hstart hkey hcolon hv _ ihv ih =>
    obtain ⟨hinner, houter⟩ := need_more (Nat.le_of_lt (length_entry hstart hkey hcolon)) hv
    obtain ⟨fuel, rfl, hless⟩ := exists_fuel hinner hfuel
    rw [Part.TooDeep.eq_3, entries_entry hstart hkey hcolon]
    by_cases hmv : depth ≤ m
    · obtain ⟨left, hvalue⟩ := ihv hdepth hmv hless
      exact ⟨left, by rw [hvalue]; rfl⟩
    · have hvalue : value fuel depth inner = .ok (v, outer) := hv.readAs (by omega) hless
      obtain ⟨left, hentries⟩ := ih hdepth (by omega)
        (Nat.le_of_succ_le_succ (Nat.le_trans houter hfuel))
      exact ⟨left, by rw [hvalue]; simp only [Except.bind, hentries]; rfl⟩

/-! ### Whole texts -/

theorem finish_eq_ok_iff : finish text = .ok () ↔ skip text = [] := by
  unfold finish
  split <;> simp_all

theorem read_of_value {v : Json} (h : value (2 * text.length + 2) maxDepth text = .ok (v, rest)) :
    read text = (finish rest).map fun _ => v := by
  rw [read, h]
  change (finish rest).bind _ = _
  cases finish rest <;> rfl

/-- The value of a text is what stands in it between blanks, unless its brackets are nested too
deep. -/
theorem read_eq_ok_iff {v : Json} : read text = .ok v ↔
    ∃ m < maxDepth, ∃ rest, Reads m (.value v) text rest ∧ skip rest = [] := by
  constructor
  · intro h
    cases hvalue : value (2 * text.length + 2) maxDepth text with
    | error f =>
      rw [read, hvalue] at h
      cases h
    | ok x =>
      obtain ⟨v', rest⟩ := x
      rw [read_of_value hvalue] at h
      obtain ⟨_, hfinish, rfl⟩ := map_eq_ok h
      obtain ⟨m, hm, hreads⟩ := reads_of_readAs (show 0 < maxDepth by decide)
        (show Part.ReadAs _ maxDepth (.value v') text rest from hvalue)
      exact ⟨m, hm, rest, hreads, finish_eq_ok_iff.1 hfinish⟩
  · rintro ⟨m, hm, rest, hreads, hrest⟩
    have hvalue : value (2 * text.length + 2) maxDepth text = .ok (v, rest) :=
      hreads.readAs hm (by simp only [Part.need]; omega)
    rw [read_of_value hvalue, finish_eq_ok_iff.2 hrest]
    rfl

theorem read_tooDeep {v : Json} (h : Reads m (.value v) text rest) (hm : maxDepth ≤ m) :
    ∃ left, read text = .error (.next .tooDeep left) := by
  have hfuel : (Part.value v).need text ≤ 2 * text.length + 2 := by simp only [Part.need]; omega
  obtain ⟨left, hvalue⟩ := h.tooDeep (by decide) hm hfuel
  exact ⟨left, by rw [read, hvalue]; rfl⟩

/-! ### More text -/

/-- What is read from a text is read also where more text follows. Only a value that is not made of
others could go on there, if nothing stood behind it. -/
theorem Reads.append (h : Reads m part text rest)
    (hrest : ∀ v, part = .value v → Json.scalar (skip text) = .ok (v, rest) → rest ≠ [])
    (s : List Char) : Reads m part (text ++ s) (rest ++ s) := by
  induction h with
  | @scalar text rest v h =>
    have happend := takes_scalar.append h (hrest v rfl h) s
    cases hskip : skip text with
    | nil =>
      rw [hskip] at h
      cases h
    | cons c tail =>
      rw [hskip] at happend
      exact .scalar ((congrArg Json.scalar (skip_append hskip s)).trans happend)
  | list hopen _ ih => exact .list (skip_append hopen s) (ih nofun)
  | object hopen _ ih => exact .object (skip_append hopen s) (ih nofun)
  | noItem hclose => exact .noItem (skip_append hclose s)
  | item hstart hc _ hitems ihv ih =>
    -- the list goes on or ends behind the item, so something stands there
    have hne := List.ne_nil_of_length_pos (Nat.zero_lt_of_lt hitems.length_lt)
    exact .item (hstart.append s) hc (ihv fun _ _ _ => hne) (ih nofun)
  | noEntry hclose => exact .noEntry (skip_append hclose s)
  | entry hstart hkey hcolon _ hentries ihv ih =>
    have hne := List.ne_nil_of_length_pos (Nat.zero_lt_of_lt hentries.length_lt)
    have hnamed := List.ne_nil_of_length_pos (Nat.zero_lt_of_lt (length_of_skip hcolon))
    exact .entry (hstart.append s) (takes_stringBody.append hkey hnamed s) (skip_append hcolon s)
      (ihv fun _ _ _ => hne) (ih nofun)

/-- Blanks in front of a value do not count. -/
theorem Reads.of_skip_eq {v : Json} (h : Reads m (.value v) text rest) {text' : List Char}
    (hskip : skip text' = skip text) : Reads m (.value v) text' rest := by
  cases h with
  | scalar h => exact .scalar (hskip ▸ h)
  | list hopen h => exact .list (hskip.trans hopen) h
  | object hopen h => exact .object (hskip.trans hopen) h

end Renaming.Json
