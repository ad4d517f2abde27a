import Renaming.Backup.Manifest
import Renaming.Proofs.Json.Text

/-!
A manifest is read back from its text as it was written (`Manifest.parse_text`), whatever characters
stand in its paths.
-/

namespace Renaming

namespace Json

/-! ### Objects and lists -/

section

variable {δ : Type} {shape : Shape δ} {fuel level : Nat} {d d' : δ} {key : String}

theorem inObject_field {value rest : List Char} (first : Bool) (hkey : key ∈ shape.fields)
    (hnew : shape.has d key = false)
    (hvalue : shape.set key d (' ' :: (value ++ rest)) = .ok (d', rest)) :
    shape.inObject (fuel + 1) first d
      ((if first then [] else [',']) ++ (lineAt level ++ (quoted key ++ ':' :: ' ' :: value)) ++
        rest) = shape.inObject fuel false d' rest := by
  obtain ⟨text, heq, htext⟩ := stringBody_quoted key (':' :: ' ' :: (value ++ rest))
  have hnext : nextKey first ((if first then [] else [',']) ++
      (lineAt level ++ (quoted key ++ ':' :: ' ' :: value)) ++ rest) = .ok (.inl text) := by
    have hline : lineAt level ++ (quoted key ++ ':' :: ' ' :: value) ++ rest =
        lineAt level ++ '"' :: text := by
      rw [← heq]
      simp
    cases first with
    | true =>
      rw [if_pos rfl, List.nil_append, hline, nextKey, skip_lineAt,
        skip_cons_of_not_blank (by decide)]
      rfl
    | false =>
      have hskip : skip (lineAt level ++ '"' :: text) = '"' :: text := by
        rw [skip_lineAt, skip_cons_of_not_blank (by decide)]
      rw [if_neg (by decide), List.append_assoc, hline, List.singleton_append, nextKey,
        skip_cons_of_not_blank (by decide)]
      simp [hskip]
  have hcolon : colon (':' :: ' ' :: (value ++ rest)) = .ok (' ' :: (value ++ rest)) := by
    rw [colon, skip_cons_of_not_blank (by decide)]
    rfl
  rw [Shape.inObject, hnext]
  simp only [htext, String.ofList_toList, hnew, hcolon, Except.bind, hvalue]
  simp [hkey]

theorem inObject_end (hall : ∀ field ∈ shape.fields, shape.has d field = true) (rest : List Char) :
    shape.inObject (fuel + 1) false d (lineAt level ++ '\x7d' :: rest) = .ok (d, rest) := by
  have hnext : nextKey false (lineAt level ++ '\x7d' :: rest) = .ok (.inr rest) := by
    rw [nextKey, skip_lineAt, skip_cons_of_not_blank (by decide)]
    rfl
  have hfind : shape.fields.find? (fun field => !shape.has d field) = none := by
    rw [List.find?_eq_none]
    intro field hfield
    simp [hall field hfield]
  rw [Shape.inObject, hnext]
  simp only [hfind]

end

theorem value_pair {δ : Type} (shape : Shape δ) {k₁ k₂ : String} (v₁ v₂ : List Char) (d₁ d₂ : δ)
    (hfields : shape.fields = [k₁, k₂]) (hnew₁ : shape.has shape.none k₁ = false)
    (hset₁ : ∀ rest, shape.set k₁ shape.none (' ' :: (v₁ ++ rest)) = .ok (d₁, rest))
    (hnew₂ : shape.has d₁ k₂ = false)
    (hset₂ : ∀ rest, shape.set k₂ d₁ (' ' :: (v₂ ++ rest)) = .ok (d₂, rest))
    (hall : ∀ k ∈ shape.fields, shape.has d₂ k = true) (level : Nat) (rest : List Char) :
    shape.value (block '\x7b' '\x7d' level
      [quoted k₁ ++ ':' :: ' ' :: v₁, quoted k₂ ++ ':' :: ' ' :: v₂] ++ rest) = .ok (d₂, rest) := by
  have htext : block '\x7b' '\x7d' level
      [quoted k₁ ++ ':' :: ' ' :: v₁, quoted k₂ ++ ':' :: ' ' :: v₂] ++ rest =
      '\x7b' :: ((if true then [] else [',']) ++
        (lineAt (level + 1) ++ (quoted k₁ ++ ':' :: ' ' :: v₁)) ++
          ((if false then [] else [',']) ++
            (lineAt (level + 1) ++ (quoted k₂ ++ ':' :: ' ' :: v₂)) ++
              (lineAt level ++ '\x7d' :: rest))) := by
    simp [block_cons]
  have hvalue (text : List Char) :
      shape.value ('\x7b' :: text) = shape.inObject (text.length + 1) true shape.none text := by
    rw [Shape.value, skip_cons_of_not_blank (by decide)]
    rfl
  rw [htext, hvalue]
  generalize hn : List.length _ = n
  have hlong : 2 ≤ n := by
    rw [← hn]
    simp only [lineAt, List.length_append, List.length_cons]
    omega
  obtain ⟨fuel, rfl⟩ := Nat.exists_eq_add_of_le hlong
  rw [Nat.add_comm 2 fuel, inObject_field true (by simp [hfields]) hnew₁ (hset₁ _),
    inObject_field false (by simp [hfields]) hnew₂ (hset₂ _), inObject_end hall]

section

variable {α : Type} {item : List Char → Scan α} {text : α → List Char} {level : Nat}

theorem length_le_flatMap_cons {α : Type} (c : Char) (f : α → List Char) (items : List α) :
    items.length ≤ (items.flatMap fun a => c :: f a).length := by
  induction items with
  | nil => simp
  | cons a items ih =>
    simp only [List.flatMap_cons, List.length_append, List.length_cons]
    omega

theorem itemsOf_text (hhead : ∀ a, ∃ tail, text a = '\x7b' :: tail)
    (hitem : ∀ a rest, item (text a ++ rest) = .ok (a, rest)) (items : List α) {fuel : Nat}
    (hfuel : items.length < fuel) (rest : List Char) :
    itemsOf item fuel false
      ((items.flatMap fun a => ',' :: (lineAt (level + 1) ++ text a)) ++
        (lineAt level ++ ']' :: rest)) = .ok (items, rest) := by
  induction items generalizing fuel with
  | nil =>
    obtain ⟨fuel, rfl⟩ := Nat.exists_eq_add_of_lt hfuel
    have hnext : nextItem false (lineAt level ++ ']' :: rest) = .ok (.inr rest) := by
      rw [nextItem, skip_lineAt, skip_cons_of_not_blank (by decide)]
      rfl
    simp [itemsOf, hnext]
  | cons a items ih =>
    obtain ⟨fuel, rfl⟩ := Nat.exists_eq_add_of_lt hfuel
    obtain ⟨tail, htail⟩ := hhead a
    generalize hmore : (items.flatMap fun a => ',' :: (lineAt (level + 1) ++ text a)) ++
      (lineAt level ++ ']' :: rest) = more at ih
    have hskip : skip (lineAt (level + 1) ++ (text a ++ more)) = text a ++ more := by
      rw [skip_lineAt, htail, List.cons_append, skip_cons_of_not_blank (by decide)]
    have hnext : nextItem false (',' :: (lineAt (level + 1) ++ (text a ++ more))) =
        .ok (.inl (text a ++ more)) := by
      rw [htail, List.cons_append] at hskip ⊢
      rw [nextItem, skip_cons_of_not_blank (by decide)]
      simp [hskip]
    rw [List.flatMap_cons, List.append_assoc, hmore, List.cons_append, List.append_assoc, itemsOf,
      hnext]
    simp only [hitem]
    rw [ih (by simp; omega)]
    rfl

theorem listValue_text (hhead : ∀ a, ∃ tail, text a = '\x7b' :: tail)
    (hitem : ∀ a rest, item (text a ++ rest) = .ok (a, rest)) (items : List α)
    (rest : List Char) :
    listValue item (' ' :: (block '[' ']' level (items.map text) ++ rest)) = .ok (items, rest) := by
  cases items with
  | nil =>
    rw [listValue, skip_cons_of_blank (by decide), List.map_nil, block]
    simp only [List.isEmpty_nil, if_true, List.cons_append, List.nil_append]
    rw [skip_cons_of_not_blank (by decide)]
    simp [itemsOf, nextItem, skip_cons_of_not_blank (show isBlank ']' = false by decide)]
  | cons a items =>
    obtain ⟨tail, htail⟩ := hhead a
    have hblock : block '[' ']' level ((a :: items).map text) ++ rest =
        '[' :: (lineAt (level + 1) ++ (text a ++
          ((items.flatMap fun a => ',' :: (lineAt (level + 1) ++ text a)) ++
            (lineAt level ++ ']' :: rest)))) := by
      simp [block_cons, List.flatMap_map]
    rw [listValue, skip_cons_of_blank (by decide), hblock, skip_cons_of_not_blank (by decide)]
    generalize hmore : (items.flatMap fun a => ',' :: (lineAt (level + 1) ++ text a)) ++
      (lineAt level ++ ']' :: rest) = more
    have hlong : items.length < (lineAt (level + 1) ++ (text a ++ more)).length := by
      have hcount := length_le_flatMap_cons ',' (fun a => lineAt (level + 1) ++ text a) items
      rw [← hmore]
      rw [List.length_append, List.length_append, List.length_append, List.length_append,
        List.length_cons]
      omega
    have hnext : nextItem true (lineAt (level + 1) ++ (text a ++ more)) =
        .ok (.inl (text a ++ more)) := by
      rw [htail, List.cons_append, nextItem, skip_lineAt, skip_cons_of_not_blank (by decide)]
      rfl
    simp only
    rw [itemsOf, hnext]
    have hitems : itemsOf item _ false more = .ok (items, rest) :=
      hmore ▸ itemsOf_text hhead hitem items hlong rest
    simp only [hitem, hitems]
    rfl

end

end Json

/-! ### Manifests -/

namespace Manifest

open Json

theorem render_copy (c : Copy) (level : Nat) : c.toJson.render level = block '\x7b' '\x7d' level
    [quoted "backup" ++ ':' :: ' ' :: quoted c.backup,
      quoted "original" ++ ':' :: ' ' :: quoted c.file] := by
  simp [Copy.toJson, render, renderEntries]

theorem copyValue_render (c : Copy) (level : Nat) (rest : List Char) :
    copyValue (c.toJson.render level ++ rest) = .ok (c, rest) := by
  have hvalue := value_pair copyShape (quoted c.backup) (quoted c.file) ⟨some c.backup, none⟩
    ⟨some c.backup, some c.file⟩ rfl rfl
    (fun rest => by simp [copyShape, textValue_quoted, Except.map]) rfl
    (fun rest => by simp [copyShape, textValue_quoted, Except.map])
    (by simp [copyShape]) level rest
  rw [render_copy, copyValue, hvalue]
  rfl

/-- **A manifest is read back as it was written.** -/
theorem parse_text (x : Manifest) : parse x.text.toList = .ok x := by
  have hvalue := value_pair shape (quoted x.createdAt)
    (block '[' ']' 1 (x.copies.map (·.toJson.render 2))) ⟨some x.createdAt, none⟩
    ⟨some x.createdAt, some x.copies⟩ rfl rfl
    (fun rest => by simp [shape, textValue_quoted, Except.map]) rfl
    (fun rest => by
      have hcopies :
          listValue copyValue (' ' :: (block '[' ']' 1 _ ++ rest)) = .ok (x.copies, rest) :=
        listValue_text (fun c => ⟨_, (render_copy c 2).trans (block_cons ..)⟩)
          (fun c rest => copyValue_render c 2 rest) x.copies rest
      simp [shape, hcopies, Except.map])
    (by simp [shape]) 0 []
  have htext : x.text.toList = block '\x7b' '\x7d' 0
      [quoted "created_at" ++ ':' :: ' ' :: quoted x.createdAt,
        quoted "entries" ++ ':' :: ' ' :: block '[' ']' 1 (x.copies.map (·.toJson.render 2))] ++
      [] := by
    simp [text, pretty, toJson, render, renderEntries, renderItems_eq, Function.comp_def]
  rw [parse, Shape.read, htext, hvalue]
  rfl

/-- A text is read back from its bytes. -/
theorem fromUTF8?_toUTF8 (text : String) : String.fromUTF8? text.toUTF8 = some text :=
  dif_pos text.isValidUTF8

end Manifest

end Renaming
