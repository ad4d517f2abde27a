import Renaming.Proofs.Json.Grammar

/-!
How deep the brackets of a text are nested. Of a text that is read as a value it is the depth of its
parts (`Reads.nesting_eq`), so the reader takes the texts that are nested less deep than its limit.
-/

namespace Renaming.Json

variable {m n : Nat} {pre inner text rest : List Char} {part : Part}

mutual

/-- The greatest number of brackets that are open at once in a text, `n` being open in front of it.
Brackets in strings do not count. -/
def nesting (n : Nat) : List Char → Nat
  | [] => n
  | '"' :: rest => quotedNesting n rest
  | '[' :: rest | '\x7b' :: rest => nesting (n + 1) rest
  | ']' :: rest | '\x7d' :: rest => max n (nesting (n - 1) rest)
  | _ :: rest => nesting n rest

/-- The same for a text that starts in a string. -/
def quotedNesting (n : Nat) : List Char → Nat
  | [] => n
  | '"' :: rest => nesting n rest
  | '\\' :: _ :: rest => quotedNesting n rest
  | _ :: rest => quotedNesting n rest

end

theorem le_nesting (n : Nat) (text : List Char) : n ≤ nesting n text := by
  refine nesting.induct (fun n text => n ≤ nesting n text) (fun n text => n ≤ quotedNesting n text)
    ?_ ?_ ?_ ?_ ?_ ?_ ?_ ?_ ?_ ?_ ?_ n text
  all_goals
    intros
    simp_all only [nesting, quotedNesting] <;> omega

theorem nesting_plain (h : Plain pre) (n : Nat) (rest : List Char) :
    nesting n (pre ++ rest) = nesting n rest := by
  induction pre with
  | nil => rfl
  | cons c pre ih =>
    obtain ⟨hc, hpre⟩ := List.forall_mem_cons.1 h
    rw [List.cons_append, nesting, ih hpre]
    all_goals
      rintro rfl
      revert hc
      decide

theorem quotedNesting_quotable (h : Quotable inner) (n : Nat) (rest : List Char) :
    quotedNesting n (inner ++ '"' :: rest) = nesting n rest := by
  induction h with
  | nil => rfl
  | char hquote hback _ ih =>
    rw [List.cons_append, quotedNesting, ih]
    · exact hquote
    · exact fun _ _ hc _ => hback hc
  | escape c _ ih => rw [List.cons_append, List.cons_append, quotedNesting, ih]

theorem nesting_flat (h : Flat pre) (n : Nat) (rest : List Char) :
    nesting n (pre ++ rest) = nesting n rest := by
  rcases h with ⟨-, hplain⟩ | ⟨inner, rfl, hinner⟩
  · exact nesting_plain hplain n rest
  · rw [List.cons_append, List.append_assoc, nesting]
    exact quotedNesting_quotable hinner n rest

theorem nesting_skip (n : Nat) (text : List Char) : nesting n (skip text) = nesting n text := by
  obtain ⟨gap, htext, hgap⟩ := skip_spec text
  exact (nesting_plain hgap n _).symm.trans (congrArg _ htext.symm)

theorem Starts.nesting_eq {first : Bool} (h : Starts first text inner) (n : Nat) :
    nesting n text = nesting n inner := by
  obtain ⟨gap, rfl, hgap⟩ := h.gap
  exact nesting_plain hgap n inner

/-- The text of a key is nested no deeper than what is in front of it. -/
theorem nesting_key {first : Bool} {quoted named key : List Char}
    (hstart : Starts first text ('"' :: quoted)) (hkey : stringBody quoted = .ok (key, named))
    (hcolon : skip named = ':' :: inner) (n : Nat) : nesting n text = nesting n inner := by
  obtain ⟨pre, rfl, ⟨body, rfl, hbody⟩, -⟩ := takes_stringBody hkey
  rw [hstart.nesting_eq, nesting, List.append_assoc]
  exact (quotedNesting_quotable hbody n named).trans
    ((nesting_skip n named).symm.trans (by rw [hcolon, nesting] <;> decide))

/-- The brackets inside of which a part starts. -/
def Part.inside : Part → Nat
  | .value _ => 0
  | .items .. | .entries .. => 1

/-- The brackets of a text are as deep as its first part or as what follows it. -/
theorem Reads.nesting_eq (h : Reads m part text rest) (n : Nat) :
    nesting (n + part.inside) text = max (n + part.inside + m) (nesting n rest) := by
  induction h generalizing n with
  | @scalar text rest v h =>
    obtain ⟨pre, hpre, hflat, -⟩ := takes_scalar h
    have hle := le_nesting n rest
    rw [Part.inside, ← nesting_skip, hpre, nesting_flat hflat]
    simp only [Nat.add_zero]
    omega
  | list hopen _ ih | object hopen _ ih =>
    have hinner := ih n
    simp only [Part.inside, Nat.add_zero] at hinner ⊢
    rw [← nesting_skip, hopen, nesting, hinner]
    congr 1
    omega
  | noItem hclose =>
    rw [Part.inside, ← nesting_skip, hclose, nesting]
    simp
  | item hstart _ _ _ ihv ih =>
    have hv := ihv (n + 1)
    have hrest := ih n
    simp only [Part.inside, Nat.add_zero] at hv hrest ⊢
    rw [hstart.nesting_eq, hv, hrest]
    omega
  | noEntry hclose =>
    rw [Part.inside, ← nesting_skip, hclose, nesting]
    simp
  | entry hstart hkey hcolon _ _ ihv ih =>
    have hv := ihv (n + 1)
    have hrest := ih n
    simp only [Part.inside, Nat.add_zero] at hv hrest ⊢
    rw [nesting_key hstart hkey hcolon, hv, hrest]
    omega

/-- The brackets of a whole text are as deep as its value. -/
theorem Reads.nesting_of_end {v : Json} (h : Reads m (.value v) text rest) (hrest : skip rest = []) :
    nesting 0 text = m := by
  have hend : nesting 0 rest = 0 := by rw [← nesting_skip, hrest, nesting]
  have hvalue := h.nesting_eq 0
  simpa [Part.inside, hend] using hvalue

/-- The value of a text is what stands in it between blanks, if the text is not nested as deep as
the limit. -/
theorem read_eq_ok {v : Json} (h : read text = .ok v) : nesting 0 text < maxDepth ∧
    ∃ rest, Reads (nesting 0 text) (.value v) text rest ∧ skip rest = [] := by
  obtain ⟨m, hm, rest, hreads, hrest⟩ := read_eq_ok_iff.1 h
  rw [hreads.nesting_of_end hrest]
  exact ⟨hm, rest, hreads, hrest⟩

end Renaming.Json
