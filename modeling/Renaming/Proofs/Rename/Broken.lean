import Renaming.Proofs.Rename.Intact
import Renaming.Proofs.Source.Strings

/-!
Strings that are broken open. For each way in which rules may break a string there is a short source
in which they do: `breaksNothing_of_intact`. So the sets of rules that leave every source intact are
those that break nothing (`RuleSet.intact_iff`), and a text that opens a substitution is enough to
break one (`RuleSet.not_intact_substitution`).

In each of these sources the string should start in the result at a place that lies inside of a
longer token, and `Intact.token_eq` says that it cannot.
-/

namespace Renaming

open Renaming.Source

section

variable {rules : List Rule} {guarded : List String} {source : String}

/-! ### Where a string is looked for -/

theorem frontAfter_eq (hne : ∀ r ∈ rules, r.old ≠ "") {xs ys : List Piece}
    (h : tokensOf source.toList = xs ++ ys) {front : List Char}
    (hout : (rename rules guarded source).text.toList =
      front ++ textOf (redrawn (nameAfter rules guarded) (marksOf xs).reverse ys)) :
    frontAfter rules (editsOf rules guarded source) (textOf xs) = utf8 front := by
  obtain ⟨xs', hredrawn, hfront⟩ := exists_front guarded hne h
  rw [text_rename_eq, hredrawn, textOf_append] at hout
  rw [← hfront, List.append_cancel_right hout]

/-- In a source that stays intact the token that covers the place where a rewritten string should
start is this string. -/
theorem Intact.token_eq (h : Intact rules guarded source) (hne : ∀ r ∈ rules, r.old ≠ "")
    {xs ys : List Piece} {p : Piece} {r : Rule} (hp : Rewritten rules guarded source xs p ys r)
    {front : List Char} (hout : (rename rules guarded source).text.toList =
      front ++ textOf (redrawn (nameAfter rules guarded) (marksOf xs).reverse (p :: ys)))
    {us vs : List Piece} {t : Piece}
    (htokens : tokensOf (rename rules guarded source).text.toList = us ++ t :: vs)
    (hle : (textOf us).length ≤ front.length)
    (hlt : front.length < (textOf us).length + t.text.length) :
    textOf us = front ∧ t.content? = some r.new.toList := by
  obtain ⟨xs', p', ys', hxs', hfront, hcontent⟩ := h.exists_token hp
  rw [frontAfter_eq hne hp.tokens hout] at hfront
  obtain rfl := utf8_injective hfront
  have hne' : p'.text ≠ [] := by
    obtain ⟨-, q, -, ht⟩ := Piece.text_of_content? hcontent
    simp [ht]
  obtain ⟨rfl, rfl⟩ := eq_of_append_token hne' (hxs'.symm.trans htokens) hle hlt
  exact ⟨rfl, hcontent⟩

theorem Leading.rewritten {r : Rule} (hr : Leading rules guarded .stringLiteral r) {xs ys : List Piece}
    {p : Piece} (h : tokensOf source.toList = xs ++ p :: ys)
    (hp : p.content? = some r.old.toList) : Rewritten rules guarded source xs p ys r :=
  ⟨h, hp, hr.exists_chosen_string _ _, hr.unguarded⟩

/-! ### Sources that do not stay intact -/

variable (hfit : ∀ r ∈ rules, r.unfit? = none)

include hfit

theorem old_ne_empty : ∀ r ∈ rules, r.old ≠ "" :=
  fun r hr => (Rule.unfit?_eq_none_iff.1 (hfit r hr)).1.1

theorem not_intact_template {r : Rule} (hr : Leading rules guarded .stringLiteral r)
    (hold : ¬ ['$', '{'] <:+: r.old.toList) (hnew : ['$', '{'] <:+: r.new.toList) :
    ¬ Intact rules guarded (String.ofList ('\x60' :: (r.old.toList ++ ['\x60']))) := by
  intro h
  obtain ⟨ho, hn⟩ := Rule.plain_of_fit (hfit r hr.mem)
  have hcontent := content?_of_plain (q := '\x60') (by decide) ho
  have htokens := tokensOf_template ho hold
  have hp : Rewritten rules guarded (String.ofList ('\x60' :: (r.old.toList ++ ['\x60']))) []
      ⟨.literal, '\x60' :: (r.old.toList ++ ['\x60'])⟩ [] r := by
    apply hr.rewritten _ hcontent
    rw [String.toList_ofList]
    exact htokens
  have hredrawn : redrawn (nameAfter rules guarded) []
      [⟨.literal, '\x60' :: (r.old.toList ++ ['\x60'])⟩] =
        [⟨.literal, '\x60' :: (r.new.toList ++ ['\x60'])⟩] := by
    simp [redrawn, Piece.redraw, Piece.fragments_content hcontent, Fragment.redraw,
      hr.nameAfter_string]
  have hout : (rename rules guarded
      (String.ofList ('\x60' :: (r.old.toList ++ ['\x60'])))).text.toList =
        [] ++ textOf (redrawn (nameAfter rules guarded) (marksOf []).reverse
          [⟨.literal, '\x60' :: (r.old.toList ++ ['\x60'])⟩]) := by
    rw [text_rename_eq, String.toList_ofList, htokens]
    rfl
  obtain ⟨u, ts, hts, hlast⟩ := exists_tokens_template hn hnew
  have hfirst : tokensOf (rename rules guarded
      (String.ofList ('\x60' :: (r.old.toList ++ ['\x60'])))).text.toList =
        [] ++ ⟨.literal, '\x60' :: u⟩ :: ts := by
    rw [hout, marksOf_nil, List.reverse_nil, hredrawn, List.nil_append, textOf_cons, textOf_nil,
      List.append_nil, hts]
    rfl
  obtain ⟨-, hquote⟩ := h.token_eq (old_ne_empty hfit) hp hout hfirst (by simp) (by simp)
  -- the token ends with the brace, and not with a quote
  rw [Piece.content?_eq_none_of_getLast? (getLast?_cons_of_eq_some hlast)] at hquote
  cases hquote

theorem not_intact_frameText {r : Rule} (hr : Leading rules guarded .stringLiteral r) {k b : Bool}
    {mid : List Char} (hold : sweep k r.old.toList = some b)
    (hmid : mid = [] ∨ mid = slashString ∧ b = true)
    (hnew : (regex false k (r.new.toList ++ '\'' :: (mid ++ hidden []))).isSome = true) :
    ¬ Intact rules guarded (String.ofList (frameText k r.old.toList mid [])) := by
  intro h
  obtain ⟨ho, -⟩ := Rule.plain_of_fit (hfit r hr.mem)
  have htokens := tokens_frameText (w := []) ho (by simp) hold rfl hmid
  have hp : Rewritten rules guarded (String.ofList (frameText k r.old.toList mid [])) (frameFront k)
      (stringOf r.old.toList) (frameRest mid []) r := by
    apply hr.rewritten _ (content?_of_plain (by decide) ho)
    rw [String.toList_ofList]
    exact htokens
  have hout : (rename rules guarded (String.ofList (frameText k r.old.toList mid []))).text.toList =
      frameText k r.new.toList mid [] := by
    rw [text_rename_eq, String.toList_ofList, htokens]
    exact textOf_redrawn_frameText (keepsQuotes_nameAfter hfit) ho hr.nameAfter_string
      (hmid.imp_right And.left)
  have hfront : (rename rules guarded (String.ofList (frameText k r.old.toList mid []))).text.toList =
      textOf (frameFront k) ++ textOf (redrawn (nameAfter rules guarded) (marksOf (frameFront k)).reverse
        (stringOf r.old.toList :: frameRest mid [])) := by
    rw [text_rename_eq, hp.tokens, redrawn_append_of_still still_frameFront, textOf_append,
      List.append_nil]
  obtain ⟨cut, hcut⟩ := Option.isSome_iff_exists.1 hnew
  obtain ⟨ts, hts⟩ := exists_tokens_frameText hcut
  have hfirst : tokensOf (rename rules guarded
      (String.ofList (frameText k r.old.toList mid []))).text.toList =
        [] ++ ⟨.literal, '/' :: ((if k then ['['] else []) ++ '\'' :: cut.text)⟩ :: ts := by
    rw [hout, hts]
    rfl
  obtain ⟨hnil, -⟩ := h.token_eq (old_ne_empty hfit) hp hfront hfirst (by simp)
    (by cases k <;> simp [frameFront])
  simp [frameFront] at hnil

theorem exists_rewritten {z : Rule}
    (hz : Leading rules guarded .stringLiteral z ∨ Leading rules guarded .objectKey z)
    {xs ys : List Piece} (h : tokensOf source.toList = xs ++ stringOf z.old.toList :: ys)
    (hkey : Site.isKey ⟨z.old, false, (marksOf xs).reverse, textOf ys⟩ = true) :
    ∃ q ∈ rules, q.old = z.old ∧
      Rewritten rules guarded source xs (stringOf z.old.toList) ys q := by
  obtain ⟨j, hj⟩ : ∃ j, Applies rules ⟨z.old, false, (marksOf xs).reverse, textOf ys⟩ j z := by
    rcases hz with hz | hz
    · exact hz.exists_applies rfl rfl
    · exact hz.exists_applies rfl hkey
  obtain ⟨q, i, hsel⟩ := exists_select? hj
  have hq := chosen_of_select? hsel
  have hold : q.old = z.old := hq.1.2.1
  have hplain := (Rule.plain_of_fit (hfit z (hz.elim Leading.mem Leading.mem))).1
  refine ⟨q, List.mem_of_getElem? hq.1.1, hold, h, ?_, ⟨i, by rwa [hold]⟩, ?_⟩
  · rw [hold]
    exact content?_of_plain (by decide) hplain
  · rw [hold]
    exact hz.elim Leading.unguarded Leading.unguarded

theorem text_rename_entry {r q : Rule} (hr : Leading rules guarded .identifier r) {p : List Char}
    (hpr : Touches p r.old.toList) {k : Kind} {u : List Char} {zs : List Piece}
    (hstill : Piece.Still (nameAfter rules guarded) ⟨k, '/' :: u⟩)
    (hp : Rewritten rules guarded
      (String.ofList (lead p ++ (r.old.toList ++ entryTail u q.old.toList (textOf zs))))
      (touched p r.old.toList ++ entryFront k u) (stringOf q.old.toList) (⟨.code, [':']⟩ :: zs) q) :
    (rename rules guarded (String.ofList
      (lead p ++ (r.old.toList ++ entryTail u q.old.toList (textOf zs))))).text.toList =
        lead p ++ (r.new.toList ++ textOf (entryFront k u)) ++
          textOf (redrawn (nameAfter rules guarded)
            (marksOf (touched p r.old.toList ++ entryFront k u)).reverse
            (stringOf q.old.toList :: ⟨.code, [':']⟩ :: zs)) := by
  have hname := (hr.isName (hfit r hr.mem)).1
  have htokens := hp.tokens
  rw [String.toList_ofList, List.append_assoc] at htokens
  rw [hr.text_touched hname hpr htokens (not_separates_entryTail _ _ _),
    redrawn_append_of_still (still_entryFront hstill), ← List.reverse_append, ← marksOf_append,
    textOf_append]
  simp only [List.append_assoc]

/-- A string behind a name that gets another one, as the key of an object. It should be found again
behind the brace. -/
theorem Intact.exists_entry {r z : Rule} (hr : Leading rules guarded .identifier r)
    (hz : Leading rules guarded .stringLiteral z ∨ Leading rules guarded .objectKey z) {p : List Char}
    (hpr : Touches p r.old.toList) (k : Kind) (u : List Char) (zs : List Piece)
    (hstill : Piece.Still (nameAfter rules guarded) ⟨k, '/' :: u⟩)
    (hzs : ∀ z ∈ zs, Piece.Still (nameAfter rules guarded) z) (hcolon : (textOf zs).head? ≠ some ':')
    (htokens : tokensOf (lead p ++ (r.old.toList ++ entryTail u z.old.toList (textOf zs))) =
      touched p r.old.toList ++ (entryFront k u ++ stringOf z.old.toList :: ⟨.code, [':']⟩ :: zs))
    (h : Intact rules guarded
      (String.ofList (lead p ++ (r.old.toList ++ entryTail u z.old.toList (textOf zs))))) :
    ∃ w, (∀ c ∈ w, needsEscape c = false) ∧ ∀ us t vs,
      tokensOf (lead p ++ (r.new.toList ++ entryTail u w (textOf zs))) = us ++ t :: vs →
        (textOf us).length ≤ (lead p ++ (r.new.toList ++ textOf (entryFront k u))).length →
        (lead p ++ (r.new.toList ++ textOf (entryFront k u))).length <
          (textOf us).length + t.text.length →
        textOf us = lead p ++ (r.new.toList ++ textOf (entryFront k u)) := by
  rw [← List.append_assoc (touched _ _)] at htokens
  obtain ⟨q, hqmem, hold, hp⟩ := exists_rewritten hfit hz
    ((congrArg tokensOf String.toList_ofList).trans htokens) (isKey_entry hcolon)
  rw [← hold] at hp h
  obtain ⟨hplain, hplain'⟩ := Rule.plain_of_fit (hfit q hqmem)
  have hys : ∀ z ∈ ⟨.code, [':']⟩ :: zs, Piece.Still (nameAfter rules guarded) z := by
    rw [List.forall_mem_cons]
    exact ⟨Piece.still_mark (by decide), hzs⟩
  have hstring : redrawn (nameAfter rules guarded)
      (marksOf (touched p r.old.toList ++ entryFront k u)).reverse
      (stringOf q.old.toList :: ⟨.code, [':']⟩ :: zs) =
        stringOf q.new.toList :: ⟨.code, [':']⟩ :: zs := by
    rw [redrawn, redraw_string hplain, hp.nameAfter, redrawn_of_still hys]
  have hout := text_rename_entry hfit hr hpr hstill hp
  refine ⟨q.new.toList, hplain', ?_⟩
  intro us t vs hts hle hlt
  rw [entryTail_eq k, ← hstring, ← List.append_assoc r.new.toList, ← List.append_assoc (lead p),
    ← hout] at hts
  exact (h.token_eq (old_ne_empty hfit) hp hout hts hle hlt).1

theorem not_intact_opened {r z : Rule} (hr : Leading rules guarded .identifier r)
    (hz : Leading rules guarded .stringLiteral z ∨ Leading rules guarded .objectKey z) {p : List Char}
    (hpr : Touches p r.old.toList) (hold : regexKeywords.contains (joined p r.old) = false)
    (hnew : regexKeywords.contains (joined p r.new) = true) : ¬ Intact rules guarded
      (String.ofList (lead p ++ (r.old.toList ++ entryTail [] z.old.toList [']', '/']))) := by
  intro h
  obtain ⟨ho, hn⟩ := hr.isName (hfit r hr.mem)
  have hplain := (Rule.plain_of_fit (hfit z (hz.elim Leading.mem Leading.mem))).1
  have hfirst := tokens_touched (y := entryTail [] z.old.toList [']', '/']) hpr.flags ho
    (isWord_head_blank _)
  rw [tokens_entryTail _ hplain ((operandAfter_start hpr.flags ho).trans hold)] at hfirst
  obtain ⟨w, hw, hcover⟩ := Intact.exists_entry hfit hr hz hpr .code []
    [⟨.code, [']']⟩, ⟨.code, ['/']⟩] (Piece.still_mark isWord_slash)
    (by simp [Piece.still_mark isWord_slash, Piece.still_mark (c := ']') (by decide)])
    (by simp) hfirst h
  -- now a regular expression starts at the slash
  obtain ⟨u, ts, hts⟩ := exists_tokens_entryTail (Reader.start.word (lead p ++ r.new.toList)) hw
    ((operandAfter_start hpr.flags hn).trans hnew)
  have hsecond := tokens_touched (y := entryTail [] w [']', '/']) hpr.flags hn (isWord_head_blank _)
  rw [hts, ← List.append_assoc (touched p r.new.toList)] at hsecond
  have hfront := congrArg List.length (hcover _ _ _ hsecond
    (by simp [textOf_touched, entryFront]) (by simp [textOf_touched, entryFront]; omega))
  simp [textOf_touched, entryFront] at hfront

theorem not_intact_closed {r z : Rule} (hr : Leading rules guarded .identifier r)
    (hz : Leading rules guarded .stringLiteral z ∨ Leading rules guarded .objectKey z) {p : List Char}
    (hpr : Touches p r.old.toList) (hold : regexKeywords.contains (joined p r.old) = true)
    (hnew : regexKeywords.contains (joined p r.new) = false) : ¬ Intact rules guarded
      (String.ofList (lead p ++ (r.old.toList ++ entryTail ['\'', '/'] z.old.toList []))) := by
  intro h
  obtain ⟨ho, hn⟩ := hr.isName (hfit r hr.mem)
  have hplain := (Rule.plain_of_fit (hfit z (hz.elim Leading.mem Leading.mem))).1
  have hfirst := tokens_touched (y := entryTail ['\'', '/'] z.old.toList []) hpr.flags ho
    (isWord_head_blank _)
  rw [tokens_entryTail_operand _ hplain ((operandAfter_start hpr.flags ho).trans hold)] at hfirst
  obtain ⟨w, -, hcover⟩ := Intact.exists_entry hfit hr hz hpr .literal ['\'', '/'] []
    Piece.still_slash (by simp) (by simp) hfirst h
  -- now a string starts behind the slash
  obtain ⟨ts, hts⟩ := exists_tokens_entryTail_quote (w := w)
    (Reader.start.word (lead p ++ r.new.toList)) ((operandAfter_start hpr.flags hn).trans hnew)
  have hsecond := tokens_touched (y := entryTail ['\'', '/'] w []) hpr.flags hn (isWord_head_blank _)
  rw [hts, ← List.append_assoc (touched p r.new.toList)] at hsecond
  have hfront := congrArg List.length (hcover _ _ _ hsecond
    (by simp [textOf_touched, entryFront]) (by simp [textOf_touched, entryFront]; omega))
  simp [textOf_touched, entryFront] at hfront

theorem breaksNothing_of_intact (h : ∀ source, Intact rules guarded source) :
    BreaksNothing rules guarded where
  opens r hr hnew := by
    by_contra hold
    exact not_intact_template hfit hr hold hnew (h _)
  frames r hr := by
    intro k b hold
    obtain ⟨-, hn⟩ := Rule.plain_of_fit (hfit r hr.mem)
    cases hnew : sweep k r.new.toList with
    | none =>
      refine absurd (h _) (not_intact_frameText hfit hr hold (.inl rfl) ?_)
      rw [isSome_regex_append hn, hnew]
    | some b' =>
      refine ⟨b', rfl, ?_⟩
      intro hb
      rw [← Bool.not_eq_false]
      rintro rfl
      refine not_intact_frameText hfit hr hold (.inr ⟨rfl, hb⟩) ?_ (h _)
      rw [isSome_regex_append hn, hnew]
      simp [slashString, regex]
  regex z hz r hr p hpr := by
    rw [← List.contains_iff_mem, ← List.contains_iff_mem]
    cases hold : regexKeywords.contains (joined p r.old) <;>
      cases hnew : regexKeywords.contains (joined p r.new)
    · rfl
    · exact absurd (h _) (not_intact_opened hfit hr hz hpr hold hnew)
    · exact absurd (h _) (not_intact_closed hfit hr hz hpr hold hnew)
    · rfl

end

/-- **Which rules leave every string a string.** For any protected names, the rules of a set leave
all sources intact when they break nothing, and only then. -/
theorem RuleSet.intact_iff {rules : List Rule} {extra : List String} {set : RuleSet}
    (hset : RuleSet.ofRules rules extra = .ok set) (guarded : List String) :
    (∀ source, Intact set.rules guarded source) ↔ BreaksNothing set.rules guarded := by
  obtain ⟨hfit, rfl⟩ := RuleSet.ofRules_eq_ok_iff.1 hset
  constructor
  · intro h
    exact breaksNothing_of_intact hfit h
  · intro h source
    exact intact_of_breaksNothing hfit h source

theorem RuleSet.intact_iff_orders : ∃ set, RuleSet.ofRules
      [⟨"userId", "accountId", .identifier⟩, ⟨"orders", "purchases", .stringLiteral⟩] [] = .ok set ∧
    BreaksNothing set.rules ["userId"] ∧
    ((∀ source, Intact set.rules ["userId"] source) ↔ BreaksNothing set.rules ["userId"]) := by
  have hset : RuleSet.ofRules
      [⟨"userId", "accountId", .identifier⟩, ⟨"orders", "purchases", .stringLiteral⟩] [] =
      .ok { rules := _, extra := [] } := rfl
  exact ⟨_, hset, breaksNothing_of_isPlainName (by decide), RuleSet.intact_iff hset ["userId"]⟩

/-- Rules for a string and for a name, of which the first one writes a substitution. -/
def substitutionRules : RuleSet where
  rules := [⟨"x", "${y}", .stringLiteral⟩, ⟨"y", "z", .identifier⟩]

/-- These rules are fit and free of conflicts, and yet the string falls into three pieces. A second
renaming finds the name of the other rule in the middle one. -/
theorem RuleSet.not_intact_substitution :
    RuleSet.ofRules substitutionRules.rules [] = .ok substitutionRules ∧
    (∀ c ∈ substitutionRules.conflicts, c.blocks = false) ∧
    (rename substitutionRules.rules substitutionRules.guarded "`x`").text = "`${y}`" ∧
    pieces "`${y}`".toList =
      [⟨.literal, ['\x60', '$', '{']⟩, ⟨.code, ['y']⟩, ⟨.literal, ['}', '\x60']⟩] ∧
    (rename substitutionRules.rules substitutionRules.guarded "`${y}`").text = "`${z}`" ∧
    ¬ Intact substitutionRules.rules substitutionRules.guarded "`x`" := by
  refine ⟨rfl, by decide +kernel, by decide +kernel, by decide +kernel, by decide +kernel, ?_⟩
  intro h
  have hall : ∀ p ∈ pieces (rename substitutionRules.rules substitutionRules.guarded "`x`").text.toList,
      p.content? ≠ some (newName substitutionRules.rules 0) := by
    decide +kernel
  have hedit : ⟨1, 2, 0⟩ ∈ editsOf substitutionRules.rules substitutionRules.guarded "`x`" := by
    decide +kernel
  obtain ⟨ps', p', qs', hpieces, -, hcontent, -⟩ := h [] ⟨.literal, ['\x60', 'x', '\x60']⟩ [] ['x']
    (by decide +kernel) (by decide +kernel) ⟨1, 2, 0⟩ hedit (by decide) (by decide)
  apply hall p'
  · rw [hpieces]
    simp
  · exact hcontent

end Renaming
