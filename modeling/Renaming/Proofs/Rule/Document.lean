import Renaming.Proofs.Json.Nesting
import Renaming.Proofs.Json.Text
import Renaming.Rule.Document

/-!
The two shapes of a rules file: a list of rules, and an object with such a list as its rules. Both
mean the same, whatever the list holds (`Document.ofJson_rules`). As texts they are read alike as
long as the object, which has one bracket more, is within the limit of the reader
(`RuleSet.parse_underRules`).
-/

namespace Renaming

namespace Json

variable {m : Nat} {text rest : List Char}

theorem ofNumber_ne_arr {n : Number} {items : List Json} : ofNumber n ≠ .arr items := by
  cases n <;> nofun

theorem scalar_ne_arr {items : List Json} : scalar text ≠ .ok (.arr items, rest) := by
  intro h
  unfold scalar at h
  split at h
  case h_1 => cases h
  case h_5 =>
    obtain ⟨_, -, heq⟩ := map_eq_ok h
    exact ofNumber_ne_arr (Prod.mk.inj heq).1
  case h_7 =>
    split at h
    next =>
      obtain ⟨_, -, heq⟩ := map_eq_ok h
      exact ofNumber_ne_arr (Prod.mk.inj heq).1
    next => cases h
  all_goals
    obtain ⟨_, -, heq⟩ := map_eq_ok h
    cases heq

/-- A list is read as the value of the only key of an object. -/
theorem Reads.underKey {items : List Json} (h : Reads m (.value (.arr items)) text rest)
    (hrest : skip rest = []) (key : String) :
    Reads (m + 1) (.value (.obj [(key, .arr items)]))
      ('\x7b' :: (quoted key ++ ':' :: ' ' :: (text ++ ['\x7d']))) [] := by
  have hlist : Reads m (.value (.arr items)) (' ' :: (text ++ ['\x7d'])) (rest ++ ['\x7d']) := by
    refine (h.append (fun v hv hs => ?_) _).of_skip_eq (skip_cons_of_blank (by decide) _)
    cases hv
    exact absurd hs scalar_ne_arr
  have hclose : skip (rest ++ ['\x7d']) = ['\x7d'] := by
    rw [skip] at hrest
    rw [skip, List.dropWhile_append, hrest]
    rfl
  obtain ⟨body, hquoted, hbody⟩ := stringBody_quoted key (':' :: ' ' :: (text ++ ['\x7d']))
  have hstart : Starts true ('"' :: body) ('"' :: body) := skip_cons_of_not_blank (by decide) body
  have hentries := Reads.entry hstart hbody (skip_cons_of_not_blank (by decide) _) hlist
    (.noEntry hclose)
  rw [hquoted]
  rw [Nat.max_eq_left (Nat.zero_le m), String.ofList_toList] at hentries
  exact .object (skip_cons_of_not_blank (by decide) _) hentries

end Json

/-- Both shapes are one document. -/
theorem Document.ofJson_rules (items : List Json) :
    Document.ofJson (.obj [("rules", .arr items)]) = Document.ofJson (.arr items) := by
  simp only [Document.ofJson, List.foldlM_cons, List.foldlM_nil, Document.set]
  cases Json.asList Entry.ofJson (.arr items) with
  | error reason => rfl
  | ok rules => rfl

namespace RuleSet

/-- The text of an object that has the list of a text as its rules. -/
def underRules (text : String) : String := "\x7b\"rules\": " ++ text ++ "\x7d"

theorem toList_underRules (text : String) : (underRules text).toList =
    '\x7b' :: (Json.quoted "rules" ++ ':' :: ' ' :: (text.toList ++ ['\x7d'])) := by
  simp [underRules, String.toList_append, Json.quoted, Json.escape]

theorem parse_of_read {text origin : String} {v : Json} (h : Json.read text.toList = .ok v) :
    parse text .json origin =
      match Document.ofJson v with
      | .error why => .error (Cause.unreadableRules origin why : Cause)
      | .ok d => d.resolve := by
  rw [parse, Format.read, h]
  rfl

/-- **The two shapes of a rules file agree**: a list, and an object that has it as its rules, come to
the same rule set or to the same failure, however the object is written. It can be written around
the text of the list if that leaves one bracket to the limit of the reader; else the object is
refused for its depth. -/
theorem parse_underRules {text : String} {items : List Json} (origin : String)
    (h : Json.read text.toList = .ok (.arr items)) :
    (∀ object : String, Json.read object.toList = .ok (.obj [("rules", .arr items)]) →
      parse object .json origin = parse text .json origin) ∧
    (Json.nesting 0 text.toList + 1 < Json.maxDepth →
      Json.read (underRules text).toList = .ok (.obj [("rules", .arr items)]) ∧
        parse (underRules text) .json origin = parse text .json origin) ∧
    (Json.maxDepth ≤ Json.nesting 0 text.toList + 1 →
      Json.nesting 0 text.toList + 1 = Json.maxDepth ∧
        ∃ left, parse (underRules text) .json origin = .error (Cause.unreadableRules origin
          (.json (.next .tooDeep left) (underRules text).toList) : Cause)) := by
  obtain ⟨hdepth, rest, hreads, hrest⟩ := Json.read_eq_ok h
  have hunder := hreads.underKey hrest "rules"
  rw [← toList_underRules] at hunder
  have hobject : ∀ object : String, Json.read object.toList = .ok (.obj [("rules", .arr items)]) →
      parse object .json origin = parse text .json origin := by
    intro object hobject
    rw [parse_of_read hobject, parse_of_read h, Document.ofJson_rules]
  refine ⟨hobject, fun hlow => ?_, fun hhigh => ⟨by omega, ?_⟩⟩
  · have hread := Json.read_eq_ok_iff.2 ⟨_, hlow, _, hunder, rfl⟩
    exact ⟨hread, hobject _ hread⟩
  · obtain ⟨left, hread⟩ := Json.read_tooDeep hunder hhigh
    exact ⟨left, by rw [parse, Format.read, hread]; rfl⟩

/-- Whether a text is that of a list. -/
def readsList (text : List Char) : Bool :=
  match Json.read text with
  | .ok (.arr _) => true
  | _ => false

theorem exists_items_of_readsList {text : List Char} (h : readsList text = true) :
    ∃ items, Json.read text = .ok (.arr items) := by
  unfold readsList at h
  split at h
  next items hread => exact ⟨items, hread⟩
  next => cases h

/-- The text of one rule. -/
def userText : String := "[\x7b\"old\": \"userId\", \"new\": \"user_id\"\x7d]"

theorem parse_underRules_userText :
    parse (underRules userText) .json "rules.json" = parse userText .json "rules.json" := by
  have hreads : readsList userText.toList = true := by decide +kernel
  obtain ⟨items, h⟩ := exists_items_of_readsList hreads
  exact ((parse_underRules "rules.json" h).2.1 (by decide +kernel)).2

/-- The text of a list in lists, as deep as the reader allows. -/
def deepText : String := String.ofList (List.replicate 127 '[' ++ List.replicate 127 ']')

/-- What a text is refused for. -/
def refusal? (text origin : String) : Option String :=
  match parse text .json origin with
  | .ok _ => none
  | .error f => (f.cause.details.get? "error").bind Json.str?

/-- At the limit the two shapes are refused for different reasons. -/
theorem not_parse_underRules_deepText :
    (∃ items, Json.read deepText.toList = .ok (.arr items)) ∧
      Json.nesting 0 deepText.toList < Json.maxDepth ∧
      refusal? deepText "rules.json" = some "invalid type: sequence, expected a string" ∧
      refusal? (underRules deepText) "rules.json" =
        some "recursion limit exceeded at line 1 column 137" := by
  have hchars : deepText.toList = List.replicate 127 '[' ++ List.replicate 127 ']' :=
    String.toList_ofList
  rw [refusal?, refusal?, parse, parse, Format.read, Format.read, toList_underRules, hchars]
  exact ⟨exists_items_of_readsList (by decide +kernel), by decide +kernel, by decide +kernel,
    by decide +kernel⟩

end RuleSet

end Renaming
