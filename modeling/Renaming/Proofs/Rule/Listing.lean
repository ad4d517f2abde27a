import Renaming.CommandLine.Answer
import Renaming.Proofs.Json.Render
import Renaming.Proofs.Rule.Conflict
import Renaming.Proofs.Rule.Document

/-!
What a check of a rules file prints can be loaded again. It prints the rules as a list of objects
with their fields sorted by key (`infix_output_checkJson`), and a rules file that holds the text of
such a list gives the same rules in the same order (`RuleSet.parse_listing`), whatever characters
stand in their names.
-/

namespace Renaming

/-! ### Rules as values -/

/-- A rule as a rules file writes it, with its new name. -/
def Rule.entry (r : Rule) : Entry := { old := some r.old, new := some r.new, scope := r.scope }

/-- The fields of a rule in the order of their keys. -/
theorem Rule.sorted_toJson (r : Rule) : r.toJson.sorted =
    .obj [("new", .str r.new), ("old", .str r.old), ("scope", .str r.scope.name)] := by
  simp only [Rule.toJson, Json.sorted, Json.sortedValues, Json.sortedEntries, Json.put,
    List.foldl_cons, List.foldl_nil, String.reduceEq, String.reduceLT, ↓reduceIte]

theorem Entry.ofJson_toJson (r : Rule) : Entry.ofJson r.toJson.sorted = .ok r.entry := by
  rw [Rule.sorted_toJson]
  obtain ⟨old, new, scope⟩ := r
  cases scope <;> rfl

theorem Entry.resolve_entry (i : Nat) (r : Rule) : r.entry.resolve i = .ok r := rfl

/-- The list of some rules. -/
def Rule.listJson (rules : List Rule) : Json := .arr (rules.map Rule.toJson)

theorem mapM_map_eq_ok {α β γ ε : Type} {f : β → Except ε γ} {g : α → β} {h : α → γ}
    (heq : ∀ a, f (g a) = .ok (h a)) (as : List α) : (as.map g).mapM f = .ok (as.map h) := by
  rw [List.mapM_map, show f ∘ g = fun a => pure (h a) from funext heq, List.mapM_pure]
  rfl

/-- A document that is the list of some rules has these rules. -/
theorem Document.ofJson_listJson (rules : List Rule) :
    Document.ofJson (Rule.listJson rules).sorted =
      .ok { rules := some (rules.map Rule.entry) } := by
  have hlist : Json.asList Entry.ofJson (.arr (rules.map fun r => r.toJson.sorted)) =
      .ok (rules.map Rule.entry) := mapM_map_eq_ok Entry.ofJson_toJson rules
  rw [Rule.listJson, Json.sorted, Json.sortedItems_map, Document.ofJson, hlist]
  rfl

theorem Document.resolve_entries {rules : List Rule} (h : ∀ r ∈ rules, r.unfit? = none) :
    Document.resolve { rules := some (rules.map Rule.entry) } = .ok { rules } := by
  have hrules : (rules.map Rule.entry).zipIdx.mapM (fun e => Entry.resolve e.2 e.1) =
      .ok rules := by
    rw [List.zipIdx_map]
    refine (mapM_map_eq_ok (g := Prod.map Rule.entry id) (h := Prod.fst)
      (fun e => Entry.resolve_entry e.2 e.1) _).trans ?_
    rw [List.zipIdx_map_fst]
  have hset : RuleSet.ofRules rules [] = .ok { rules } := RuleSet.ofRules_eq_ok_iff.2 ⟨h, rfl⟩
  rw [Document.resolve, Option.getD_some]
  refine (congrArg (Except.bind · _) hrules).trans ?_
  change (RuleSet.ofRules rules []).bind _ = _
  rw [hset]
  rfl

/-! ### Rules as a text -/

namespace Rule

/-- The text of a list in which every rule stands with its fields in some order is read as the list
of the rules. -/
theorem read_list {f : Rule → Json} (hexact : ∀ r, (f r).isExact = true)
    (hflat : ∀ r, (f r).depth ≤ 1) (hsorted : ∀ r, (f r).sorted = r.toJson.sorted)
    (rules : List Rule) (level : Nat) :
    Json.read ((Json.arr (rules.map f)).render level) = .ok (listJson rules).sorted := by
  have hdepth : (Json.arr (rules.map f)).depth < Json.maxDepth :=
    Nat.lt_of_le_of_lt (Nat.succ_le_succ (Json.depthItems_map_le hflat rules)) (by decide)
  have hread := Json.read_render (.arr (rules.map f)) (Json.isExactItems_map hexact rules) hdepth
    level (show ∀ c ∈ [], Json.isBlank c = true from nofun)
  rw [List.append_nil] at hread
  rw [hread]
  simp only [listJson, Json.sorted, Json.sortedItems_map, hsorted]

theorem read_listJson (rules : List Rule) (level : Nat) :
    Json.read ((listJson rules).render level) = .ok (listJson rules).sorted :=
  read_list (f := toJson) (fun _ => rfl) (fun _ => Nat.le_refl 1) (fun _ => rfl) rules level

theorem read_sorted_listJson (rules : List Rule) (level : Nat) :
    Json.read ((listJson rules).sorted.render level) = .ok (listJson rules).sorted := by
  have hlist : (listJson rules).sorted = .arr (rules.map fun r => r.toJson.sorted) := by
    rw [listJson, Json.sorted, Json.sortedItems_map]
  rw [hlist, read_list, hlist]
  · exact fun r => sorted_toJson r ▸ rfl
  · exact fun r => sorted_toJson r ▸ Nat.le_refl 1
  · intro r
    rw [sorted_toJson]
    simp only [Json.sorted, Json.sortedValues, Json.sortedEntries, Json.put, List.foldl_cons,
      List.foldl_nil, String.reduceEq, String.reduceLT, ↓reduceIte]

/-- The text of a list of rules, each with its fields sorted by key, as it stands at a level of a
larger text. -/
def listing (level : Nat) (rules : List Rule) : String :=
  String.ofList ((listJson rules).sorted.render level)

end Rule

namespace RuleSet

/-- The rules of a rule set are a part of what a check prints. -/
theorem infix_output_checkJson (s : RuleSet) (path : String) (exitCode : Nat) :
    (Rule.listing 2 s.rules).toList <:+:
      (CommandLine.Answer.success (CommandLine.checkJson path s) exitCode).output.toList := by
  have hrules : ∃ entries, (CommandLine.checkJson path s).sorted = .obj entries ∧
      ("rules", (Rule.listJson s.rules).sorted) ∈ entries := by
    refine ⟨_, rfl, ?_⟩
    simp only [Json.sortedValues, Json.sortedEntries, Json.put, Rule.listJson, List.foldl_cons,
      List.foldl_nil, String.reduceEq, String.reduceLT, ↓reduceIte, List.mem_cons, true_or, or_true]
  obtain ⟨entries, hdata, hmem⟩ := hrules
  have hdata' : ("data", Json.obj entries) ∈ [("success", .bool true), ("data", .obj entries)] :=
    List.mem_cons_of_mem _ List.mem_cons_self
  have hin := (Json.infix_render hmem 1).trans (Json.infix_render hdata' 0)
  rw [Rule.listing, String.toList_ofList, CommandLine.Answer.success, hdata, String.toList_append,
    Json.pretty, String.toList_ofList]
  exact hin.trans (List.prefix_append _ _).isInfix

/-- **What a check prints can be loaded again.** The text of the rules of a rule set, at whatever
level it is printed, is read as the same rules in the same order; and it stands in what a check
prints. -/
theorem parse_listing {rules : List Rule} {extra : List String} {s : RuleSet}
    (h : ofRules rules extra = .ok s) (origin : String) :
    (∀ level, parse (Rule.listing level s.rules) .json origin = .ok { rules := s.rules }) ∧
    (∀ level, parse (String.ofList ((Rule.listJson s.rules).render level)) .json origin =
      .ok { rules := s.rules }) ∧
    ∀ path exitCode, (Rule.listing 2 s.rules).toList <:+:
      (CommandLine.Answer.success (CommandLine.checkJson path s) exitCode).output.toList := by
  obtain ⟨hfit, rfl⟩ := ofRules_eq_ok_iff.1 h
  have hparse : ∀ text : String, Json.read text.toList = .ok (Rule.listJson rules).sorted →
      parse text .json origin = .ok { rules } := by
    intro text hread
    rw [parse_of_read hread, Document.ofJson_listJson]
    exact Document.resolve_entries hfit
  refine ⟨fun level => hparse _ ?_, fun level => hparse _ ?_, infix_output_checkJson _⟩
  · rw [Rule.listing, String.toList_ofList]
    exact Rule.read_sorted_listJson rules level
  · rw [String.toList_ofList]
    exact Rule.read_listJson rules level

/-- Rules with control characters and letters of other scripts in their names. -/
def oddRules : List Rule :=
  [⟨"\x00\x1f", "\u2028\u00e9\x7f", .stringLiteral⟩, ⟨"userId", "user_id", .objectKey⟩]

theorem parse_listing_oddRules :
    ofRules oddRules ["tag"] = .ok { rules := oddRules, extra := ["tag"] } ∧
    parse (Rule.listing 2 oddRules) .json "rules.json" = .ok { rules := oddRules } ∧
    parse (String.ofList ((Rule.listJson oddRules).render 0)) .json "rules.json" =
      .ok { rules := oddRules } ∧
    (Rule.listing 2 oddRules).toList <:+: (CommandLine.Answer.success (CommandLine.checkJson
      "rules.json" { rules := oddRules, extra := ["tag"] }) 0).output.toList := by
  have h : ofRules oddRules ["tag"] = .ok { rules := oddRules, extra := ["tag"] } :=
    ofRules_eq_ok_iff.2 ⟨by decide +kernel, rfl⟩
  obtain ⟨hsorted, hplain, hinfix⟩ := parse_listing h "rules.json"
  exact ⟨h, hsorted 2, hplain 0, hinfix "rules.json" 0⟩

end RuleSet

end Renaming
