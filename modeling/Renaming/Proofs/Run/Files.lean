import Renaming.Proofs.Backup.Session
import Renaming.Run

/-!
The files of a run, one after the other. `foretold` is what a dry run says of a file; `Treated`
compares with it what came of the file in a run that writes. Each file is treated while the others
stay as they are (`treat`), so all of them are treated by their content from before the run
(`treatAll`).
-/

namespace Renaming

open Machine
open Backup (Setting Saved Stage)
open Walk (SourceFile)

namespace Fate

/-- Whether a new text was written to the file, or was begun to be written. -/
def wrote : Fate → Bool
  | unwritten .. | renamed .. => true
  | _ => false

/-- Whether a copy or the new text of the file could not be written. -/
def spoiled : Fate → Bool
  | unsaved .. | unwritten .. => true
  | _ => false

end Fate

namespace Run

variable {S : Setting} {s x x' : Machine} {q : Request} {p : Place} {f : SourceFile}
  {bytes : ByteArray} {taken : List Saved} {k : Nat} {b b' : Backup.Session} {fate : Fate}

/-! ### What is foretold -/

/-- What a dry run says of a file, from its content. -/
def foretold (q : Request) (path : String) : Except SystemError ByteArray → Fate
  | .error e => .unread (Files.failure ("read " ++ path) e)
  | .ok bytes =>
    match String.fromUTF8? bytes with
    | none => .noText
    | some source =>
      let o := rename q.rules.rules q.rules.guarded source
      if o.changed then
        .renamed o.skipped
          { path, sha256 := Digest.sha256 bytes, replacements := o.occurrences
            hits := hitsOf q.rules.labels o.hits }
      else .unchanged o.skipped

/-- What came of a file, whose content was `bytes`, and its content afterwards. -/
inductive Treated (q : Request) (s : Machine) (f : SourceFile) (bytes : ByteArray) :
    Fate → ByteArray → Prop
  | asForetold (h : (foretold q f.path (s.read f.path)).record? = none) :
    Treated q s f bytes (foretold q f.path (s.read f.path)) bytes
  | unsaved {skipped : List Skip} {record : FileRecord}
    (h : foretold q f.path (s.read f.path) = .renamed skipped record) (problem : Failure) :
    Treated q s f bytes (.unsaved skipped problem) bytes
  | unwritten {skipped : List Skip} {record : FileRecord}
    (h : foretold q f.path (s.read f.path) = .renamed skipped record) (problem : Failure)
    (left : ByteArray) : Treated q s f bytes (.unwritten skipped problem) left
  | renamed {skipped : List Skip} {record : FileRecord} {source : String}
    (h : foretold q f.path (s.read f.path) = .renamed skipped record) (copy : String)
    (hsource : String.fromUTF8? bytes = some source) :
    Treated q s f bytes (.renamed skipped { record with backup := some copy })
      (rename q.rules.rules q.rules.guarded source).text.toUTF8

/-- A dry run does what is foretold. -/
theorem does_processFile_of_dryRun (hq : q.dryRun = true) :
    x.does (processFile q f b) = ((foretold q f.path (x.read f.path), b), x) := by
  have hread : x.does (Files.readBytes f.path ("read " ++ f.path)) =
      ((x.read f.path).mapError (Files.failure ("read " ++ f.path)), x) := rfl
  rw [processFile, does_bind, hread]
  cases x.read f.path with
  | error e => rfl
  | ok bytes =>
    simp only [mapError_ok, foretold]
    cases String.fromUTF8? bytes with
    | none => rfl
    | some source =>
      dsimp only
      split
      · rw [replaceFile, if_pos hq]
        rfl
      · rfl

/-- What a run that writes does with one file: what is foretold, or a copy is taken and the file is
written, unless one of these goes wrong. -/
inductive Processed (q : Request) (x : Machine) (f : SourceFile) (b : Backup.Session) :
    Fate → Backup.Session → Machine → Prop
  | asForetold (h : (foretold q f.path (x.read f.path)).record? = none) :
    Processed q x f b (foretold q f.path (x.read f.path)) b x
  | unsaved {bytes : ByteArray} {skipped : List Skip} {record : FileRecord} {problem : Failure}
    {b' : Backup.Session} {x' : Machine} (hread : x.read f.path = .ok bytes)
    (h : foretold q f.path (x.read f.path) = .renamed skipped record)
    (hsave : x.does (b.save f bytes) = ((.error problem, b'), x')) :
    Processed q x f b (.unsaved skipped problem) b' x'
  | saved {bytes : ByteArray} {source copy : String} {skipped : List Skip} {record : FileRecord}
    {r : Except SystemError Unit} {fate : Fate} {b' : Backup.Session} {y x' : Machine}
    (hread : x.read f.path = .ok bytes) (hsource : String.fromUTF8? bytes = some source)
    (h : foretold q f.path (x.read f.path) = .renamed skipped record)
    (hsave : x.does (b.save f bytes) = ((.ok copy, b'), y))
    (hwrite : y.write f.path (rename q.rules.rules q.rules.guarded source).text.toUTF8 = (r, x'))
    (hfate : (∃ problem, fate = .unwritten skipped problem) ∨
      r = .ok () ∧ fate = .renamed skipped { record with backup := some copy }) :
    Processed q x f b fate b' x'

theorem processed (hq : q.dryRun = false) (hx : x.does (processFile q f b) = ((fate, b'), x')) :
    Processed q x f b fate b' x' := by
  obtain ⟨r, x₁, hread, hx⟩ := does_bind_eq_iff.1 hx
  simp only [Files.readBytes, bind_pure_comp, does_map, does_read, Prod.mk.injEq] at hread
  obtain ⟨rfl, rfl⟩ := hread
  have hstay := Processed.asForetold (q := q) (x := x) (f := f) (b := b)
  have hunsaved := @Processed.unsaved q x f b
  have hsaved := @Processed.saved q x f b
  cases hr : x.read f.path with
  | error e =>
    rw [hr] at hx hstay
    cases hx
    exact hstay rfl
  | ok bytes =>
  rw [hr] at hx hstay hunsaved hsaved
  simp only [foretold] at hstay hunsaved hsaved
  simp only [mapError_ok] at hx
  cases hsource : String.fromUTF8? bytes with
  | none =>
    simp only [hsource] at hx hstay
    cases hx
    exact hstay rfl
  | some source =>
  simp only [hsource] at hx hstay hunsaved hsaved
  by_cases ho : (rename q.rules.rules q.rules.guarded source).changed = true
  · rw [if_pos ho] at hx hunsaved hsaved
    unfold replaceFile at hx
    simp only [hq, Bool.false_eq_true, if_false] at hx
    obtain ⟨⟨r₁, b₁⟩, y, hsave, hx⟩ := does_bind_eq_iff.1 hx
    cases r₁ with
    | error problem =>
      cases hx
      exact hunsaved rfl rfl hsave
    | ok copy =>
      obtain ⟨r₂, x₂, htext, hx⟩ := does_bind_eq_iff.1 hx
      obtain ⟨r₃, hwrite, rfl⟩ := writeText_eq htext
      cases r₃ with
      | error e =>
        cases hx
        exact hsaved rfl hsource rfl hsave hwrite (.inl ⟨_, rfl⟩)
      | ok =>
        cases hx
        exact hsaved rfl hsource rfl hsave hwrite (.inr ⟨rfl, rfl⟩)
  · rw [if_neg ho] at hx hstay
    cases hx
    exact hstay rfl

/-! ### Treating the files -/

/-- One file is treated by its content from before the run, if it still has that content. Nothing
else that was there at the start changes. -/
theorem treat (h : Stage S x taken k b) (hq : q.dryRun = false) (he : (p, f) ∈ S.places)
    (hnow : x.tree.get? p = S.start.tree.get? p)
    (hx : x.does (processFile q f b) = ((fate, b'), x')) : ∃ taken' k' bytes left,
      Stage S x' taken' k' b' ∧ S.start.find f.path = .ok (p, .file bytes) ∧
      x'.tree.get? p = some (.file left) ∧ Treated q S.start f bytes fate left ∧
      (∀ p' n, S.start.tree.get? p' = some n → p' ≠ p → x'.tree.get? p' = x.tree.get? p') ∧
      (fate.problem? = none → b' = b ∧ k' = k ∨ 0 < k') := by
  obtain ⟨bytes, hfind⟩ := S.found _ he
  have hstart := get?_of_find S.ordered hfind
  rw [hstart] at hnow
  have hread : x.read f.path = S.start.read f.path :=
    read_congr h.scene ((find_file_of_holds h.scene h.holds hfind hnow).trans hfind.symm)
  have hbytes : ∀ b, x.read f.path = .ok b → b = bytes := by
    intro b hb
    rw [hread, read_eq_ok_iff] at hb
    obtain ⟨-, p', hb, -⟩ := hb
    simp_all
  cases processed hq hx with
  | asForetold hrecord =>
    rw [hread] at hrecord ⊢
    exact ⟨taken, k, bytes, bytes, h, hfind, hnow, .asForetold hrecord, fun _ _ _ _ => rfl,
      fun _ => .inl ⟨rfl, rfl⟩⟩
  | unsaved hr hforetold hsave =>
    cases hbytes _ hr
    obtain ⟨taken', k', hstage, hsteady, -⟩ := h.save (e := ⟨f, p, bytes⟩) he hstart hsave
    exact ⟨taken', k', bytes, bytes, hstage, hfind, (hsteady _ _ hstart).trans hnow,
      .unsaved (hread ▸ hforetold) _, fun p' n hp' _ => hsteady p' n hp', nofun⟩
  | @saved _ source copy skipped record r _ _ y _ hr hsource hforetold hsave hwrite hfate =>
    cases hbytes _ hr
    obtain ⟨taken', k', hstage, hsteady, -, hsaved⟩ :=
      h.save (e := ⟨f, p, bytes⟩) he hstart hsave
    obtain ⟨rfl, rfl, -⟩ := hsaved copy rfl
    have hmem : ∀ e : Saved, e ∈ (taken ++ [e]).take (taken ++ [e]).length := by
      simp [List.take_length, -List.length_append]
    obtain ⟨hstage, ⟨left, hleft, hok⟩, hframe⟩ :=
      hstage.overwrite (hmem ⟨f, p, bytes⟩) hwrite
    refine ⟨_, _, bytes, left, hstage, hfind, hleft, ?_, fun p' n hp' hne =>
      (hframe p' hne).trans (hsteady p' n hp'), fun _ => .inr (by simp)⟩
    rw [hread] at hforetold
    obtain ⟨problem, rfl⟩ | ⟨rfl, rfl⟩ := hfate
    · exact .unwritten hforetold problem left
    · exact hok rfl ▸ .renamed hforetold copy hsource

/-- What a whole run says of the files at some places, in a list: it names each file of the list
with what came of it. -/
inductive AllTreated (q : Request) (s x : Machine) :
    List (Place × SourceFile) → List (SourceFile × Fate) → Prop
  | nil : AllTreated q s x [] []
  | cons {p : Place} {f : SourceFile} {bytes left : ByteArray} {fate : Fate}
    {places : List (Place × SourceFile)} {fates : List (SourceFile × Fate)}
    (find : s.find f.path = .ok (p, .file bytes)) (stands : x.tree.get? p = some (.file left))
    (treated : Treated q s f bytes fate left) (rest : AllTreated q s x places fates) :
    AllTreated q s x ((p, f) :: places) ((f, fate) :: fates)

/-- **All files are treated by their content from before the run**, and nothing else that was there
at the start changes. -/
theorem treatAll {places : List (Place × SourceFile)} {fates : List (SourceFile × Fate)}
    (h : Stage S x taken k b) (hq : q.dryRun = false) (hsub : ∀ e ∈ places, e ∈ S.places)
    (hnodup : (places.map Prod.fst).Nodup)
    (hnow : ∀ e ∈ places, x.tree.get? e.1 = S.start.tree.get? e.1)
    (hx : x.does (processAll q (places.map Prod.snd) b) = ((fates, b'), x')) : ∃ taken' k',
      Stage S x' taken' k' b' ∧ AllTreated q S.start x' places fates ∧
      (∀ p n, S.start.tree.get? p = some n → (∀ e ∈ places, e.1 ≠ p) →
        x'.tree.get? p = x.tree.get? p) ∧
      ((∀ e ∈ fates, e.2.problem? = none) → b' = b ∧ k' = k ∨ 0 < k') := by
  induction places generalizing x taken k b fates with
  | nil =>
    cases hx
    exact ⟨taken, k, h, .nil, fun _ _ _ _ => rfl, fun _ => .inl ⟨rfl, rfl⟩⟩
  | cons e places ih =>
    obtain ⟨p, f⟩ := e
    obtain ⟨⟨fate, b₁⟩, y, hfirst, hx⟩ := does_bind_eq_iff.1 hx
    obtain ⟨⟨fates, b₂⟩, z, hrest, hx⟩ := does_bind_eq_iff.1 hx
    cases hx
    obtain ⟨hp, hnodup⟩ := List.nodup_cons.1 hnodup
    obtain ⟨taken₁, k₁, bytes, left, hstage, hfind, hleft, htreated, hframe, hk⟩ :=
      treat h hq (hsub _ List.mem_cons_self) (hnow _ List.mem_cons_self) hfirst
    have hne : ∀ e ∈ places, e.1 ≠ p := fun e he heq => hp (List.mem_map.2 ⟨e, he, heq⟩)
    have hthere : ∀ e ∈ places, ∃ n, S.start.tree.get? e.1 = some n := fun e he =>
      (S.found e (hsub e (List.mem_cons_of_mem _ he))).elim fun _ hb =>
        ⟨_, get?_of_find S.ordered hb⟩
    obtain ⟨taken₂, k₂, hstage, hall, hframes, hk'⟩ := ih hstage
      (fun e he => hsub e (List.mem_cons_of_mem _ he)) hnodup
      (fun e he => by
        obtain ⟨n, hn⟩ := hthere e he
        rw [hframe _ n hn (hne e he), hnow e (List.mem_cons_of_mem _ he)]) hrest
    refine ⟨taken₂, k₂, hstage, .cons hfind ?_ htreated hall, fun p' n hp' hnot => ?_,
      fun hall => ?_⟩
    · exact (hframes p _ (get?_of_find S.ordered hfind) hne).trans hleft
    · rw [hframes p' n hp' fun e he => hnot e (List.mem_cons_of_mem _ he),
        hframe p' n hp' (hnot _ List.mem_cons_self).symm]
    · rcases hk' fun e he => hall e (List.mem_cons_of_mem _ he) with ⟨rfl, rfl⟩ | hpos
      · exact hk (hall _ List.mem_cons_self)
      · exact .inr hpos

namespace AllTreated

variable {places : List (Place × SourceFile)} {fates : List (SourceFile × Fate)}

theorem map_fst (h : AllTreated q s x places fates) :
    fates.map Prod.fst = places.map Prod.snd := by
  induction h with
  | nil => rfl
  | cons _ _ _ _ ih => simp [ih]

theorem of_mem_fates (h : AllTreated q s x places fates) (hf : (f, fate) ∈ fates) :
    ∃ p bytes left, (p, f) ∈ places ∧ s.find f.path = .ok (p, .file bytes) ∧
      x.tree.get? p = some (.file left) ∧ Treated q s f bytes fate left := by
  induction h with
  | nil => cases hf
  | cons hfind hstands htreated _ ih =>
    rcases List.mem_cons.1 hf with heq | hf
    · cases heq
      exact ⟨_, _, _, List.mem_cons_self, hfind, hstands, htreated⟩
    · obtain ⟨p, bytes, left, hmem, h⟩ := ih hf
      exact ⟨p, bytes, left, List.mem_cons_of_mem _ hmem, h⟩

theorem exists_fate (h : AllTreated q s x places fates) (hf : (p, f) ∈ places) :
    ∃ fate, (f, fate) ∈ fates := by
  have hmem : f ∈ fates.map Prod.fst := by
    rw [h.map_fst]
    exact List.mem_map_of_mem hf
  obtain ⟨e, he, rfl⟩ := List.mem_map.1 hmem
  exact ⟨e.2, he⟩

end AllTreated

end Run

end Renaming
