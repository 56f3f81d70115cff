import CaseTable.Extraction.Extract
import CaseTable.Proofs.Extraction.Entries
import CaseTable.Proofs.Shell.CaseStarts
import CaseTable.Proofs.Table

/-!
# What the names policy makes of the listed names

The table has the listed names in their order, each once, and every name has
the arguments of the first arm that carries it, in the order of the heads of
the whole script. A name without such an arm, or whose arm prints nothing,
keeps its place with empty arguments (`extract_names`).

Both searches are folds. The list is folded into a table by insertions, of
which the first wins: its names are settled by `names_takeWords`, and what a
name gets by `get?_takeWords`, which does not depend on where it is listed.
The arms are those of the statements in the order of their heads, and nothing
about them needs to be known here (`allArms_eq`).
-/

namespace CaseTable

theorem Table.names_insert (t : Table) (name args : Text) :
    (t.insert name args).1.names = if name ∈ t.names then t.names else t.names ++ [name] := by
  split
  · next hheld =>
      rw [insert, dif_pos ((t.contains_iff_mem name).mpr hheld)]
  · next hnew => rw [insert_of_notMem hnew, names_append]

namespace Extraction

open Shell

/-- The words of a list, lone backslashes left out. -/
def listed (list : Text) : List Text := list.words.filter fun word => word ≠ ['\\']

/-- The arms of the statements that start at the given heads. A statement
without its `esac` has none. -/
def armsOf (heads : List (Place × Place)) : List Arm :=
  heads.flatMap fun head => ((readArms? head.2).map Prod.fst).getD []

theorem allArms_eq {source : Text} {heads : List (Place × Place)}
    (h : heads.map Prod.snd = (Place.start source).caseStarts) :
    (allArms source).1 = armsOf heads := by
  rw [allArms, armsOf, ← h]
  simp only [List.flatMap_map]

/-! ## One word -/

/-- The warnings about a word, wherever it is listed. -/
def wordWarnings (script : ScriptNames) (arms : List Arm) (word : Text) :
    List ExtractionWarning :=
  if isStrategyName word then (lookUp script.placeholder arms word).2
  else [.notAName word script.listFunction]

theorem takeWord_fst (script : ScriptNames) (arms : List Arm)
    (state : Table × List ExtractionWarning) (word : Text) :
    (takeWord script arms state word).1 =
      if isStrategyName word then
        (state.1.insert word (lookUp script.placeholder arms word).1).1
      else state.1 := by
  rw [takeWord]
  split
  · rfl
  · rfl

theorem takeWord_snd (script : ScriptNames) (arms : List Arm)
    (state : Table × List ExtractionWarning) (word : Text) :
    ∃ repeated, (takeWord script arms state word).2 =
      state.2 ++ wordWarnings script arms word ++ repeated := by
  rw [takeWord, wordWarnings]
  split
  · exact ⟨_, rfl⟩
  · exact ⟨[], (List.append_nil _).symm⟩

/-! ## The list -/

section

variable {script : ScriptNames} {arms : List Arm}

/-- What is left of new names once one of them has its place. -/
theorem eraseDups_cons_new (names words : List Text) (word : Text) (hnew : word ∉ names) :
    names ++ ((word :: words).filter (· ∉ names)).eraseDups =
      names ++ [word] ++ (words.filter (· ∉ names ++ [word])).eraseDups := by
  have hlater : (words.filter (· ∉ names)).filter (fun other => !other == word) =
      words.filter (· ∉ names ++ [word]) := by
    rw [List.filter_filter]
    refine List.filter_congr fun other _ => ?_
    rw [Bool.eq_iff_iff]
    simp [and_comm]
  rw [List.filter_cons_of_pos (by simpa using hnew), List.eraseDups_cons, hlater,
    List.append_assoc, List.singleton_append]

/-- The names of a table, with every listed name that it does not have yet at
the first place where it is listed. -/
theorem names_takeWords (words : List Text) : ∀ state : Table × List ExtractionWarning,
    (words.foldl (takeWord script arms) state).1.names =
      state.1.names ++
        ((words.filter isStrategyName).filter (· ∉ state.1.names)).eraseDups := by
  induction words with
  | nil => exact fun state => (List.append_nil _).symm
  | cons word words ih =>
      intro state
      rw [List.foldl_cons, ih, takeWord_fst]
      by_cases hname : isStrategyName word = true
      · rw [if_pos hname, List.filter_cons_of_pos hname, Table.names_insert]
        by_cases hheld : word ∈ state.1.names
        · rw [if_pos hheld, List.filter_cons_of_neg (by simpa using hheld)]
        · rw [if_neg hheld, eraseDups_cons_new _ _ _ hheld]
      · rw [if_neg hname, List.filter_cons_of_neg hname]

/-- A name gets what it is looked up to, unless the table has it already. -/
theorem get?_takeWords (words : List Text) (name : Text) :
    ∀ state : Table × List ExtractionWarning,
      (words.foldl (takeWord script arms) state).1.get? name =
        (state.1.get? name).or
          (if name ∈ words.filter isStrategyName then
            some (lookUp script.placeholder arms name).1 else none) := by
  induction words with
  | nil => exact fun state => by simp
  | cons word words ih =>
      intro state
      rw [List.foldl_cons, ih, takeWord_fst]
      by_cases hname : isStrategyName word = true
      · rw [if_pos hname, List.filter_cons_of_pos hname, Table.get?_insert, Option.or_assoc]
        by_cases hsame : word = name
        · simp [hsame]
        · simp [hsame, Ne.symm hsame]
      · rw [if_neg hname, List.filter_cons_of_neg hname]

theorem subset_takeWords (words : List Text) : ∀ state : Table × List ExtractionWarning,
    state.2 ⊆ (words.foldl (takeWord script arms) state).2 := by
  induction words with
  | nil => exact fun state => List.Subset.refl _
  | cons word words ih =>
      intro state
      obtain ⟨repeated, hwarnings⟩ := takeWord_snd script arms state word
      refine List.Subset.trans ?_ (ih _)
      rw [hwarnings, List.append_assoc]
      exact List.subset_append_left _ _

/-- The warnings about a listed word are given. -/
theorem wordWarnings_subset {words : List Text} {word : Text} (hword : word ∈ words) :
    ∀ state : Table × List ExtractionWarning,
      wordWarnings script arms word ⊆ (words.foldl (takeWord script arms) state).2 := by
  induction words with
  | nil => cases hword
  | cons first words ih =>
      intro state
      rw [List.foldl_cons]
      rcases List.mem_cons.mp hword with rfl | hword
      · obtain ⟨repeated, hwarnings⟩ := takeWord_snd script arms state word
        refine List.Subset.trans ?_ (subset_takeWords words _)
        rw [hwarnings]
        exact List.Subset.trans (List.subset_append_right _ _) (List.subset_append_left _ _)
      · exact ih hword _

end

/-- The two searches of a names extraction, and the fold that brings them
together. -/
theorem exists_takeWords_of_byNames {script : ScriptNames} {source : Text} {x : Extraction}
    (h : byNames script source = .ok x) :
    ∃ body list, functionBody? script.listFunction source = some body ∧
      echoed? body.text = some list ∧
      (x.table, x.warnings) = (listed list).foldl (takeWord script (allArms source).1)
        (∅, (allArms source).2) := by
  rw [byNames] at h
  split at h
  · cases h
  · next words hwords =>
      rw [listedWords] at hwords
      split at hwords
      · cases hwords
      · next body hbody =>
          split at hwords
          · cases hwords
          · next list hlist =>
              cases hwords
              cases h
              exact ⟨body, list, hbody, hlist, rfl⟩

end Extraction

open Extraction Shell

/-- A names extraction holds exactly the listed names, each once and in listed
order. A name has the arguments of the first arm that carries it, taking the
heads of the whole script in order, which is one list, and the arms of each
statement in order.
Without such an arm, or without an `echo` in it, it has empty arguments and
there is a warning. A listed word that is no name gives a warning only. -/
theorem extract_names {script : ScriptNames} {source : Text} {x : Extraction}
    (h : extract .names script source = .ok x) :
    ∃ body list heads, functionBody? script.listFunction source = some body ∧
      echoed? body.text = some list ∧
      ((Place.start source).CaseHeads heads ∧
        ∀ others, (Place.start source).CaseHeads others → others = heads) ∧
      x.table.names = ((listed list).filter isStrategyName).eraseDups ∧
      (∀ name ∈ x.table.names,
        match (armsOf heads).find? fun arm => arm.labels.contains name with
        | none => x.table.get? name = some [] ∧ .noArm name ∈ x.warnings
        | some arm =>
            match echoed? arm.body with
            | none => x.table.get? name = some [] ∧ .noEcho name ∈ x.warnings
            | some raw => x.table.get? name = some (Arguments.clean script.placeholder raw)) ∧
      ∀ word ∈ listed list, isStrategyName word = false →
        word ∉ x.table.names ∧ .notAName word script.listFunction ∈ x.warnings := by
  obtain ⟨body, list, hbody, hlist, hfold⟩ := exists_takeWords_of_byNames h
  obtain ⟨heads, hheads, hstarts⟩ := (Place.start source).exists_caseHeads
  rw [allArms_eq hstarts] at hfold
  obtain ⟨htable, hwarned⟩ := Prod.mk.inj hfold
  have hnames : x.table.names = ((listed list).filter isStrategyName).eraseDups := by
    have hall : ((listed list).filter isStrategyName).filter (· ∉ (∅ : Table).names) =
        (listed list).filter isStrategyName :=
      List.filter_eq_self.mpr fun _ _ => decide_eq_true List.not_mem_nil
    rw [htable, names_takeWords, hall]
    rfl
  have hmem {name : Text} : name ∈ x.table.names ↔
      name ∈ (listed list).filter isStrategyName := by
    rw [hnames, List.mem_eraseDups]
  have hwarnings {word : Text} (hword : word ∈ listed list) :
      wordWarnings script (armsOf heads) word ⊆ x.warnings := by
    rw [hwarned]
    exact wordWarnings_subset hword _
  refine ⟨body, list, heads, hbody, hlist, ⟨hheads, fun others hother => hother.unique hheads⟩,
    hnames, fun name hname => ?_, fun word hword hnot => ⟨?_, ?_⟩⟩
  · obtain ⟨hlisted, hisName⟩ := List.mem_filter.mp (hmem.mp hname)
    have hget : x.table.get? name =
        some (lookUp script.placeholder (armsOf heads) name).1 := by
      rw [htable, get?_takeWords, Table.get?_empty, Option.none_or, if_pos (hmem.mp hname)]
    have hwarning := hwarnings hlisted
    rw [wordWarnings, if_pos hisName] at hwarning
    unfold lookUp at hget hwarning
    cases hfind : (armsOf heads).find? fun arm => arm.labels.contains name with
    | none =>
        rw [hfind] at hget hwarning
        exact ⟨hget, hwarning (List.mem_singleton.mpr rfl)⟩
    | some arm =>
        rw [hfind] at hget hwarning
        simp only [argsOf?] at hget hwarning ⊢
        cases hecho : echoed? arm.body with
        | none =>
            rw [hecho] at hget hwarning
            exact ⟨hget, hwarning (List.mem_singleton.mpr rfl)⟩
        | some raw =>
            rw [hecho] at hget
            exact hget
  · rw [hmem, List.mem_filter, hnot]
    exact fun hheld => Bool.noConfusion hheld.2
  · have hwarning := hwarnings hword
    rw [wordWarnings, if_neg (by simp [hnot])] at hwarning
    exact hwarning (List.mem_singleton.mpr rfl)

/-- A nested statement comes before a later one, and the last one has no `esac`. -/
theorem extract_names_nested :
    let source := ("list_tcp_strategies() \x7b\n echo \"b a \\\n b no/name c d\"\n\x7d\n" ++
      "case $1 in\n  a) echo \"--a\"; case $2 in b) echo \"--in\" ;; esac ;;\n  c) ;;\nesac\n" ++
      "case $1 in\n  b) echo \"--late\" ;;\nesac\ncase $1 in\n  d) echo \"--d\" ;;\n").toList
    ∃ x, extract .names .stock source = .ok x ∧
      x.table.entries = [⟨"b".toList, "--in".toList⟩, ⟨"a".toList, "--a".toList⟩,
        ⟨"c".toList, []⟩, ⟨"d".toList, []⟩] ∧
      ∃ heads, (Place.start source).CaseHeads heads ∧
        x.table.names = ((listed "b a \\\n b no/name c d".toList).filter
          isStrategyName).eraseDups ∧
        .notAName "no/name".toList ScriptNames.stock.listFunction ∈ x.warnings := by
  intro source
  have hentries : (extract .names .stock source).toOption.map (fun x => x.table.entries) =
      some [⟨"b".toList, "--in".toList⟩, ⟨"a".toList, "--a".toList⟩,
        ⟨"c".toList, []⟩, ⟨"d".toList, []⟩] := by
    decide +kernel
  have hecho : (functionBody? ScriptNames.stock.listFunction source).bind
      (fun body => echoed? body.text) = some "b a \\\n b no/name c d".toList := by
    decide +kernel
  cases hx : extract .names .stock source with
  | error cause =>
      rw [hx] at hentries
      cases hentries
  | ok x =>
      rw [hx] at hentries
      obtain ⟨body, list, heads, hbody, hlist, ⟨hheads, -⟩, hnames, -, hnot⟩ := extract_names hx
      rw [hbody] at hecho
      cases hlist.symm.trans hecho
      refine ⟨x, rfl, Option.some.inj hentries, heads, hheads, hnames, (hnot _ ?_ ?_).2⟩
      · decide +kernel
      · decide

end CaseTable
