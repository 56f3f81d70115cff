import CaseTable.Extraction.Extract
import CaseTable.Proofs.Table

/-!
# Which arm a name gets its arguments from

A shell runs the first arm that carries a label, and what that arm prints is
what the label stands for, even if it prints nothing. `dispatch?` says this
rule. Direct extraction keeps to another one: an arm that prints nothing is
passed over before its labels are looked at, so it does not stand in the way
of a later arm with the same label. What a name gets is what the shell would
dispatch it to if those arms were not there (`get?_direct`).

The two rules differ in one case only: the first arm of a name prints
nothing and a later arm of the same name prints something.
-/

namespace CaseTable.Extraction

open CaseTable.Shell

/-- The arguments that an arm gives to its labels: what it prints, unless
that is nothing. -/
def given? (placeholder : Text) (arm : Arm) : Option Text :=
  (argsOf? placeholder arm.body).filter (· ≠ [])

/-- What a label stands for in a shell: the first arm that carries it decides. -/
def dispatch? (placeholder : Text) (arms : List Arm) (label : Text) : Option Text :=
  (arms.find? fun arm => arm.labels.contains label).bind (given? placeholder)

/-- An arm offers what it gives, under each of its names. -/
theorem offers_eq (placeholder : Text) (arm : Arm) :
    offers placeholder arm = match given? placeholder arm with
      | none => []
      | some args => (arm.labels.filter isStrategyName).map fun label => ⟨label, args⟩ := by
  rw [offers, given?]
  split
  · next hargs => rw [hargs]; rfl
  · next hargs => rw [hargs]; rfl
  · next args hne hargs =>
      have hsome : (some args).filter (fun args => decide (args ≠ [])) = some args :=
        Option.filter_some_pos (by simpa using hne)
      rw [hargs, hsome]

theorem find?_map_label (labels : List Text) (args name : Text) :
    (labels.map fun label => (⟨label, args⟩ : Entry)).find? (fun e => e.name = name) =
      if labels.contains name then some ⟨name, args⟩ else none := by
  induction labels with
  | nil => rfl
  | cons label labels ih =>
      rw [List.map_cons, List.find?_cons, ih]
      by_cases hname : label = name
      · simp [hname]
      · simp [hname, Ne.symm hname]

/-- The first offer of a name in an arm. -/
theorem find?_offers (placeholder : Text) (arm : Arm) {name : Text}
    (hname : isStrategyName name = true) :
    ((offers placeholder arm).find? fun e => e.name = name).map Entry.args =
      if arm.labels.contains name then given? placeholder arm else none := by
  rw [offers_eq]
  cases given? placeholder arm with
  | none => simp
  | some args =>
      simp only []
      rw [find?_map_label]
      by_cases hlabel : name ∈ arm.labels
      · simp [hlabel, hname]
      · simp [hlabel]

theorem get?_takeOffers (offered : List Entry) (name : Text) :
    ∀ state : Table × List ExtractionWarning,
      (offered.foldl takeOffer state).1.get? name =
        (state.1.get? name).or
          ((offered.find? fun e => e.name = name).map Entry.args) := by
  induction offered with
  | nil => exact fun state => (Option.or_none).symm
  | cons e offered ih =>
      intro state
      have hstep : (takeOffer state e).1 = (state.1.insert e.name e.args).1 := rfl
      rw [List.foldl_cons, ih, hstep, Table.get?_insert, Option.or_assoc,
        List.find?_cons]
      by_cases hname : e.name = name
      · simp [hname]
      · simp [hname]

theorem dispatch?_cons (placeholder : Text) (arm : Arm) (arms : List Arm)
    (label : Text) :
    dispatch? placeholder (arm :: arms) label =
      if arm.labels.contains label then given? placeholder arm
      else dispatch? placeholder arms label := by
  rw [dispatch?, List.find?_cons]
  cases arm.labels.contains label with
  | true => rfl
  | false => rfl

/-- The arms that give something. -/
def giving (placeholder : Text) (arms : List Arm) : List Arm :=
  arms.filter fun arm => (given? placeholder arm).isSome

/-- Arms that give nothing are as good as absent. -/
theorem dispatch?_giving (placeholder : Text) (arms : List Arm) (name : Text) :
    dispatch? placeholder (giving placeholder arms) name =
      arms.findSome? fun arm =>
        if arm.labels.contains name then given? placeholder arm else none := by
  induction arms with
  | nil => rfl
  | cons arm arms ih =>
      rw [List.findSome?_cons, ← ih, giving, List.filter_cons]
      cases hgiven : given? placeholder arm with
      | none =>
          rw [if_neg (by simp), ite_self]
          rfl
      | some args =>
          rw [if_pos (by simp), dispatch?_cons, hgiven]
          cases arm.labels.contains name with
          | true => rfl
          | false => rfl

theorem get?_ofArms (placeholder : Text) (arms : List Arm) {name : Text}
    (hname : isStrategyName name = true) :
    (ofArms placeholder arms).table.get? name =
      dispatch? placeholder (giving placeholder arms) name := by
  have hfold := get?_takeOffers (arms.flatMap (offers placeholder)) name (∅, [])
  rw [Table.get?_empty, Option.none_or, List.find?_flatMap, List.map_findSome?] at hfold
  rw [dispatch?_giving]
  refine hfold.trans (congrArg (List.findSome? · arms) ?_)
  funext arm
  exact find?_offers placeholder arm hname

/-- The shell's rule is kept exactly if the first arm of the name gives it
something, or no arm does. -/
theorem dispatch?_giving_eq_iff (placeholder : Text) (arms : List Arm) (name : Text) :
    dispatch? placeholder (giving placeholder arms) name =
        dispatch? placeholder arms name ↔
      (dispatch? placeholder arms name).isSome = true ∨
        ∀ arm ∈ arms, arm.labels.contains name = true →
          given? placeholder arm = none := by
  rw [dispatch?_giving]
  induction arms with
  | nil => simp [dispatch?]
  | cons arm arms ih =>
      rw [dispatch?_cons, List.findSome?_cons]
      cases hlabel : arm.labels.contains name with
      | false =>
          simp only [Bool.false_eq_true, if_false, List.forall_mem_cons, hlabel,
            false_implies, true_and]
          exact ih
      | true =>
          simp only [if_true, List.forall_mem_cons, hlabel, true_implies]
          cases hgiven : given? placeholder arm with
          | none => simp [List.findSome?_eq_none_iff]
          | some args => simp

end CaseTable.Extraction

namespace CaseTable

open Extraction Shell

/-- In a direct extraction a name gets what the first arm gives that carries
it and gives anything at all. That is what the shell would dispatch it to,
unless the first arm of the name gives nothing and a later one something. -/
theorem get?_extract_direct {script : ScriptNames} {source : Text} {x : Extraction}
    (h : extract .direct script source = .ok x) :
    ∃ start arms stop, tableStart script.tableFunction source = .ok start ∧
      readArms? start = some (arms, stop) ∧
      ∀ name, isStrategyName name = true →
        x.table.get? name =
            dispatch? script.placeholder (giving script.placeholder arms) name ∧
          (x.table.get? name = dispatch? script.placeholder arms name ↔
            (dispatch? script.placeholder arms name).isSome = true ∨
              ∀ arm ∈ arms, arm.labels.contains name = true →
                given? script.placeholder arm = none) := by
  rw [extract, direct] at h
  split at h
  · cases h
  · next start hstart =>
      split at h
      · cases h
      · next arms stop hread =>
          cases h
          refine ⟨start, arms, stop, hstart, hread, fun name hname => ?_⟩
          rw [get?_ofArms script.placeholder arms hname]
          exact ⟨rfl, dispatch?_giving_eq_iff script.placeholder arms name⟩

/-- The name of both arms stands for what the second one prints. -/
theorem get?_extract_direct_silent_arm :
    let source := ("get_tcp_strategy_options() \x7b\n case $1 in\n" ++
      "  fast|a) echo \"$filter\" ;;\n  a) echo --late ;;\n esac\n\x7d\n").toList
    ∃ x, extract .direct .stock source = .ok x ∧
      ∃ start arms stop,
        tableStart ScriptNames.stock.tableFunction source = .ok start ∧
        readArms? start = some (arms, stop) ∧
        x.table.get? "a".toList = some "--late".toList ∧
        dispatch? "filter".toList (giving "filter".toList arms) "a".toList =
          some "--late".toList ∧
        dispatch? "filter".toList arms "a".toList = none := by
  intro source
  have hgot : (extract .direct .stock source).toOption.map
      (fun x => x.table.get? "a".toList) = some (some "--late".toList) := by
    decide +kernel
  have hfirst : ((tableStart ScriptNames.stock.tableFunction source).toOption.bind
      readArms?).map (fun read => dispatch? "filter".toList read.1 "a".toList) =
        some none := by
    decide +kernel
  cases hx : extract .direct .stock source with
  | error cause =>
      rw [hx] at hgot
      cases hgot
  | ok x =>
      rw [hx] at hgot
      have hgot : x.table.get? "a".toList = some "--late".toList :=
        Option.some.inj hgot
      obtain ⟨start, arms, stop, hstart, hread, hrule⟩ := get?_extract_direct hx
      rw [hstart] at hfirst
      have hfirst : (readArms? start).map
          (fun read => dispatch? "filter".toList read.1 "a".toList) = some none := hfirst
      rw [hread] at hfirst
      have hgiven := (hrule "a".toList (by decide)).1
      exact ⟨x, rfl, start, arms, stop, hstart, hread, hgot, hgiven.symm.trans hgot,
        Option.some.inj hfirst⟩

/-- The first arm of a name does not always decide: an arm without an `echo`
leaves its label to a later arm. -/
theorem not_dispatch?_first_arm :
    ¬ ∀ (script : ScriptNames) (source : Text) (x : Extraction) (start stop : Place)
      (arms : List Arm), extract .direct script source = .ok x →
        tableStart script.tableFunction source = .ok start →
        readArms? start = some (arms, stop) →
        ∀ name, isStrategyName name = true →
          x.table.get? name = dispatch? script.placeholder arms name := by
  intro hall
  let source := ("get_tcp_strategy_options() \x7b\n case $1 in\n" ++
    "  a) ;;\n  a) echo \"--late\" ;;\n esac\n\x7d\n").toList
  have hrun : (extract .direct .stock source).toOption.bind (fun x =>
      (tableStart ScriptNames.stock.tableFunction source).toOption.bind fun start =>
        (readArms? start).map fun read =>
          (x.table.get? "a".toList, dispatch? "filter".toList read.1 "a".toList)) =
      some (some "--late".toList, none) := by
    decide +kernel
  cases hx : extract .direct .stock source with
  | error cause =>
      rw [hx] at hrun
      cases hrun
  | ok x =>
      cases hstart : tableStart ScriptNames.stock.tableFunction source with
      | error cause =>
          rw [hx, hstart] at hrun
          cases hrun
      | ok start =>
          rw [hx, hstart] at hrun
          obtain ⟨⟨arms, stop⟩, hread, hpair⟩ := Option.map_eq_some_iff.mp hrun
          obtain ⟨hgot, hfirst⟩ := Prod.mk.inj hpair
          have heq := hall .stock source x start stop arms hx hstart hread
            "a".toList (by decide)
          rw [hgot] at heq
          exact absurd (heq.trans hfirst) (by decide)

end CaseTable
