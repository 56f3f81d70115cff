import CaseTable.Storage.Disk
import Mathlib.Data.List.Nodup
import Mathlib.Data.List.Perm.Subperm

/-!
# What lies where on a disk

A disk is seen through `node?`. Putting a node changes what lies at its location
and nothing else (`node?_put`), and a node that was put in a free place and
erased again leaves the very same disk (`erase_put_of_free`): this is what
becomes of a temporary file that is given up.

There is always a free place (`exists_freeLocation?`), because the names that
are tried are more than the nodes that could have taken them.
-/

namespace CaseTable.Disk

/-! ## Putting and erasing -/

theorem lookup_filter_ne (nodes : List (Location × Node)) (l l' : Location) :
    (nodes.filter fun e => e.1 ≠ l).lookup l' =
      if l' = l then none else nodes.lookup l' := by
  induction nodes with
  | nil => simp
  | cons e nodes ih =>
      obtain ⟨k, n⟩ := e
      by_cases hk : k = l
      · rw [List.filter_cons_of_neg (by simp [hk]), ih]
        split
        · rfl
        · next hl' => rw [List.lookup_cons, beq_eq_false_iff_ne.mpr (hk ▸ hl')]
      · rw [List.filter_cons_of_pos (by simp [hk]), List.lookup_cons, List.lookup_cons, ih]
        by_cases hl' : l' = l
        · rw [if_pos hl', if_pos hl', hl', beq_eq_false_iff_ne.mpr (Ne.symm hk)]
        · rw [if_neg hl', if_neg hl']

theorem node?_put (d : Disk) {l : Location} (hl : l ≠ []) (n : Node) (l' : Location) :
    (d.put l n).node? l' = if l' = l then some n else d.node? l' := by
  rw [node?, node?, put, List.lookup_append, lookup_filter_ne, List.lookup_cons]
  by_cases hroot : l' = []
  · rw [if_pos hroot, if_pos hroot, if_neg (hroot ▸ hl.symm)]
  · rw [if_neg hroot, if_neg hroot]
    by_cases hl' : l' = l
    · simp [hl']
    · simp [hl', beq_eq_false_iff_ne.mpr hl']

theorem put_put (d : Disk) (l : Location) (m n : Node) :
    (d.put l m).put l n = d.put l n := by
  simp [put, List.filter_append, List.filter_filter]

theorem erase_put (d : Disk) (l : Location) (n : Node) :
    (d.put l n).erase l = d.erase l := by
  simp [put, erase, List.filter_append, List.filter_filter]

theorem ne_nil_of_free {d : Disk} {l : Location} (h : d.node? l = none) : l ≠ [] := by
  rintro rfl
  rw [node?, if_pos rfl] at h
  cases h

theorem erase_of_free {d : Disk} {l : Location} (h : d.node? l = none) : d.erase l = d := by
  rw [node?, if_neg (ne_nil_of_free h), List.lookup_eq_none_iff] at h
  rw [erase, List.filter_eq_self.mpr]
  intro e he
  rw [decide_eq_true_iff, ne_comm]
  exact bne_iff_ne.mp (h e he)

/-- A node that was put in a free place leaves nothing behind. -/
theorem erase_put_of_free {d : Disk} {l : Location} (h : d.node? l = none) (n : Node) :
    (d.put l n).erase l = d := by
  rw [erase_put, erase_of_free h]

/-! ## Free places -/

theorem temporaryName_injective : Function.Injective temporaryName := by
  intro m n h
  rw [temporaryName, temporaryName, List.append_cancel_left_eq, Nat.toList_repr,
    Nat.toList_repr] at h
  have hvalue (k : Nat) : Nat.ofDigitChars 10 (Nat.toDigits 10 k) 0 = k :=
    Nat.ofDigitChars_toDigits (by decide) (by decide)
  rw [← hvalue m, h, hvalue]

theorem free_of_freeLocation? {d : Disk} {l k : Location} (h : d.freeLocation? l = some k) :
    d.node? k = none := by
  rw [freeLocation?] at h
  simpa using List.find?_some h

/-- Of more names than there are nodes, one is not taken. -/
theorem exists_freeLocation? (d : Disk) (l : Location) :
    ∃ k, d.freeLocation? l = some k := by
  rw [← Option.isSome_iff_exists, Option.isSome_iff_ne_none, freeLocation?]
  intro hnone
  let tried := (List.range (d.nodes.length + 1)).map fun n => l ++ [temporaryName n]
  have htaken : tried ⊆ d.nodes.map Prod.fst := by
    intro k hk
    have hnode := List.find?_eq_none.mp hnone k hk
    obtain ⟨n, -, rfl⟩ := List.mem_map.mp hk
    rw [node?, if_neg (by simp), Bool.not_eq_true, Option.isNone_eq_false_iff,
      Option.isSome_iff_exists] at hnode
    obtain ⟨node, hnode⟩ := hnode
    obtain ⟨before, after, hsplit, -⟩ := List.lookup_eq_some_iff.mp hnode
    simp [hsplit]
  have hdifferent : tried.Nodup := by
    refine List.Nodup.map (fun m n h => ?_) List.nodup_range
    exact temporaryName_injective (List.cons.inj (List.append_cancel_left h)).1
  have hlength := (List.subperm_of_subset hdifferent htaken).length_le
  rw [List.length_map, List.length_map, List.length_range] at hlength
  omega

end CaseTable.Disk
