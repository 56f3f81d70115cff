import CaseTable.Storage.Disk

/-!
# Where paths lead

A path is followed through directories. So what lies in files, and which files
there are, does not matter to where it leads: on a disk with the same
directories it leads to the same location, if something lies there
(`resolve_of_resolve`). The place where a moved file will lie is found in the
same way (`target_of_target`).

The two ways to look at a path agree. Once a file was moved to a path, that
path leads to it (`resolve_of_target`).
-/

namespace CaseTable.Disk

variable {d e : Disk}

/-- A check that was passed. -/
theorem ite_error_eq_ok_iff {α : Type} {c : Prop} [Decidable c] {f : Fault}
    {x : Except Fault α} {a : α} :
    (if c then .error f else x) = .ok a ↔ ¬ c ∧ x = .ok a := by
  by_cases h : c
  · simp [h]
  · simp [h]

/-! ## Following -/

theorem isDirectory_of_step {l k : Location} {segment : Text}
    (h : d.step l segment = .ok k) : d.isDirectory l = true := by
  rw [step, ite_error_eq_ok_iff] at h
  simpa using h.1

/-- A step needs a directory to start from and something to lead to. -/
theorem step_of_step {l k : Location} {segment : Text} (h : d.step l segment = .ok k)
    (hl : e.isDirectory l = true) (hk : (e.node? k).isSome = true) :
    e.step l segment = .ok k := by
  have hd := isDirectory_of_step h
  rw [step, hd] at h
  rw [step, hl]
  simp only [Bool.not_true, Bool.false_eq_true, if_false] at h ⊢
  split at h
  · next hhere => rw [if_pos hhere, h]
  · next hhere =>
      rw [if_neg hhere]
      split at h
      · next hout => rw [if_pos hout, h]
      · next hout =>
          rw [if_neg hout, ite_error_eq_ok_iff]
          obtain ⟨hlong, h⟩ := ite_error_eq_ok_iff.mp h
          refine ⟨hlong, ?_⟩
          split at h
          · cases h
            rw [if_pos hk]
          · cases h

theorem isSome_of_isDirectory {l : Location} (h : d.isDirectory l = true) :
    (d.node? l).isSome = true := by
  rw [isDirectory, decide_eq_true_iff] at h
  rw [h]
  rfl

theorem follow_of_follow (hdir : ∀ l, d.isDirectory l = true → e.isDirectory l = true)
    {k : Location} (hk : (e.node? k).isSome = true) {segments : List Text} :
    ∀ {l : Location}, d.follow l segments = .ok k → e.follow l segments = .ok k := by
  induction segments with
  | nil => exact fun h => h
  | cons segment rest ih =>
      intro l h
      rw [follow] at h ⊢
      cases hstep : d.step l segment with
      | error f =>
          rw [hstep] at h
          cases h
      | ok m =>
          rw [hstep] at h
          -- what lies on the way is a directory, because the way goes on
          have hm : (e.node? m).isSome = true := by
            cases rest with
            | nil =>
                cases h
                exact hk
            | cons next rest =>
                simp only [follow] at h
                cases hnext : d.step m next with
                | error f =>
                    rw [hnext] at h
                    cases h
                | ok m' => exact isSome_of_isDirectory (hdir m (isDirectory_of_step hnext))
          rw [step_of_step hstep (hdir l (isDirectory_of_step hstep)) hm]
          exact ih h

theorem follow_append (l : Location) (front rest : List Text) :
    d.follow l (front ++ rest) = (d.follow l front).bind fun k => d.follow k rest := by
  induction front generalizing l with
  | nil => rfl
  | cons segment front ih =>
      rw [List.cons_append, follow, follow]
      cases d.step l segment with
      | error f => rfl
      | ok m => exact ih m

/-- A path leads to the same place if the directories are the same. -/
theorem resolve_of_resolve (hworking : e.working = d.working)
    (hdir : ∀ l, d.isDirectory l = true → e.isDirectory l = true) {path : Text}
    {k : Location} (hk : (e.node? k).isSome = true) (h : d.resolve path = .ok k) :
    e.resolve path = .ok k := by
  rw [resolve] at h ⊢
  cases hfault : pathFault? path with
  | some f =>
      rw [hfault] at h
      cases h
  | none =>
      rw [hfault] at h
      have horigin : e.origin path = d.origin path := by rw [origin, origin, hworking]
      rw [horigin]
      exact follow_of_follow hdir hk h

/-! ## Targets -/

theorem ne_nil_of_pathFault? {path : Text} (h : pathFault? path = none) : path ≠ [] := by
  rintro rfl
  cases h

theorem getLast?_join_concat_nil {segments : List Text} (h : segments ≠ []) :
    (Text.join ['/'] (segments ++ [[]])).getLast? = some '/' := by
  induction segments with
  | nil => exact absurd rfl h
  | cons segment rest ih =>
      rw [List.cons_append, Text.join]
      cases rest with
      | nil => simp [List.intercalate]
      | cons next rest =>
          have ih := ih (List.cons_ne_nil next rest)
          rw [Text.join, List.cons_append] at ih
          rw [List.cons_append, List.intercalate_cons_cons, List.getLast?_append, ih]
          rfl

/-- The last segment is empty only behind a slash. -/
theorem getLast?_segments {path : Text} (hne : path ≠ []) (hslash : path.getLast? ≠ some '/') :
    (Path.segments path).getLast? ≠ some [] := by
  have hjoin : Text.join ['/'] (Path.segments path) = path := List.intercalate_splitOn '/'
  intro hlast
  obtain ⟨front, hsegments⟩ := List.getLast?_eq_some_iff.mp hlast
  rw [hsegments] at hjoin
  cases front with
  | nil => exact hne hjoin.symm
  | cons segment front =>
      rw [← hjoin] at hslash
      exact hslash (getLast?_join_concat_nil (List.cons_ne_nil segment front))

theorem coreSegments_eq {path : Text} (hne : path ≠ []) (hslash : path.getLast? ≠ some '/') :
    coreSegments path = Path.segments path := by
  have hlast := getLast?_segments hne hslash
  rw [coreSegments]
  rcases List.eq_nil_or_concat (Path.segments path) with hnil | ⟨front, name, hsegments⟩
  · rw [hnil]
    rfl
  · rw [List.concat_eq_append] at hsegments
    rw [hsegments, List.getLast?_concat] at hlast
    have hname : name ≠ [] := fun h => hlast (congrArg some h)
    rw [hsegments, List.reverse_append, List.reverse_singleton, List.singleton_append,
      List.dropWhile_cons_of_neg (by simp [hname]), List.reverse_cons, List.reverse_reverse]

/-- The place for a moved file: a directory that the path leads to, and in it
a name that a file can have and no directory has. -/
structure IsTarget (d : Disk) (path : Text) (front : List Text) (l : Location)
    (name : Text) : Prop where
  noFault : pathFault? path = none
  noSlash : path.getLast? ≠ some '/'
  segments : Path.segments path = front ++ [name]
  follow : d.follow (d.origin path) front = .ok l
  isDirectory : d.isDirectory l = true
  name_ne_here : name ≠ ['.']
  name_ne_out : name ≠ ['.', '.']
  byteSize_name : Text.byteSize name ≤ maxName
  isFree : d.isDirectory (l ++ [name]) = false

theorem IsTarget.name_ne_nil {path : Text} {front : List Text} {l : Location} {name : Text}
    (h : d.IsTarget path front l name) : name ≠ [] := by
  have hlast := getLast?_segments (ne_nil_of_pathFault? h.noFault) h.noSlash
  rw [h.segments, List.getLast?_concat] at hlast
  exact fun hnil => hlast (congrArg some hnil)

theorem exists_isTarget {path : Text} {t : Location} (h : d.target path = .ok t) :
    ∃ front l name, d.IsTarget path front l name ∧ t = l ++ [name] := by
  rw [target] at h
  cases hfault : pathFault? path with
  | some f =>
      rw [hfault] at h
      cases h
  | none =>
      rw [hfault] at h
      simp only at h
      split at h
      · cases h
      · next name hname =>
          split at h
          · cases h
          · next l hfollow =>
              simp only [ite_error_eq_ok_iff, not_or] at h
              obtain ⟨hdir, ⟨hhere, hout⟩, hlong, hslash, hfree, ht⟩ := h
              rw [coreSegments_eq (ne_nil_of_pathFault? hfault) hslash] at hname hfollow
              obtain ⟨front, hsegments⟩ := List.getLast?_eq_some_iff.mp hname
              rw [hsegments, List.dropLast_concat] at hfollow
              exact ⟨front, l, name, ⟨hfault, hslash, hsegments, hfollow, by simpa using hdir,
                hhere, hout, Nat.not_lt.mp hlong, by simpa using hfree⟩, (Except.ok.inj ht).symm⟩

theorem IsTarget.target_eq {path : Text} {front : List Text} {l : Location} {name : Text}
    (h : d.IsTarget path front l name) : d.target path = .ok (l ++ [name]) := by
  have hcore := coreSegments_eq (ne_nil_of_pathFault? h.noFault) h.noSlash
  have hlong : ¬ Text.byteSize name > maxName := Nat.not_lt.mpr h.byteSize_name
  rw [target, h.noFault]
  simp only [hcore, h.segments, List.getLast?_concat, List.dropLast_concat, h.follow,
    h.isDirectory, h.name_ne_here, h.name_ne_out, h.noSlash, h.isFree, hlong, Bool.not_true,
    Bool.false_eq_true, or_self, if_false]

/-- The place for a moved file is the same if the directories are the same. -/
theorem target_of_target (hworking : e.working = d.working)
    (hdir : ∀ l, e.isDirectory l = d.isDirectory l) {path : Text} {t : Location}
    (h : d.target path = .ok t) : e.target path = .ok t := by
  obtain ⟨front, l, name, ht, rfl⟩ := exists_isTarget h
  have horigin : e.origin path = d.origin path := by rw [origin, origin, hworking]
  have hl : e.isDirectory l = true := (hdir l).trans ht.isDirectory
  have hfollow : e.follow (e.origin path) front = .ok l := by
    rw [horigin]
    exact follow_of_follow (fun l h => (hdir l).trans h) (isSome_of_isDirectory hl) ht.follow
  exact IsTarget.target_eq { ht with
    follow := hfollow
    isDirectory := hl
    isFree := (hdir _).trans ht.isFree }

theorem isDirectory_of_target {path : Text} {t : Location} (h : d.target path = .ok t) :
    d.isDirectory t = false := by
  obtain ⟨front, l, name, ht, rfl⟩ := exists_isTarget h
  exact ht.isFree

/-- What lies at the place for a moved file is what the path leads to. -/
theorem resolve_of_target {path : Text} {t : Location} (h : d.target path = .ok t)
    (hnode : (d.node? t).isSome = true) : d.resolve path = .ok t := by
  obtain ⟨front, l, name, ht, rfl⟩ := exists_isTarget h
  have hlong : ¬ Text.byteSize name > maxName := Nat.not_lt.mpr ht.byteSize_name
  have hstep : d.step l name = .ok (l ++ [name]) := by
    simp only [step, ht.isDirectory, ht.name_ne_nil, ht.name_ne_here, ht.name_ne_out, hlong,
      hnode, Bool.not_true, Bool.false_eq_true, or_self, if_false, if_true]
  rw [resolve, ht.noFault]
  simp only [ht.segments, follow_append, ht.follow, Except.bind, follow, hstep]

end CaseTable.Disk
