import CaseTable.Proofs.Rendering.Groups
import CaseTable.Proofs.Text.ByteOrder

/-!
# The two layouts

A flat file has the remaining strategies in the order of the table, a grouped
one has the same sections by slot and name, with two lines before the first
section of a slot: `render_layouts`.

The grouped file is a list of groups, one for each slot that holds anything
(`groupsOf`). Sections and lines are both read off that list, so the order of
the sections and the places of the titles need no second argument. Inside a
group the sort leaves no later name before an earlier one, and as no name is
held twice the order is strict; between groups the slots increase.
-/

namespace CaseTable.Rendering

/-- The order of a grouped file: by slot, and within one by the bytes of the
name. -/
def Precedes (s s' : StrategySection) : Prop :=
  ∃ slot slot', Group.IsSlot s.name slot ∧ Group.IsSlot s'.name slot' ∧
    (slot < slot' ∨ slot = slot' ∧ s.name.toBytes < s'.name.toBytes)

/-! ## Groups -/

/-- The slots that hold a strategy, with their sections. -/
def groupsOf (style : DescriptionStyle) (entries : List Entry) :
    List (Nat × List StrategySection) :=
  ((List.range (Group.otherSlot + 1)).filter fun slot => bucket entries slot ≠ []).map
    fun slot => (slot, (bucket entries slot).map (sectionOf style))

/-- The blocks of a group. -/
def groupBlocks (group : Nat × List StrategySection) : List Block :=
  .heading (Group.titleOf group.1) :: group.2.map .body

theorem slotBlocks_eq (style : DescriptionStyle) (entries : List Entry) (slot : Nat) :
    slotBlocks style entries slot =
      if bucket entries slot = [] then []
      else groupBlocks (slot, (bucket entries slot).map (sectionOf style)) := by
  rw [slotBlocks, groupBlocks, List.map_map]
  split
  · next hempty => rw [if_pos hempty]
  · next e rest hbucket =>
      rw [hbucket, if_neg (List.cons_ne_nil e rest)]
      rfl

/-- Slots that hold nothing leave no trace. -/
theorem bodyBlocks_grouped (style : DescriptionStyle) (entries : List Entry) :
    bodyBlocks .grouped style entries = (groupsOf style entries).flatMap groupBlocks := by
  rw [bodyBlocks, groupsOf, List.flatMap_map]
  induction List.range (Group.otherSlot + 1) with
  | nil => rfl
  | cons slot slots ih =>
      rw [List.flatMap_cons, slotBlocks_eq, ih]
      split
      · next hempty => rw [List.filter_cons_of_neg (by simpa using hempty), List.nil_append]
      · next hheld =>
          rw [List.filter_cons_of_pos (by simpa using hheld), List.flatMap_cons]

theorem lines_groupBlocks (group : Nat × List StrategySection) :
    (groupBlocks group).flatMap Block.lines =
      ["# ==================== ".toList ++ Group.titleOf group.1 ++
        " ====================".toList, []] ++ group.2.flatMap StrategySection.lines := by
  rw [groupBlocks, List.flatMap_cons, List.flatMap_map, Block.lines]
  rfl

theorem sections_groupBlocks (group : Nat × List StrategySection) :
    (groupBlocks group).filterMap Block.content? = group.2 := by
  rw [groupBlocks, List.filterMap_cons_none rfl, List.filterMap_map]
  exact List.filterMap_some

theorem sections_grouped (style : DescriptionStyle) (entries : List Entry) :
    (bodyBlocks .grouped style entries).filterMap Block.content? =
      (groupsOf style entries).flatMap Prod.snd := by
  rw [bodyBlocks_grouped, List.filterMap_flatMap]
  exact List.flatMap_congr fun group _ => sections_groupBlocks group

theorem sections_flat (style : DescriptionStyle) (entries : List Entry) :
    (bodyBlocks .flat style entries).filterMap Block.content? =
      entries.map (sectionOf style) := by
  rw [bodyBlocks, List.filterMap_map]
  exact congrFun List.filterMap_eq_map entries

/-! ## Order -/

theorem isSlot_of_mem_bucket {entries : List Entry} {slot : Nat} {e : Entry}
    (h : e ∈ bucket entries slot) : Group.IsSlot e.name slot := by
  have hmem := List.mem_filter.mp ((bucket_perm entries slot).mem_iff.mp h)
  exact Group.slotOf_eq_iff.mp (of_decide_eq_true hmem.2)

/-- A bucket is sorted, and strictly because no name is held twice. -/
theorem pairwise_bucket {entries : List Entry} (hnodup : (entries.map Entry.name).Nodup)
    (slot : Nat) :
    (bucket entries slot).Pairwise fun a b => a.name.toBytes < b.name.toBytes := by
  have hsorted : (bucket entries slot).Pairwise fun a b => a.name.isLe b.name = true := by
    refine List.pairwise_mergeSort ?_ ?_ _
    · exact fun _ _ _ => Text.isLe_trans
    · exact fun a b => Bool.or_eq_true_iff.mpr (Text.isLe_total a.name b.name)
  have hnames : (bucket entries slot).Pairwise fun a b => a.name ≠ b.name := by
    rw [← List.pairwise_map]
    refine (((bucket_perm entries slot).map Entry.name).nodup_iff).mpr ?_
    exact hnodup.sublist (List.filter_sublist.map _)
  exact hsorted.imp₂ (fun _ _ => Text.toBytes_lt_of_isLe) hnames

theorem pairwise_slots (style : DescriptionStyle) (entries : List Entry) :
    (groupsOf style entries).Pairwise fun a b => a.1 < b.1 := by
  rw [groupsOf, List.pairwise_map]
  exact List.pairwise_lt_range.filter _

theorem isSlot_of_mem_groupsOf {style : DescriptionStyle} {entries : List Entry}
    {group : Nat × List StrategySection} (h : group ∈ groupsOf style entries) :
    group.2 ≠ [] ∧ ∀ s ∈ group.2, Group.IsSlot s.name group.1 := by
  obtain ⟨slot, hslot, rfl⟩ := List.mem_map.mp h
  refine ⟨by simpa using (List.mem_filter.mp hslot).2, fun s hs => ?_⟩
  obtain ⟨e, he, rfl⟩ := List.mem_map.mp hs
  exact isSlot_of_mem_bucket he

theorem pairwise_grouped (style : DescriptionStyle) {entries : List Entry}
    (hnodup : (entries.map Entry.name).Nodup) :
    ((groupsOf style entries).flatMap Prod.snd).Pairwise Precedes := by
  rw [List.pairwise_flatMap]
  constructor
  · intro group hgroup
    obtain ⟨slot, -, rfl⟩ := List.mem_map.mp hgroup
    rw [List.pairwise_map]
    refine (pairwise_bucket hnodup slot).imp_of_mem fun ha hb hlt => ?_
    exact ⟨slot, slot, isSlot_of_mem_bucket ha, isSlot_of_mem_bucket hb, Or.inr ⟨rfl, hlt⟩⟩
  · refine (pairwise_slots style entries).imp_of_mem fun ha hb hlt s hs s' hs' => ?_
    exact ⟨_, _, (isSlot_of_mem_groupsOf ha).2 s hs, (isSlot_of_mem_groupsOf hb).2 s' hs',
      Or.inl hlt⟩

/-! ## The files -/

theorem names_leading (t : Table) (default : Option Text) :
    (leading t default).map StrategySection.name =
      StrategySection.disabledName ::
        (default.map fun _ => StrategySection.defaultName).toList := by
  rw [leading]
  cases default with
  | none => rfl
  | some name => rfl

theorem text_eq (t : Table) (o : RenderingOptions) :
    (render t o).text = Text.join ['\n'] (head o.sourceName ++
      ((leading t (t.default? o.default)).flatMap StrategySection.lines ++
        (bodyBlocks o.layout o.style (remaining t (t.default? o.default))).flatMap
          Block.lines)) := by
  rw [render, blocks, List.flatMap_append, List.flatMap_map]
  rfl

theorem default_render (t : Table) (o : RenderingOptions) (layout : Layout) :
    (render t { o with layout }).default = t.default? o.default := rfl

theorem warnings_render (t : Table) (o : RenderingOptions) (layout : Layout) :
    (render t { o with layout }).warnings =
      t.defaultWarnings o.default ++ reservedWarnings t (t.default? o.default) := rfl

/-- The layout only reorders. Default, warnings and leading sections are the
same; the other sections are in table order in a flat file, and by slot and
name in a grouped one, which has a title and an empty line before the first
section of every slot that holds anything. -/
theorem render_layouts (t : Table) (o : RenderingOptions) :
    let flat := render t { o with layout := .flat }
    let grouped := render t { o with layout := .grouped }
    grouped.default = flat.default ∧ grouped.warnings = flat.warnings ∧
      ∃ (lead inOrder : List StrategySection) (groups : List (Nat × List StrategySection)),
        lead.map StrategySection.name = StrategySection.disabledName ::
          (flat.default.map fun _ => StrategySection.defaultName).toList ∧
        flat.sections = lead ++ inOrder ∧
        (inOrder.map StrategySection.name).Sublist t.names ∧
        grouped.sections = lead ++ groups.flatMap Prod.snd ∧
        (groups.flatMap Prod.snd).Perm inOrder ∧
        (groups.flatMap Prod.snd).Pairwise Precedes ∧
        groups.Pairwise (fun a b => a.1 < b.1) ∧
        (∀ group ∈ groups, group.2 ≠ [] ∧ ∀ s ∈ group.2, Group.IsSlot s.name group.1) ∧
        flat.text = Text.join ['\n'] (head o.sourceName ++
          (lead.flatMap StrategySection.lines ++ inOrder.flatMap StrategySection.lines)) ∧
        grouped.text = Text.join ['\n'] (head o.sourceName ++
          (lead.flatMap StrategySection.lines ++ groups.flatMap fun group =>
            ["# ==================== ".toList ++ Group.titleOf group.1 ++
              " ====================".toList, []] ++
            group.2.flatMap StrategySection.lines)) := by
  intro flat grouped
  have hnodup := nodup_remaining t (t.default? o.default)
  refine ⟨(default_render t o _).trans (default_render t o _).symm,
    (warnings_render t o _).trans (warnings_render t o _).symm, leading t (t.default? o.default),
    (remaining t (t.default? o.default)).map (sectionOf o.style),
    groupsOf o.style (remaining t (t.default? o.default)), names_leading t _, ?_, ?_, ?_, ?_,
    pairwise_grouped o.style hnodup, pairwise_slots o.style _,
    fun group => isSlot_of_mem_groupsOf, ?_, ?_⟩
  · rw [← sections_flat]
    exact sections_eq t { o with layout := .flat }
  · rw [List.map_map]
    exact names_remaining_sublist t _
  · rw [← sections_grouped]
    exact sections_eq t { o with layout := .grouped }
  · rw [← sections_grouped]
    exact bodySections_perm .grouped o.style _
  · rw [List.flatMap_map]
    refine (text_eq t { o with layout := .flat }).trans ?_
    rw [bodyBlocks, List.flatMap_map]
    rfl
  · refine (text_eq t { o with layout := .grouped }).trans ?_
    rw [bodyBlocks_grouped, List.flatMap_assoc]
    refine congrArg _ (congrArg _ (congrArg _ ?_))
    exact List.flatMap_congr fun group _ => lines_groupBlocks group

end CaseTable.Rendering
