import ExprLang.Text.Lines

/-!
# Lines joined by line feeds

Lines that hold no line feed are found again by splitting the text that they
were joined to.  A text of joined blocks is the text of all their lines joined.
-/

namespace ExprLang.Text

theorem intercalate_ended {lines : List String} (h : lines ≠ []) :
    String.intercalate "\n" lines ++ "\n" = terminated lines := by
  induction lines with
  | nil => contradiction
  | cons line others ih =>
      by_cases hothers : others = []
      · simp [hothers, terminated]
      · rw [String.intercalate_cons_of_ne_nil hothers, String.append_assoc,
          ih hothers]
        simp [terminated]

theorem intercalate_blocks {separator : String} {blocks : List (List String)}
    (h : ∀ block ∈ blocks, block ≠ []) :
    separator.intercalate (blocks.map separator.intercalate) =
      separator.intercalate blocks.flatten := by
  induction blocks with
  | nil => rfl
  | cons block others ih =>
      obtain ⟨hblock, hothers⟩ := List.forall_mem_cons.mp h
      by_cases hlast : others = []
      · simp [hlast]
      · obtain ⟨next, later, rfl⟩ := List.exists_cons_of_ne_nil hlast
        have hrest : (next :: later).flatten ≠ [] := by
          simp [(List.forall_mem_cons.mp hothers).1]
        rw [List.map_cons, String.intercalate_cons_of_ne_nil (by simp),
          ih hothers, ← String.intercalate_append_of_ne_nil hblock hrest]
        rfl

theorem splitOn_joined {lines : List String} (hlines : lines ≠ [])
    (h : ∀ line ∈ lines, '\n' ∉ line.toList) :
    List.splitOn '\n' (String.intercalate "\n" lines).toList =
      lines.map String.toList := by
  rw [String.toList_intercalate]
  exact List.splitOn_intercalate '\n' (List.forall_mem_map.mpr h) (by simpa)

/-- Joined lines determine the lines; only a single empty line looks like no line
at all. -/
theorem joined_injective {lines others : List String}
    (hlines : ∀ line ∈ lines, '\n' ∉ line.toList)
    (hothers : ∀ line ∈ others, '\n' ∉ line.toList)
    (hblank : lines ≠ [""]) (hotherBlank : others ≠ [""])
    (h : String.intercalate "\n" lines = String.intercalate "\n" others) :
    lines = others := by
  -- A text without lines is split into one empty line.
  have hsplit : ∀ lines : List String, (∀ line ∈ lines, '\n' ∉ line.toList) →
      List.splitOn '\n' (String.intercalate "\n" lines).toList =
        (if lines = [] then [""] else lines).map String.toList := by
    intro lines hlines
    by_cases hnone : lines = []
    · subst hnone
      decide
    · rw [splitOn_joined hnone hlines, if_neg hnone]
  have hsame : (if lines = [] then [""] else lines) =
      if others = [] then [""] else others := by
    refine (List.map_inj_right fun _ _ => String.toList_inj.mp).mp ?_
    rw [← hsplit lines hlines, h, hsplit others hothers]
  split at hsame <;> split at hsame
  · simp_all
  · exact absurd hsame.symm hotherBlank
  · exact absurd hsame hblank
  · exact hsame

end ExprLang.Text
