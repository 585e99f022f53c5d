/-
# `GridFill.Proofs.Rules.Group` — rows, columns and regions as groups of cells

A rule set looks at a finished board group by group: the rows, the columns and
the regions.  What it demands of the groups is again a relation between two
cells.  The rows are a grouping of the cells by `SameRow` (`grouping_rows`), the
columns one by `SameCol`, and the regions one by `SameRegion`, provided no cell
is without a region.

All that is said of groups is said once, of any grouping: no group holds a value
twice exactly when no filled cell has the value of a related one
(`Grouping.nodup_iff`), and every group is a permutation of `1..n` exactly when,
besides, every group has `n` cells and every cell a value in `1..n`
(`Grouping.isPermutation_iff`).
-/
import Mathlib.Data.Set.Pairwise.List
import GridFill.Proofs.Rules.Extension

namespace GridFill

theorem Board.mem_filledCells {b : Board} {i : Nat} :
    i ∈ b.filledCells ↔ i < b.listed ∧ b.value i ≠ none := by
  simp [filledCells, cells]

namespace Rules

/-- No filled cell has the value of another cell that is related to it. -/
def Separate (b : Board) (rel : Nat → Nat → Prop) : Prop :=
  ∀ i ∈ b.filledCells, ∀ j < b.frame.size, j ≠ i → rel i j → b.value i ≠ b.value j

theorem apart_filledCells_iff {r : Rules} {b : Board} :
    r.Apart b.filledCells b ↔ Separate b (r.Peers b) := Iff.rfl

theorem separate_or {b : Board} {p q : Nat → Nat → Prop} :
    Separate b (fun i j => p i j ∨ q i j) ↔ Separate b p ∧ Separate b q := by
  constructor
  · intro h
    exact ⟨fun i hi j hj hne hp => h i hi j hj hne (.inl hp),
      fun i hi j hj hne hq => h i hi j hj hne (.inr hq)⟩
  · rintro ⟨hp, hq⟩ i hi j hj hne (h | h)
    · exact hp i hi j hj hne h
    · exact hq i hi j hj hne h

/-- Every cell has a value from `1` to `n`. -/
def InRange (b : Board) (n : Nat) : Prop :=
  ∀ i < b.frame.size, ∃ v : Int, b.value i = some v ∧ 1 ≤ v ∧ v ≤ n

/-! ## Groups of values

Here a group is a list of cells, and what is said of its values is said of pairs of
these cells. -/

/-- Values are a permutation of `1..n` when there are `n` of them, all in range
and all different. -/
theorem isPermutation_iff {n : Nat} {vs : List (Option Int)} :
    isPermutation n vs = true ↔
      vs.length = n ∧ (∀ v ∈ vs, ∃ k : Int, v = some k ∧ 1 ≤ k ∧ k ≤ n) ∧
        (vs.filterMap id).Nodup := by
  have hall : vs.all (fun v => v.any fun (k : Int) => 1 ≤ k && k ≤ n) = true ↔
      ∀ v ∈ vs, ∃ k : Int, v = some k ∧ 1 ≤ k ∧ k ≤ n := by
    simp [Option.any_eq_true]
  have hnodup (h : ∀ v ∈ vs, ∃ k : Int, v = some k ∧ 1 ≤ k ∧ k ≤ n) :
      (vs.filterMap id).Nodup ↔ vs.Nodup := by
    rw [List.Nodup, List.Nodup, List.pairwise_filterMap]
    refine List.Pairwise.iff_of_mem fun {u v} hu hv => ?_
    obtain ⟨k, rfl, -⟩ := h u hu
    obtain ⟨l, rfl, -⟩ := h v hv
    simp
  rw [isPermutation, Bool.and_eq_true, Bool.and_eq_true, beq_iff_eq, hall, decide_eq_true_iff,
    and_assoc]
  refine and_congr_right fun _ => ⟨fun ⟨h, hnd⟩ => ⟨h, (hnodup h).mpr hnd⟩, fun ⟨h, hnd⟩ =>
    ⟨h, (hnodup h).mp hnd⟩⟩

theorem nodup_filterMap_iff {f : Nat → Option Int} {g : List Nat} (hg : g.Nodup) :
    (g.filterMap f).Nodup ↔ ∀ i ∈ g, ∀ j ∈ g, j ≠ i → f i ≠ none → f i ≠ f j := by
  -- the two-sided form, in which the relation between the cells is symmetric
  have hpair : ∀ i j, (∀ u, f i = some u → ∀ v, f j = some v → u ≠ v) ↔
      (f i = f j → f i = none) := by
    intro i j
    cases hi : f i <;> cases hj : f j <;> simp
  have hsymm : Std.Symm fun i j => f i = f j → f i = none :=
    ⟨fun i j h heq => heq.trans (h heq.symm)⟩
  rw [List.Nodup, List.pairwise_filterMap]
  simp only [hpair]
  rw [← hg.pairwise_coe]
  constructor
  · intro h i hi j hj hne hv heq
    exact hv (h hi hj hne.symm heq)
  · intro h i hi j hj hne heq
    by_contra hv
    exact h i hi j hj hne.symm hv heq

/-! ## Groupings

In a grouping every cell lies in a list and related cells lie in one, so a
condition on all lists is one on all related cells. -/

/-- Lists of cells that together hold every cell of the board, such that two
cells lie in the same list exactly when they are related. -/
structure Grouping (b : Board) (rel : Nat → Nat → Prop) (groups : List (List Nat)) : Prop where
  nodup : ∀ g ∈ groups, g.Nodup
  lt : ∀ g ∈ groups, ∀ i ∈ g, i < b.frame.size
  covers : ∀ i < b.frame.size, ∃ g ∈ groups, i ∈ g
  rel_iff : ∀ i < b.frame.size, ∀ j < b.frame.size, rel i j ↔ ∃ g ∈ groups, i ∈ g ∧ j ∈ g

namespace Grouping

variable {b : Board} {rel : Nat → Nat → Prop} {groups : List (List Nat)}

/-- No group holds a value twice exactly when related cells differ. -/
theorem nodup_iff (h : Grouping b rel groups) (hl : b.listed = b.frame.size) :
    (∀ g ∈ groups, ((g.map b.value).filterMap id).Nodup) ↔ Separate b rel := by
  constructor
  · intro hnodup i hi j hj hne hrel
    obtain ⟨hlt, hv⟩ := Board.mem_filledCells.mp hi
    rw [hl] at hlt
    obtain ⟨g, hg, hig, hjg⟩ := (h.rel_iff i hlt j hj).mp hrel
    have hdiff := hnodup g hg
    rw [List.filterMap_map] at hdiff
    exact (nodup_filterMap_iff (h.nodup g hg)).mp hdiff i hig j hjg hne hv
  · intro hsep g hg
    rw [List.filterMap_map]
    refine (nodup_filterMap_iff (h.nodup g hg)).mpr fun i hi j hj hne hv => ?_
    have hilt := h.lt g hg i hi
    have hjlt := h.lt g hg j hj
    exact hsep i (Board.mem_filledCells.mpr ⟨hl ▸ hilt, hv⟩) j hjlt hne
      ((h.rel_iff i hilt j hjlt).mpr ⟨g, hg, hi, hj⟩)

/-- Every group is a permutation of `1..n` exactly when it has `n` cells, all
values are in range and related cells differ. -/
theorem isPermutation_iff (h : Grouping b rel groups) (hl : b.listed = b.frame.size) {n : Nat} :
    (∀ g ∈ groups, isPermutation n (g.map b.value) = true) ↔
      (∀ g ∈ groups, g.length = n) ∧ InRange b n ∧ Separate b rel := by
  simp only [Rules.isPermutation_iff, List.length_map, List.forall_mem_map]
  rw [← h.nodup_iff hl]
  constructor
  · intro hperm
    refine ⟨fun g hg => (hperm g hg).1, fun i hi => ?_, fun g hg => (hperm g hg).2.2⟩
    obtain ⟨g, hg, hig⟩ := h.covers i hi
    exact (hperm g hg).2.1 i hig
  · rintro ⟨hlen, hrange, hnodup⟩ g hg
    exact ⟨hlen g hg, fun i hi => hrange i (h.lt g hg i hi), hnodup g hg⟩

end Grouping

/-! ## Rows, columns and regions

Each of the three is a grouping of the cells of a full rectangle; the regions are
one if no cell is without. -/

section

variable {b : Board}

/-- The cells of the rows on the board. -/
def rowCells (b : Board) : List (List Nat) :=
  (List.range b.height).map fun (y : Nat) => b.frame.row y

/-- The cells of the columns on the board. -/
def colCells (b : Board) : List (List Nat) :=
  (List.range b.width).map fun (x : Nat) => b.frame.col x

/-- The listed cells of a region. -/
def regionCells (b : Board) (r : Option Region) : List Nat :=
  b.cells.filter fun i => b.region i = r

theorem rowGroups_eq (b : Board) : rowGroups b = (rowCells b).map fun g => g.map b.value := by
  rw [rowGroups, rowCells, List.map_map]
  rfl

theorem colGroups_eq (b : Board) : colGroups b = (colCells b).map fun g => g.map b.value := by
  rw [colGroups, colCells, List.map_map]
  rfl

theorem mem_regionCells {r : Option Region} {i : Nat} :
    i ∈ regionCells b r ↔ i < b.listed ∧ b.region i = r := by
  simp [regionCells, Board.cells]

theorem nodup_eraseDups {α : Type} [BEq α] [LawfulBEq α] : ∀ l : List α, l.eraseDups.Nodup
  | [] => List.nodup_nil
  | a :: l => by
      rw [List.eraseDups_cons, List.nodup_cons]
      refine ⟨fun hmem => ?_, nodup_eraseDups _⟩
      have hne := (List.mem_filter.mp (List.mem_eraseDups.mp hmem)).2
      rw [beq_self_eq_true] at hne
      cases hne
termination_by l => l.length
decreasing_by exact Nat.lt_succ_of_le (List.length_filter_le _ _)

theorem nodup_regionsOf (b : Board) : (regionsOf b).Nodup :=
  nodup_eraseDups _

theorem mem_regionsOf {r : Option Region} :
    r ∈ regionsOf b ↔ ∃ i < b.listed, b.region i = r := by
  simp [regionsOf, Board.cells, List.mem_eraseDups]

variable (hb : b.Rectangular)

include hb

theorem length_row {g : List Nat} (hg : g ∈ rowCells b) : g.length = b.width := by
  obtain ⟨y, hy, rfl⟩ := List.mem_map.mp hg
  rw [hb.row_of_lt (List.mem_range.mp hy), List.length_map, List.length_range]

theorem length_col {g : List Nat} (hg : g ∈ colCells b) : g.length = b.height := by
  obtain ⟨x, hx, rfl⟩ := List.mem_map.mp hg
  rw [hb.col_of_lt (List.mem_range.mp hx), List.length_map, List.length_range]

theorem grouping_rows : Grouping b (SameRow b) (rowCells b) where
  nodup g hg := by
    obtain ⟨y, hy, rfl⟩ := List.mem_map.mp hg
    rw [hb.row_of_lt (List.mem_range.mp hy)]
    exact List.nodup_range.map fun x x' h => Nat.add_left_cancel h
  lt g hg i hi := by
    obtain ⟨y, -, rfl⟩ := List.mem_map.mp hg
    exact (hb.mem_row.mp hi).1
  covers i hi := by
    obtain ⟨y, hy, hsite⟩ := hb.site_y_lt hi
    exact ⟨_, List.mem_map.mpr ⟨y, List.mem_range.mpr hy, rfl⟩, hb.mem_row.mpr ⟨hi, hsite⟩⟩
  rel_iff i hi j hj := by
    constructor
    · intro h
      obtain ⟨y, hy, hsite⟩ := hb.site_y_lt hi
      exact ⟨_, List.mem_map.mpr ⟨y, List.mem_range.mpr hy, rfl⟩, hb.mem_row.mpr ⟨hi, hsite⟩,
        hb.mem_row.mpr ⟨hj, h.symm.trans hsite⟩⟩
    · rintro ⟨g, hg, hig, hjg⟩
      obtain ⟨y, -, rfl⟩ := List.mem_map.mp hg
      exact (hb.mem_row.mp hig).2.trans (hb.mem_row.mp hjg).2.symm

theorem grouping_cols : Grouping b (SameCol b) (colCells b) where
  nodup g hg := by
    obtain ⟨x, hx, rfl⟩ := List.mem_map.mp hg
    rw [hb.col_of_lt (List.mem_range.mp hx)]
    exact List.nodup_range.map fun y y' h =>
      Nat.eq_of_mul_eq_mul_right b.frame.width_pos (Nat.add_right_cancel h)
  lt g hg i hi := by
    obtain ⟨x, -, rfl⟩ := List.mem_map.mp hg
    exact (hb.mem_col.mp hi).1
  covers i hi := by
    obtain ⟨x, hx, hsite⟩ := hb.site_x_lt hi
    exact ⟨_, List.mem_map.mpr ⟨x, List.mem_range.mpr hx, rfl⟩, hb.mem_col.mpr ⟨hi, hsite⟩⟩
  rel_iff i hi j hj := by
    constructor
    · intro h
      obtain ⟨x, hx, hsite⟩ := hb.site_x_lt hi
      exact ⟨_, List.mem_map.mpr ⟨x, List.mem_range.mpr hx, rfl⟩, hb.mem_col.mpr ⟨hi, hsite⟩,
        hb.mem_col.mpr ⟨hj, h.symm.trans hsite⟩⟩
    · rintro ⟨g, hg, hig, hjg⟩
      obtain ⟨x, -, rfl⟩ := List.mem_map.mp hg
      exact (hb.mem_col.mp hig).2.trans (hb.mem_col.mp hjg).2.symm

theorem grouping_regions (hr : ∀ i < b.frame.size, b.region i ≠ none) :
    Grouping b (SameRegion b) ((regionsOf b).map (regionCells b)) where
  nodup g hg := by
    obtain ⟨r, -, rfl⟩ := List.mem_map.mp hg
    exact List.nodup_range.filter _
  lt g hg i hi := by
    obtain ⟨r, -, rfl⟩ := List.mem_map.mp hg
    exact hb.listed ▸ (mem_regionCells.mp hi).1
  covers i hi := by
    rw [← hb.listed] at hi
    exact ⟨_, List.mem_map.mpr ⟨_, mem_regionsOf.mpr ⟨i, hi, rfl⟩, rfl⟩,
      mem_regionCells.mpr ⟨hi, rfl⟩⟩
  rel_iff i hi j hj := by
    have hil := hb.listed ▸ hi
    have hjl := hb.listed ▸ hj
    constructor
    · rintro ⟨h, -⟩
      exact ⟨_, List.mem_map.mpr ⟨_, mem_regionsOf.mpr ⟨i, hil, rfl⟩, rfl⟩,
        mem_regionCells.mpr ⟨hil, rfl⟩, mem_regionCells.mpr ⟨hjl, h.symm⟩⟩
    · rintro ⟨g, hg, hig, hjg⟩
      obtain ⟨r, -, rfl⟩ := List.mem_map.mp hg
      have hri := (mem_regionCells.mp hig).2
      exact ⟨hri.trans (mem_regionCells.mp hjg).2.symm, hr i hi⟩

end

end Rules

end GridFill
