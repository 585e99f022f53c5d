/-
# `GridFill.Proofs.Sudoku.Sides` — boxes with negative sides

The checks of a sudoku ask that the sides of a box multiply to the side of the
square, and that is also true of two negative sides.  With positive sides the boxes cut the
square as a sudoku needs it; with negative ones they never do, unless the square
has a single cell (`split_iff_of_assignRegions`).

Dividing by a negative side and rounding down puts the first column, `x = 0`, into
a block of its own.  So the greatest number of a box is found in the first column
only, and not in all of it: its region has fewer cells than the square has rows.
-/
import GridFill.Proofs.Puzzle.Board
import GridFill.Proofs.Rules.Givens
import GridFill.Sudoku.Basic

namespace GridFill

/-! ## Numbers of boxes with negative sides

Such a number falls from left to right, so the greatest ones are found in the first
column. -/

theorem fdiv_neg_side {side x : Int} (hside : side < 0) (hx : 0 ≤ x) :
    x.fdiv side ≤ 0 ∧ (x.fdiv side = 0 → x = 0) := by
  have hflip : x.fdiv side = (-x) / (-side) := by
    rw [← Int.neg_fdiv_neg, Int.fdiv_eq_ediv_of_nonneg _ (by omega)]
  rw [hflip]
  by_cases h0 : x = 0
  · subst h0
    simp
  · have hneg : (-x) / (-side) < 0 := Int.ediv_neg_of_neg_of_pos (by omega) (by omega)
    exact ⟨Int.le_of_lt hneg, fun h => absurd h (Int.ne_of_lt hneg)⟩

theorem fdiv_antitone {side y z : Int} (hside : side < 0) (h : y ≤ z) :
    z.fdiv side ≤ y.fdiv side := by
  rw [← Int.neg_fdiv_neg, ← Int.neg_fdiv_neg y, Int.fdiv_eq_ediv_of_nonneg _ (by omega),
    Int.fdiv_eq_ediv_of_nonneg _ (by omega)]
  exact Int.ediv_le_ediv (by omega) (by omega)

section

variable {box : Box} (hw : box.width < 0) (hh : box.height < 0)

include hw hh

theorem Box.number_eq_last {x y last : Int} (hx : 0 ≤ x) (hy : y ≤ last) (hlast : 0 < last)
    (h : box.number box.height ⟨x, y⟩ = box.number box.height ⟨0, last⟩) : x = 0 ∧ y ≠ 0 := by
  simp only [Box.number, Int.zero_fdiv, Int.zero_add] at h
  obtain ⟨hxle, hx0⟩ := fdiv_neg_side hw hx
  have hyle : y.fdiv box.height * box.height ≤ last.fdiv box.height * box.height :=
    Int.mul_le_mul_of_nonpos_right (fdiv_antitone hh hy) (Int.le_of_lt hh)
  have hxz : x = 0 := hx0 (by omega)
  refine ⟨hxz, fun hyz => ?_⟩
  subst hxz hyz
  obtain ⟨hle, hl0⟩ := fdiv_neg_side hh (Int.le_of_lt hlast)
  rw [Int.zero_fdiv, Int.zero_fdiv, Int.zero_mul, Int.zero_add] at h
  rcases Int.mul_eq_zero.mp h.symm with h | h
  · have := hl0 h
    omega
  · omega

end

/-! ## Squares cut by boxes

A region that lies in a part of the first column has fewer cells than the square
has rows, unless there is a single row. -/

namespace Rules

variable {b b₀ : Board} {box : Box}

theorem split_of_width_eq_one (hb : b.Rectangular) (hsquare : b.height = b.width)
    (hone : b.width = 1) (hnamed : b.region 0 ≠ none) : Split b := by
  have hsize : b.frame.size = 1 := by rw [hb.size_eq, hsquare, hone]
  have hcells : b.cells = [0] := by rw [Board.cells, hb.listed, hsize]; rfl
  have hof : regionsOf b = [b.region 0] := by rw [regionsOf, hcells]; rfl
  refine ⟨hsquare, ?_, ?_, ?_⟩
  · intro i hi
    obtain rfl : i = 0 := by omega
    exact hnamed
  · rw [hof, hone]
    rfl
  · intro r hr
    rw [hof, List.mem_singleton] at hr
    rw [regionCells, hcells, hone, hr]
    simp

/-- Boxes with negative sides do not cut a square of more than one row. -/
theorem not_split_of_neg (hb : b.Rectangular) (hsquare : b.height = b.width)
    (hlarge : 1 < b.width) (hw : box.width < 0) (hh : box.height < 0)
    (hregion : ∀ i < b.frame.size,
      b.region i = some (.number (box.number box.height (b.frame.site i)))) : ¬ Split b := by
  intro hsplit
  have hpos : 0 < b.width := b.frame.width_pos
  -- the lowest cell of the first column, and the region it lies in
  obtain ⟨n, hn⟩ : ∃ n, b.width = n + 1 := ⟨b.width - 1, by omega⟩
  have hsize : b.frame.size = (n + 1) * (n + 1) := by rw [hb.size_eq, hsquare, hn]
  have hlast : n * (n + 1) < b.frame.size := by
    rw [hsize]
    exact Nat.mul_lt_mul_of_pos_right (Nat.lt_succ_self n) (Nat.succ_pos n)
  have hsite : b.frame.site (n * (n + 1)) = ⟨0, n⟩ := by
    rw [hb.site_eq hlast, hn, Nat.mul_mod_left, Nat.mul_div_cancel _ (Nat.succ_pos n)]
    rfl
  have hmem : b.region (n * (n + 1)) ∈ regionsOf b :=
    mem_regionsOf.mpr ⟨_, hb.listed ▸ hlast, rfl⟩
  have hlen := hsplit.cells _ hmem
  have hsub : regionCells b (b.region (n * (n + 1))) ⊆
      (List.range' 1 n).map fun y => y * (n + 1) := by
    intro i hi
    obtain ⟨hlt, heq⟩ := mem_regionCells.mp hi
    rw [hb.listed] at hlt
    rw [hregion i hlt, hregion _ hlast, hsite, hb.site_eq hlt, hn] at heq
    have hrow : i / (n + 1) < n + 1 := Nat.div_lt_of_lt_mul (hsize ▸ hlt)
    obtain ⟨hx, hy⟩ := Box.number_eq_last hw hh (Int.natCast_nonneg _)
      (Int.ofNat_le.mpr (Nat.lt_succ_iff.mp hrow)) (by omega)
      (Region.number.inj (Option.some.inj heq))
    have hmod : i % (n + 1) = 0 := Int.natCast_eq_zero.mp hx
    have hdiv : i / (n + 1) ≠ 0 := fun h0 => hy (Int.natCast_eq_zero.mpr h0)
    refine List.mem_map.mpr ⟨i / (n + 1), List.mem_range'_1.mpr ⟨?_, ?_⟩, ?_⟩
    · exact Nat.one_le_iff_ne_zero.mpr hdiv
    · omega
    · exact Nat.div_mul_cancel (Nat.dvd_of_mod_eq_zero hmod)
  have hnodup : (regionCells b (b.region (n * (n + 1)))).Nodup := List.nodup_range.filter _
  have hle := (hnodup.subperm hsub).length_le
  rw [hlen, hn, List.length_map, List.length_range'] at hle
  omega

/-- Boxes that hold as many cells as a square has rows cut it as a sudoku needs it
exactly when their sides are positive or there is one cell only. -/
theorem split_iff_of_assignRegions (hb : b.Rectangular) (hsquare : b.height = b.width)
    (harea : box.width * box.height = b.width) (h : b₀.assignRegions box = .ok b) :
    Split b ↔ 0 < box.width ∨ b.width = 1 := by
  have hframe := Board.assignRegions_frame h
  have hlisted := Board.assignRegions_listed h
  have hwidth : b.width = b₀.width := congrArg Frame.width hframe
  have hheight : b.height = b₀.height := congrArg Frame.height hframe
  have hpos : (0 : Int) < b.width := Int.natCast_pos.mpr b.frame.width_pos
  obtain ⟨⟨hw0, -⟩, -⟩ := Board.assignRegions_eq_ok.mp h
  rcases Int.lt_or_gt_of_ne hw0 with hw | hw
  · have hh : box.height < 0 := by
      by_contra hh
      have := Int.mul_nonpos_of_nonpos_of_nonneg (Int.le_of_lt hw) (Int.not_lt.mp hh)
      omega
    have hperRow : (b₀.width : Int).fdiv box.width = box.height := by
      rw [← hwidth, ← harea, Int.mul_fdiv_cancel_left _ hw0]
    have hregion : ∀ i < b.frame.size,
        b.region i = some (.number (box.number box.height (b.frame.site i))) := by
      intro i hi
      rw [← hb.listed, hlisted] at hi
      rw [Board.region_assignRegions h hi, hperRow, hframe]
    constructor
    · intro hsplit
      by_contra hnot
      obtain ⟨-, hne⟩ := not_or.mp hnot
      exact not_split_of_neg hb hsquare (by omega) hw hh hregion hsplit
    · rintro (hpos | hone)
      · omega
      · refine split_of_width_eq_one hb hsquare hone ?_
        rw [hregion 0 (by rw [hb.size_eq, hsquare, hone]; decide)]
        exact Option.some_ne_none _
  · have hh : 0 < box.height := by
      by_contra hh
      have := Int.mul_nonpos_of_nonneg_of_nonpos (Int.le_of_lt hw) (Int.not_lt.mp hh)
      omega
    constructor
    · intro _
      exact .inl hw
    · intro _
      refine split_of_assignRegions hb hw hh ?_ ?_ h
      · rw [← hheight, ← hwidth, hsquare]
      · rw [← hwidth, harea]

end Rules

/-! ## Accepted sudokus

Both ways to a sudoku board assign the regions that were asked for and check no
more than that they can be assigned. -/

namespace Sudoku

open Rules

variable {m : Measures} {b : Board}

theorem assigned_of_empty (h : empty m = .ok b) :
    b.Rectangular ∧ (b.width : Int) = m.size ∧ (b.height : Int) = m.size ∧
      m.box.width * m.box.height = m.size ∧ ∃ b₀ : Board, b₀.assignRegions m.box = .ok b := by
  unfold empty at h
  split at h
  case isTrue => cases h
  case isFalse harea =>
    obtain ⟨b₀, hb₀, hassign⟩ := bind_eq_ok_iff.mp h
    obtain ⟨hrect, hwidth, hheight⟩ := Board.rectangle_eq_ok hb₀
    have hframe := Board.assignRegions_frame hassign
    refine ⟨hrect.congr hframe (Board.assignRegions_listed hassign), ?_, ?_, not_not.mp harea, b₀,
      hassign⟩
    · rw [← hwidth, Board.width, hframe, Board.width]
    · rw [← hheight, Board.height, hframe, Board.height]

theorem split_empty_iff (h : empty m = .ok b) : Split b ↔ 0 < m.box.width ∨ m.size = 1 := by
  obtain ⟨hrect, hwidth, hheight, harea, b₀, hassign⟩ := assigned_of_empty h
  have hone : b.width = 1 ↔ m.size = 1 := by omega
  rw [split_iff_of_assignRegions hrect (by omega) (by rw [harea, hwidth]) hassign, hone]

theorem exists_empty_of_ofRows {rows : List (List (Option Int))} (h : ofRows m rows = .ok b) :
    ∃ b₀, empty m = .ok b₀ ∧ b.frame = b₀.frame ∧ b.regions = b₀.regions ∧
      b.listed = b₀.listed := by
  obtain ⟨b₀, hb₀, h⟩ := bind_eq_ok_iff.mp h
  split at h
  case isFalse => cases h
  case isTrue =>
    obtain ⟨vs, -, h⟩ := bind_eq_ok_iff.mp h
    cases h
    exact ⟨b₀, hb₀, Board.putFrom_frame _ _ _, Board.putFrom_regions _ _ _,
      Board.putFrom_listed _ _ _⟩

/-- A sudoku that is accepted, from measures and givens or as a checked puzzle, is a
square of its size.  It has as many regions as rows, each of as many cells, exactly
when the sides of its boxes are positive or it has one cell only: two negative sides
pass all checks as well. -/
theorem accepted_split_iff (m : Measures) (d : Draft) (p : Puzzle) :
    (∀ b, (empty m = .ok b ∨ ∃ rows, ofRows m rows = .ok b) →
      (b.width : Int) = m.size ∧ (b.height : Int) = m.size ∧
        (Split b ↔ 0 < m.box.width ∨ m.size = 1)) ∧
    (d.check = .ok p → p.rules = .sudoku →
      ∃ box, p.box = some box ∧ (0 < p.width → ∃ b, p.board = .ok b) ∧
        ∀ b, p.board = .ok b → b.width = p.width ∧ b.height = p.width ∧
          (Split b ↔ 0 < box.width ∨ p.width = 1)) := by
  constructor
  · rintro b (h | ⟨rows, h⟩)
    · obtain ⟨-, hwidth, hheight, -⟩ := assigned_of_empty h
      exact ⟨hwidth, hheight, split_empty_iff h⟩
    · obtain ⟨b₀, hb₀, hframe, hregions, hlisted⟩ := exists_empty_of_ofRows h
      obtain ⟨-, hwidth, hheight, -⟩ := assigned_of_empty hb₀
      refine ⟨?_, ?_, ?_⟩
      · rw [← hwidth, Board.width, hframe, Board.width]
      · rw [← hheight, Board.height, hframe, Board.height]
      · rw [← split_empty_iff hb₀]
        constructor
        · intro hsplit
          exact hsplit.congr hframe.symm hregions.symm hlisted.symm
        · intro hsplit
          exact hsplit.congr hframe hregions hlisted
  · intro h hs
    have hp := Draft.checked_of_check h
    obtain ⟨box, hfit, hbox⟩ := hp.fit hs
    obtain ⟨-, hsquare, -⟩ := Draft.fitBox_eq_ok_iff.mp hfit
    refine ⟨box, hbox, fun hpos => Puzzle.exists_board hp (hsquare ▸ hpos) hpos, ?_⟩
    intro b hb
    obtain ⟨hwidth, hheight⟩ := Puzzle.sides_of_board hp hb
    obtain ⟨b₀, box', hbox', hassign, -, harea⟩ := Puzzle.assigned_of_board hp hs hb
    rw [hbox, Option.some.injEq] at hbox'
    subst hbox'
    have hheight' : b.height = p.width := by rw [hheight, hsquare]
    refine ⟨hwidth, hheight', ?_⟩
    rw [split_iff_of_assignRegions (Puzzle.hasRows_of_board hb).rectangular
      (by rw [hheight', hwidth]) (by rw [harea, hwidth]) hassign, hwidth]

/-- An empty sudoku of four rows, written down with boxes of the given sides. -/
def fourRows (box : Box) : Draft where
  name := "four"
  dims := [4, 4]
  maxValue := 4
  rules := "sudoku"
  grid := .plane [[0, 0, 0, 0], [0, 0, 0, 0], [0, 0, 0, 0], [0, 0, 0, 0]]
  box := some box

/-- The puzzle of that draft. -/
def fourRowsPuzzle (box : Box) : Puzzle where
  name := "four"
  height := 4
  width := 4
  maxValue := 4
  rules := .sudoku
  rows := [[0, 0, 0, 0], [0, 0, 0, 0], [0, 0, 0, 0], [0, 0, 0, 0]]
  box := some box

theorem accepted_split_iff_fourRows :
    (∃ b, empty ⟨4, ⟨2, 2⟩⟩ = .ok b ∧ Split b) ∧ (∃ b, empty ⟨4, ⟨-2, -2⟩⟩ = .ok b ∧ ¬ Split b) ∧
      (fourRows ⟨-2, -2⟩).check = .ok (fourRowsPuzzle ⟨-2, -2⟩) ∧
      ∃ b, (fourRowsPuzzle ⟨-2, -2⟩).board = .ok b ∧ ¬ Split b := by
  obtain ⟨hgood, -⟩ := accepted_split_iff ⟨4, ⟨2, 2⟩⟩ (fourRows ⟨2, 2⟩) (fourRowsPuzzle ⟨2, 2⟩)
  obtain ⟨hbad, hdraft⟩ :=
    accepted_split_iff ⟨4, ⟨-2, -2⟩⟩ (fourRows ⟨-2, -2⟩) (fourRowsPuzzle ⟨-2, -2⟩)
  refine ⟨⟨_, rfl, ?_⟩, ⟨_, rfl, ?_⟩, rfl, ?_⟩
  · obtain ⟨-, -, hsplit⟩ := hgood _ (.inl rfl)
    exact hsplit.mpr (.inl (by decide))
  · obtain ⟨-, -, hsplit⟩ := hbad _ (.inl rfl)
    intro h
    exact absurd (hsplit.mp h) (by decide)
  · obtain ⟨box, hbox, hboard, hsplit⟩ := hdraft rfl rfl
    obtain ⟨b, hb⟩ := hboard (by decide)
    obtain ⟨-, -, hiff⟩ := hsplit b hb
    refine ⟨b, hb, ?_⟩
    intro h
    cases hbox
    exact absurd (hiff.mp h) (by decide)

end Sudoku

end GridFill
