/-
# `GridFill.Proofs.Sudoku.Block` — regions as blocks of cells

A block is a rectangle of `bw` by `bh` cells whose corner lies at multiples of its
sides (`InBlock`).  On a full rectangle, square or not, the regions that are assigned
are its blocks: two cells are in one region exactly when one block holds both
(`Boxed.region_eq_iff`), and the number of a region counts the blocks row by row
(`Boxed.region_of_inBlock`).  So going one cell to the right or down leads into another
region exactly where a multiple of the side is passed (`Boxed.region_right_ne_iff`,
`Boxed.region_below_ne_iff`).
-/
import GridFill.Proofs.Board.Connected
import GridFill.Proofs.Sudoku.Box

namespace GridFill

/-- The site lies in the block in column `c` and row `r` of blocks. -/
def InBlock (bw bh c r : Nat) (s : Site) : Prop :=
  (c * bw ≤ s.x ∧ s.x < (c + 1) * bw) ∧ (r * bh ≤ s.y ∧ s.y < (r + 1) * bh)

theorem between_iff_div_eq {side x c : Nat} (h : 0 < side) :
    ((c : Int) * side ≤ x ∧ (x : Int) < (c + 1) * side) ↔ x / side = c := by
  rw [Nat.div_eq_iff h]
  have hsucc : ((c : Int) + 1) * side = c * side + side := by rw [Int.add_mul, Int.one_mul]
  have hcast : ((c * side : Nat) : Int) = c * side := Int.natCast_mul c side
  omega

theorem inBlock_iff {bw bh c r x y : Nat} (hbw : 0 < bw) (hbh : 0 < bh) :
    InBlock bw bh c r ⟨x, y⟩ ↔ x / bw = c ∧ y / bh = r :=
  and_congr (between_iff_div_eq hbw) (between_iff_div_eq hbh)

theorem succ_div_ne_iff {x side : Nat} : x / side ≠ (x + 1) / side ↔ (x + 1) % side = 0 := by
  rw [Nat.succ_div, ← Nat.dvd_iff_mod_eq_zero]
  split
  next h => simp [h]
  next h => simp [h]

namespace Board

theorem exists_assignRegions {b₀ : Board} {bw bh : Nat} (hbw : 0 < bw) (hbh : 0 < bh)
    (hdw : bw ∣ b₀.width) (hdh : bh ∣ b₀.height) : ∃ b, b₀.assignRegions ⟨bw, bh⟩ = .ok b := by
  refine ⟨_, assignRegions_eq_ok.mpr ⟨⟨?_, ?_⟩, ⟨?_, ?_⟩, rfl⟩⟩
  · exact Int.natCast_ne_zero.mpr (Nat.ne_of_gt hbw)
  · exact Int.natCast_ne_zero.mpr (Nat.ne_of_gt hbh)
  · exact Int.natCast_dvd_natCast.mpr hdw
  · exact Int.natCast_dvd_natCast.mpr hdh

namespace Boxed

variable {b b' : Board} {bw bh c r i j x y : Nat} (h : b.Boxed bw bh) (hb : b.Rectangular)

include h

theorem congr (hf : b'.frame = b.frame) (hr : b'.regions = b.regions) : b'.Boxed bw bh where
  width_pos := h.width_pos
  height_pos := h.height_pos
  dvd_width := by
    rw [width, hf]
    exact h.dvd_width
  dvd_height := by
    rw [height, hf]
    exact h.dvd_height
  region_eq i hi := by
    have hwidth : b'.width = b.width := congrArg Frame.width hf
    rw [region, hr, hwidth]
    exact h.region_eq i (hf ▸ hi)

include hb

theorem inBlock_site_iff (hi : i < b.frame.size) :
    InBlock bw bh c r (b.frame.site i) ↔ i % b.width / bw = c ∧ i / b.width / bh = r := by
  rw [hb.site_eq hi]
  exact inBlock_iff h.width_pos h.height_pos

theorem region_of_inBlock (hi : i < b.frame.size) (hblock : InBlock bw bh c r (b.frame.site i)) :
    b.region i = some (.number (c + r * (b.width / bw) : Nat)) := by
  obtain ⟨rfl, rfl⟩ := (h.inBlock_site_iff hb hi).mp hblock
  rw [h.region_eq i hi, tile, Nat.div_mul_cancel h.dvd_width]

/-- Two cells are in one region exactly when one block holds both. -/
theorem region_eq_iff (hi : i < b.frame.size) (hj : j < b.frame.size) :
    b.region i = b.region j ↔
      ∃ c r, InBlock bw bh c r (b.frame.site i) ∧ InBlock bw bh c r (b.frame.site j) := by
  constructor
  · intro heq
    have hnamed : b.region i ≠ none := by
      rw [h.region_eq i hi]
      exact Option.some_ne_none _
    obtain ⟨hx, hy⟩ := (h.sameRegion_iff hi hj).mp ⟨heq, hnamed⟩
    exact ⟨_, _, (h.inBlock_site_iff hb hi).mpr ⟨rfl, rfl⟩,
      (h.inBlock_site_iff hb hj).mpr ⟨hx.symm, hy.symm⟩⟩
  · rintro ⟨c, r, hci, hcj⟩
    rw [h.region_of_inBlock hb hi hci, h.region_of_inBlock hb hj hcj]

theorem region_of_lt (hx : x < b.width) (hy : y < b.height) :
    b.region (y * b.width + x) = some (.number (x / bw + y / bh * (b.width / bw) : Nat)) := by
  have hcell := hb.cellAt?_of_lt hx hy
  obtain ⟨hlt, hsite⟩ := hb.cellAt?_eq_some.mp hcell
  refine h.region_of_inBlock hb hlt ?_
  rw [hsite]
  exact (inBlock_iff h.width_pos h.height_pos).mpr ⟨rfl, rfl⟩

theorem region_right_ne_iff (hx : x + 1 < b.width) (hy : y < b.height) :
    b.region (y * b.width + x) ≠ b.region (y * b.width + (x + 1)) ↔ (x + 1) % bw = 0 := by
  rw [h.region_of_lt hb (Nat.lt_of_succ_lt hx) hy, h.region_of_lt hb hx hy, ← succ_div_ne_iff, Ne,
    Option.some.injEq, Region.number.injEq, Int.natCast_inj, Nat.add_right_cancel_iff]

theorem region_below_ne_iff (hx : x < b.width) (hy : y + 1 < b.height) :
    b.region (y * b.width + x) ≠ b.region ((y + 1) * b.width + x) ↔ (y + 1) % bh = 0 := by
  have hacross : 0 < b.width / bw :=
    Nat.div_pos (Nat.le_of_dvd b.frame.width_pos h.dvd_width) h.width_pos
  rw [h.region_of_lt hb hx (Nat.lt_of_succ_lt hy), h.region_of_lt hb hx hy, ← succ_div_ne_iff, Ne,
    Option.some.injEq, Region.number.injEq, Int.natCast_inj, Nat.add_left_cancel_iff,
    Nat.mul_right_cancel_iff hacross]

end Boxed

/-- On a full rectangle of any sides, boxes whose sides divide them make regions of its
blocks: one region for each block, numbered row by row from zero without a gap, and
each of as many cells as a block. -/
theorem assignRegions_blocks {width height bw bh : Nat} (hw : 0 < width) (hh : 0 < height)
    (hbw : 0 < bw) (hbh : 0 < bh) (hdw : bw ∣ width) (hdh : bh ∣ height) :
    (∃ b₀, rectangle width height = .ok b₀) ∧
    ∀ b₀ : Board, b₀.Rectangular → b₀.width = width → b₀.height = height →
      ∃ b, b₀.assignRegions ⟨bw, bh⟩ = .ok b ∧ b.frame = b₀.frame ∧ b.values = b₀.values ∧
        (∀ i ∈ b.cells, ∀ j ∈ b.cells, b.region i = b.region j ↔
          ∃ c r, InBlock bw bh c r (b.frame.site i) ∧ InBlock bw bh c r (b.frame.site j)) ∧
        (∀ i ∈ b.cells, ∀ c r, InBlock bw bh c r (b.frame.site i) →
          b.region i = some (.number (c + r * (width / bw) : Nat))) ∧
        (∀ region, (∃ i ∈ b.cells, b.region i = region) ↔
          ∃ k < width / bw * (height / bh), region = some (.number (k : Nat))) ∧
        ∀ k < width / bw * (height / bh),
          (b.cells.filter fun i => b.region i = some (.number (k : Nat))).length = bw * bh := by
  refine ⟨exists_rectangle (Int.natCast_pos.mpr hw) (Int.natCast_pos.mpr hh), ?_⟩
  rintro b₀ hb₀ rfl rfl
  obtain ⟨b, hb⟩ := exists_assignRegions hbw hbh hdw hdh
  have hframe := assignRegions_frame hb
  have hrect := hb₀.congr hframe (assignRegions_listed hb)
  have hboxed : b.Boxed bw bh :=
    boxed_of_assignRegions (Int.natCast_pos.mpr hbw) (Int.natCast_pos.mpr hbh) hb hrect
  have hwidth : b.width = b₀.width := congrArg Frame.width hframe
  have hheight : b.height = b₀.height := congrArg Frame.height hframe
  have hcells {i : Nat} (hi : i ∈ b.cells) : i < b.frame.size :=
    hrect.listed ▸ List.mem_range.mp hi
  rw [← hwidth, ← hheight, Nat.mul_comm (b.width / bw)]
  refine ⟨b, hb, hframe, assignRegions_values hb, fun i hi j hj => ?_, fun i hi c r => ?_,
    fun region => ?_, fun k hk => ?_⟩
  · exact hboxed.region_eq_iff hrect (hcells hi) (hcells hj)
  · exact hboxed.region_of_inBlock hrect (hcells hi)
  · have hmem : region ∈ Rules.regionsOf b ↔ ∃ i ∈ b.cells, b.region i = region := by
      rw [Rules.mem_regionsOf]
      simp only [cells, List.mem_range]
    rw [← hmem, hboxed.mem_regionsOf_iff hrect]
    simp only [eq_comm]
  · exact hboxed.length_regionCells hrect hk

theorem assignRegions_blocks_sixFour : 0 < 6 ∧ 0 < 4 ∧ 3 ∣ 6 ∧ 2 ∣ 4 ∧
    ∃ b₀ b, rectangle 6 4 = .ok b₀ ∧ b₀.assignRegions ⟨3, 2⟩ = .ok b ∧
      b.region 17 = some (.number 3) ∧
      (b.cells.filter fun i => b.region i = some (.number 3)).length = 6 := by
  have hboard : ∃ b₀, rectangle 6 4 = .ok b₀ ∧ b₀.Rectangular ∧ b₀.width = 6 ∧ b₀.height = 4 ∧
      b₀.listed = 24 ∧ b₀.frame.site 17 = ⟨5, 2⟩ := ⟨_, rfl, ⟨rfl, rfl⟩, rfl, rfl, rfl, rfl⟩
  obtain ⟨b₀, hb₀, hrect, hwidth, hheight, hlisted, hsite⟩ := hboard
  obtain ⟨-, hall⟩ := @assignRegions_blocks 6 4 3 2 (by decide) (by decide) (by decide)
    (by decide) (by decide) (by decide)
  obtain ⟨b, hb, hframe, -, -, hnumber, -, hcount⟩ := hall b₀ hrect hwidth hheight
  have hmem : 17 ∈ b.cells := by
    rw [cells, assignRegions_listed hb, hlisted]
    decide
  refine ⟨by decide, by decide, by decide, by decide, b₀, b, hb₀, hb, ?_, hcount 3 (by decide)⟩
  refine hnumber 17 hmem 1 1 ?_
  rw [hframe, hsite]
  exact ⟨⟨by decide, by decide⟩, by decide, by decide⟩

end Board

end GridFill
