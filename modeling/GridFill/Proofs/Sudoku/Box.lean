/-
# `GridFill.Proofs.Sudoku.Box` — boxes cut a board evenly

On a full rectangle whose sides are multiples of those of a box, the box of a
cell is known by two numbers, how many boxes stand to the left of it and how
many above; its number counts the boxes row by row (`tile`).  Two cells have the
same number exactly when both counts agree (`tile_eq_iff`), every number below
the number of boxes is used, and each box holds as many cells as its sides say
(`card_tile`).

For the squares of a sudoku that is what the win condition asks of the regions
(`Boxed.split`).
-/
import Mathlib.Data.Finset.Prod
import Mathlib.Data.List.Perm.Subperm
import GridFill.Proofs.Rules.Win
import GridFill.Sudoku.Basic

namespace GridFill

/-! ## Numbering the boxes

A cell is known by its box and by its place in the box, each of them a pair of a
quotient and a remainder in one number. -/

theorem add_mul_mod_div {a c k : Nat} (ha : a < k) : (a + c * k) % k = a ∧ (a + c * k) / k = c := by
  have hk : 0 < k := Nat.zero_lt_of_lt ha
  constructor
  · rw [Nat.add_mul_mod_self_right, Nat.mod_eq_of_lt ha]
  · rw [Nat.add_mul_div_right _ _ hk, Nat.div_eq_of_lt ha, Nat.zero_add]

theorem add_mul_lt {a c k l : Nat} (ha : a < k) (hc : c < l) : a + c * k < l * k := by
  have h := Nat.mul_le_mul_right k (Nat.succ_le_of_lt hc)
  rw [Nat.succ_mul] at h
  omega

theorem add_mul_inj {a a' c c' k : Nat} (ha : a < k) (ha' : a' < k) :
    a + c * k = a' + c' * k ↔ a = a' ∧ c = c' := by
  constructor
  · intro h
    obtain ⟨hmod, hdiv⟩ := add_mul_mod_div (c := c) ha
    obtain ⟨hmod', hdiv'⟩ := add_mul_mod_div (c := c') ha'
    rw [h] at hmod hdiv
    exact ⟨hmod.symm.trans hmod', hdiv.symm.trans hdiv'⟩
  · rintro ⟨rfl, rfl⟩
    rfl

/-- The number of the box of a cell on a board that is `across` boxes wide, with
boxes of `bw` by `bh` cells. -/
def tile (across bw bh i : Nat) : Nat :=
  i % (across * bw) / bw + i / (across * bw) / bh * across

/-- The cell at a place of a box. -/
def tileCell (across bw bh k : Nat) (p : Nat × Nat) : Nat :=
  (p.1 + k % across * bw) + (p.2 + k / across * bh) * (across * bw)

section

variable {across down bw bh i j k : Nat} (hbw : 0 < bw) (ha : 0 < across)

include hbw ha

theorem mod_div_lt : i % (across * bw) / bw < across :=
  Nat.div_lt_of_lt_mul (Nat.mul_comm across bw ▸ Nat.mod_lt _ (Nat.mul_pos ha hbw))

/-- Two cells lie in the same box exactly when they have as many boxes to the
left and as many above. -/
theorem tile_eq_iff :
    tile across bw bh i = tile across bw bh j ↔
      i % (across * bw) / bw = j % (across * bw) / bw ∧
        i / (across * bw) / bh = j / (across * bw) / bh :=
  add_mul_inj (mod_div_lt hbw ha) (mod_div_lt hbw ha)

theorem tile_lt (hi : i < across * bw * (down * bh)) : tile across bw bh i < down * across := by
  refine add_mul_lt (mod_div_lt hbw ha) (Nat.div_lt_of_lt_mul ?_)
  rw [Nat.mul_comm bh]
  exact Nat.div_lt_of_lt_mul hi

end

section

variable {across down bw bh i k : Nat} {p : Nat × Nat}

section

variable (ha : 0 < across) (hp : p.1 < bw ∧ p.2 < bh)

include ha hp

theorem tileCell_mod_div :
    tileCell across bw bh k p % (across * bw) = p.1 + k % across * bw ∧
      tileCell across bw bh k p / (across * bw) = p.2 + k / across * bh :=
  add_mul_mod_div (add_mul_lt hp.1 (Nat.mod_lt _ ha))

theorem tile_tileCell : tile across bw bh (tileCell across bw bh k p) = k := by
  obtain ⟨hx, hy⟩ := tileCell_mod_div (k := k) ha hp
  rw [tile, hx, hy, (add_mul_mod_div hp.1).2, (add_mul_mod_div hp.2).2, Nat.mul_comm,
    Nat.mod_add_div]

theorem tileCell_lt (hk : k < down * across) :
    tileCell across bw bh k p < across * bw * (down * bh) := by
  rw [Nat.mul_comm (across * bw)]
  refine add_mul_lt (add_mul_lt hp.1 (Nat.mod_lt _ ha)) (add_mul_lt hp.2 ?_)
  exact Nat.div_lt_of_lt_mul (Nat.mul_comm down across ▸ hk)

end

/-- The place of a cell in its box. -/
def placeInTile (across bw bh i : Nat) : Nat × Nat :=
  (i % (across * bw) % bw, i / (across * bw) % bh)

theorem tileCell_placeInTile (hbw : 0 < bw) (ha : 0 < across) :
    tileCell across bw bh (tile across bw bh i) (placeInTile across bw bh i) = i := by
  obtain ⟨hx, hy⟩ := add_mul_mod_div (c := i / (across * bw) / bh) (mod_div_lt (i := i) hbw ha)
  rw [tileCell, tile, hx, hy, placeInTile, Nat.mod_add_div', Nat.mod_add_div', Nat.mod_add_div']

theorem placeInTile_tileCell (ha : 0 < across) (hp : p.1 < bw ∧ p.2 < bh) :
    placeInTile across bw bh (tileCell across bw bh k p) = p := by
  obtain ⟨hx, hy⟩ := tileCell_mod_div (k := k) ha hp
  rw [placeInTile, hx, hy, (add_mul_mod_div hp.1).1, (add_mul_mod_div hp.2).1]

/-- Every box holds `bw * bh` cells. -/
theorem card_tile (hbw : 0 < bw) (hbh : 0 < bh) (ha : 0 < across) (hk : k < down * across) :
    ((List.range (across * bw * (down * bh))).filter fun i => tile across bw bh i = k).length =
      bw * bh := by
  let places := List.range bw ×ˢ List.range bh
  have hplace : ∀ p, p ∈ places ↔ p.1 < bw ∧ p.2 < bh := by
    intro p
    rw [List.mem_product, List.mem_range, List.mem_range]
  have hlength : (places.map (tileCell across bw bh k)).length = bw * bh := by
    rw [List.length_map, List.length_product, List.length_range, List.length_range]
  rw [← hlength]
  refine List.Perm.length_eq ((List.perm_ext_iff_of_nodup ?_ ?_).mpr fun i => ?_)
  · exact List.nodup_range.filter _
  · refine (List.nodup_range.product List.nodup_range).map_on fun p hp q hq heq => ?_
    rw [← placeInTile_tileCell (k := k) ha ((hplace p).mp hp), heq,
      placeInTile_tileCell ha ((hplace q).mp hq)]
  · rw [List.mem_filter, List.mem_range, decide_eq_true_iff, List.mem_map]
    constructor
    · rintro ⟨-, rfl⟩
      exact ⟨placeInTile across bw bh i, (hplace _).mpr ⟨Nat.mod_lt _ hbw, Nat.mod_lt _ hbh⟩,
        tileCell_placeInTile hbw ha⟩
    · rintro ⟨p, hp, rfl⟩
      have hp := (hplace p).mp hp
      exact ⟨tileCell_lt ha hp hk, tile_tileCell ha hp⟩

end

/-! ## Boxes as regions

Assigning regions writes the number of its box into every listed cell, and touches
nothing else. -/

namespace Board

variable {b b₀ : Board} {box : Box} {perRow : Int} {i j left : Nat}

theorem region_putRegion_self {r : Option Region} (hi : i < b.frame.size) :
    (b.putRegion i r).region i = r := by
  have hi : i < b.regions.size := by rw [b.regions_size]; exact hi
  simp [region, putRegion, hi]

theorem region_putRegion_of_ne {r : Option Region} (h : j ≠ i) :
    (b.putRegion i r).region j = b.region j := by
  simp [region, putRegion, Array.getElem?_setIfInBounds_ne h.symm]

theorem numberBoxes_frame : (b.numberBoxes box perRow i left).frame = b.frame := by
  induction left generalizing b i with
  | zero => rfl
  | succ left ih => exact ih

theorem numberBoxes_values : (b.numberBoxes box perRow i left).values = b.values := by
  induction left generalizing b i with
  | zero => rfl
  | succ left ih => exact ih

theorem numberBoxes_listed : (b.numberBoxes box perRow i left).listed = b.listed := by
  induction left generalizing b i with
  | zero => rfl
  | succ left ih => exact ih

theorem region_numberBoxes_of_lt (h : j < i) :
    (b.numberBoxes box perRow i left).region j = b.region j := by
  induction left generalizing b i with
  | zero => rfl
  | succ left ih =>
      rw [numberBoxes, ih (Nat.lt_succ_of_lt h), region_putRegion_of_ne (Nat.ne_of_lt h)]

theorem region_numberBoxes (hi : i ≤ j) (hj : j < i + left) (hsize : j < b.frame.size) :
    (b.numberBoxes box perRow i left).region j =
      some (.number (box.number perRow (b.frame.site j))) := by
  induction left generalizing b i with
  | zero => omega
  | succ left ih =>
      rw [numberBoxes]
      rcases Nat.eq_or_lt_of_le hi with rfl | hlt
      · rw [region_numberBoxes_of_lt (Nat.lt_succ_self i), region_putRegion_self hsize]
      · exact ih hlt (by omega) hsize

theorem splits_zero (length : Nat) : splits length 0 = .error .zeroModulus := rfl

theorem splits_of_ne_zero {length : Nat} {side : Int} (h : side ≠ 0) :
    splits length side = .ok (decide (side ∣ length)) := by
  rw [splits, if_neg h]
  exact congrArg Except.ok (decide_eq_decide.mpr Int.dvd_iff_emod_eq_zero.symm)

theorem assignRegions_eq_ok :
    b₀.assignRegions box = .ok b ↔
      (box.width ≠ 0 ∧ box.height ≠ 0) ∧ (box.width ∣ b₀.width ∧ box.height ∣ b₀.height) ∧
        numberBoxes box ((b₀.width : Int).fdiv box.width) b₀ 0 b₀.listed = b := by
  unfold assignRegions
  by_cases hw : box.width = 0
  · simp [splits_zero, hw, bind, Except.bind]
  rw [splits_of_ne_zero hw]
  by_cases hh : box.height = 0
  · by_cases h : box.width ∣ b₀.width <;>
      simp [splits_zero, hh, h, bind, Except.bind, pure, Except.pure, throw, throwThe,
        MonadExceptOf.throw]
  rw [splits_of_ne_zero hh]
  by_cases h : box.width ∣ b₀.width <;> by_cases h' : box.height ∣ b₀.height <;>
    simp [hw, hh, h, h', bind, Except.bind, pure, Except.pure, throw, throwThe,
      MonadExceptOf.throw]

section

variable (h : b₀.assignRegions box = .ok b)

include h

theorem assignRegions_frame : b.frame = b₀.frame := by
  obtain ⟨-, -, rfl⟩ := assignRegions_eq_ok.mp h
  exact numberBoxes_frame

theorem assignRegions_listed : b.listed = b₀.listed := by
  obtain ⟨-, -, rfl⟩ := assignRegions_eq_ok.mp h
  exact numberBoxes_listed

theorem assignRegions_values : b.values = b₀.values := by
  obtain ⟨-, -, rfl⟩ := assignRegions_eq_ok.mp h
  exact numberBoxes_values

theorem region_assignRegions (hi : i < b₀.listed) : b.region i =
    some (.number (box.number ((b₀.width : Int).fdiv box.width) (b₀.frame.site i))) := by
  obtain ⟨-, -, rfl⟩ := assignRegions_eq_ok.mp h
  exact region_numberBoxes (Nat.zero_le i) (by omega) (Nat.lt_of_lt_of_le hi b₀.listed_le)

end

/-- The sides of the board are multiples of `bw` and `bh`, and the region of every
cell is the number of its box. -/
structure Boxed (b : Board) (bw bh : Nat) : Prop where
  width_pos : 0 < bw
  height_pos : 0 < bh
  dvd_width : bw ∣ b.width
  dvd_height : bh ∣ b.height
  region_eq : ∀ i < b.frame.size, b.region i = some (.number (tile (b.width / bw) bw bh i : Nat))

/-- On a full rectangle the regions assigned are the numbers of the boxes. -/
theorem boxed_of_assignRegions (hw : 0 < box.width) (hh : 0 < box.height)
    (h : b₀.assignRegions box = .ok b) (hb : b.Rectangular) :
    b.Boxed box.width.toNat box.height.toNat := by
  obtain ⟨-, ⟨hdw, hdh⟩, -⟩ := assignRegions_eq_ok.mp h
  have hframe := assignRegions_frame h
  have hlisted := assignRegions_listed h
  have hb₀ : b₀.Rectangular := hb.congr hframe.symm hlisted.symm
  have hwidth : b.width = b₀.width := congrArg Frame.width hframe
  have hheight : b.height = b₀.height := congrArg Frame.height hframe
  obtain ⟨bw, bh⟩ := box
  lift bw to Nat using Int.le_of_lt hw
  lift bh to Nat using Int.le_of_lt hh
  have hdw : bw ∣ b₀.width := Int.natCast_dvd_natCast.mp hdw
  have hdh : bh ∣ b₀.height := Int.natCast_dvd_natCast.mp hdh
  refine ⟨Int.natCast_pos.mp hw, Int.natCast_pos.mp hh, hwidth ▸ hdw, hheight ▸ hdh,
    fun i hi => ?_⟩
  rw [hframe] at hi
  rw [region_assignRegions h (by rw [hb₀.listed]; exact hi), hb₀.site_eq hi, hwidth, tile,
    Int.toNat_natCast, Nat.div_mul_cancel hdw]
  simp only [Box.number, ← Int.ofNat_fdiv, Int.toNat_natCast]
  norm_cast

/-! ## The regions of a board with boxes

The numbers of the boxes have no gap and each of them stands in as many cells. -/

namespace Boxed

variable {bw bh : Nat}

theorem exists_sides (h : b.Boxed bw bh) :
    ∃ across down, 0 < across ∧ b.width = across * bw ∧ b.height = down * bh ∧
      b.width / bw = across := by
  obtain ⟨across, ha⟩ := h.dvd_width
  obtain ⟨down, hd⟩ := h.dvd_height
  have hpos : 0 < b.width := b.frame.width_pos
  refine ⟨across, down, ?_, ?_, ?_, ?_⟩
  · exact Nat.pos_of_ne_zero fun h0 => by simp [ha, h0] at hpos
  · rw [ha, Nat.mul_comm]
  · rw [hd, Nat.mul_comm]
  · rw [ha, Nat.mul_div_cancel_left _ h.width_pos]

theorem sameRegion_iff (h : b.Boxed bw bh) (hi : i < b.frame.size) (hj : j < b.frame.size) :
    Rules.SameRegion b i j ↔
      i % b.width / bw = j % b.width / bw ∧ i / b.width / bh = j / b.width / bh := by
  obtain ⟨across, down, ha, hw, -, hdiv⟩ := h.exists_sides
  rw [Rules.SameRegion, h.region_eq i hi, h.region_eq j hj, hdiv, hw, ← tile_eq_iff h.width_pos ha]
  simp

variable (hb : b.Rectangular) (h : b.Boxed bw bh)

include hb h

theorem mem_regionsOf_iff {r : Option Region} :
    r ∈ Rules.regionsOf b ↔
      ∃ k < b.height / bh * (b.width / bw), some (Region.number (k : Nat)) = r := by
  obtain ⟨across, down, ha, hw, hh, hdiv⟩ := h.exists_sides
  have hsize : b.frame.size = across * bw * (down * bh) := by rw [hb.size_eq, hw, hh]
  rw [Rules.mem_regionsOf, hb.listed, hdiv, hh, Nat.mul_div_cancel _ h.height_pos]
  constructor
  · rintro ⟨i, hi, rfl⟩
    refine ⟨tile across bw bh i, tile_lt h.width_pos ha (hsize ▸ hi), ?_⟩
    rw [h.region_eq i hi, hdiv]
  · rintro ⟨k, hk, rfl⟩
    have hcorner : ((0, 0) : Nat × Nat).1 < bw ∧ ((0, 0) : Nat × Nat).2 < bh :=
      ⟨h.width_pos, h.height_pos⟩
    have hlt : tileCell across bw bh k (0, 0) < b.frame.size :=
      hsize ▸ tileCell_lt ha hcorner hk
    refine ⟨_, hlt, ?_⟩
    rw [h.region_eq _ hlt, hdiv, tile_tileCell ha hcorner]

theorem length_regionsOf : (Rules.regionsOf b).length = b.height / bh * (b.width / bw) := by
  have hperm : (Rules.regionsOf b).Perm
      ((List.range (b.height / bh * (b.width / bw))).map fun k =>
        some (Region.number (k : Nat))) := by
    refine (List.perm_ext_iff_of_nodup (Rules.nodup_regionsOf b) ?_).mpr fun r => ?_
    · refine List.nodup_range.map fun k l hkl => ?_
      simpa using hkl
    · rw [h.mem_regionsOf_iff hb, List.mem_map]
      simp only [List.mem_range]
  rw [hperm.length_eq, List.length_map, List.length_range]

theorem length_regionCells {k : Nat} (hk : k < b.height / bh * (b.width / bw)) :
    (Rules.regionCells b (some (.number k))).length = bw * bh := by
  obtain ⟨across, down, ha, hw, hh, hdiv⟩ := h.exists_sides
  rw [hdiv, hh, Nat.mul_div_cancel _ h.height_pos] at hk
  rw [← card_tile h.width_pos h.height_pos ha hk, Rules.regionCells, cells, hb.listed, hb.size_eq,
    hw, hh]
  refine congrArg List.length (List.filter_congr fun i hi => decide_eq_decide.mpr ?_)
  have hi : i < b.frame.size := by
    rw [hb.size_eq, hw, hh]
    exact List.mem_range.mp hi
  rw [h.region_eq i hi, hdiv, Option.some.injEq, Region.number.injEq, Int.natCast_inj]

/-- Boxes with as many cells as a square has rows cut it as a sudoku needs it. -/
theorem split (hsquare : b.height = b.width) (harea : bw * bh = b.width) : Rules.Split b where
  square := hsquare
  named i hi := by
    rw [h.region_eq i hi]
    exact Option.some_ne_none _
  count := by
    have hacross : b.width / bw = bh := by rw [← harea, Nat.mul_div_cancel_left _ h.width_pos]
    have hdown : b.height / bh = bw := by
      rw [hsquare, ← harea, Nat.mul_div_cancel _ h.height_pos]
    rw [h.length_regionsOf hb, hacross, hdown, harea]
  cells r hr := by
    obtain ⟨k, hk, rfl⟩ := (h.mem_regionsOf_iff hb).mp hr
    rw [h.length_regionCells hb hk, harea]

end Boxed

end Board

end GridFill
