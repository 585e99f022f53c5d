/-
# `GridFill.Proofs.Rules.Standing` — winning seen cell by cell

A rule set judges a whole board by its groups of values, and a single value by a look
at the other cells.  The two views agree: a board is won when it is finished and every
value on it would be let stand where it is (`Rules.Standing`).  For rows and columns
that only need distinct values, finished means that no cell is empty; for a sudoku it
also means that the board is a square, the values are in range and the regions cut it
into as many parts of as many cells as it has rows.

Both views come down to related cells having different values, the one by
`decides_wins_rowUnique`, `decides_wins_latin` and `wonSudoku_iff`, the other by
`allows_iff`.  The regions are counted here as a set, and their cells too, without a
list of them.
-/
import Mathlib.Data.Finset.Card
import GridFill.Proofs.Rules.Givens

namespace GridFill.Rules

/-- Every value on the board may stand in its cell. -/
def Standing (r : Rules) (b : Board) : Prop :=
  ∀ i < b.listed, ∀ v : Int, b.value i = some v → r.allows b i v = true

section

variable {r : Rules} {b : Board} (hb : b.Rectangular)

include hb

/-- Every value may stand exactly when peers differ. -/
theorem standing_iff : r.Standing b ↔ Separate b (r.Peers b) := by
  constructor
  · intro h i hi j hj hne hp heq
    obtain ⟨hlt, hv⟩ := Board.mem_filledCells.mp hi
    obtain ⟨v, hv⟩ := Option.ne_none_iff_exists'.mp hv
    exact (allows_iff hb).mp (h i hlt v hv) j hj hne hp (heq ▸ hv)
  · intro h i hlt v hv
    refine (allows_iff hb).mpr fun j hj hne hp hvj => ?_
    have hi : i ∈ b.filledCells := Board.mem_filledCells.mpr ⟨hlt, by simp [hv]⟩
    exact h i hi j hj hne hp (hv.trans hvj.symm)

theorem decides_wins_standing (hr : r ≠ .sudoku)
    (hv : ∀ i, ∀ v : Int, b.value i = some v → 0 ≤ v) :
    DecidesIf (r.Markable b) (r.wins b) (b.isComplete = true ∧ r.Standing b) := by
  rw [standing_iff hb]
  cases r with
  | permissive =>
      exact (decides_ok ⟨fun h => ⟨h, fun _ _ _ _ _ hp => hp.elim⟩, And.left⟩).decidesIf
  | rowUnique => exact decides_wins_rowUnique hb hv
  | latin =>
      refine (decides_wins_latin hb hv).congr (and_congr_right fun _ => ?_)
      exact separate_or.symm
  | sudoku => exact absurd rfl hr

end

/-! ## Regions as sets of cells

The lists that the program goes through have no repetitions, so their lengths are
the sizes of these sets. -/

/-- The regions of the listed cells; `none` is one of them if a cell has no region. -/
def regionSet (b : Board) : Finset (Option Region) := (Finset.range b.listed).image b.region

/-- The listed cells of a region. -/
def regionPart (b : Board) (r : Option Region) : Finset Nat :=
  (Finset.range b.listed).filter fun i => b.region i = r

section

variable {b : Board}

theorem card_regionSet (b : Board) : (regionSet b).card = (regionsOf b).length := by
  have hset : (regionsOf b).toFinset = regionSet b := by
    ext r
    simp [regionSet, mem_regionsOf]
  rw [← hset, List.toFinset_card_of_nodup (nodup_regionsOf b)]

theorem card_regionPart (b : Board) (r : Option Region) :
    (regionPart b r).card = (regionCells b r).length := by
  have hnodup : (regionCells b r).Nodup := List.nodup_range.filter _
  have hset : (regionCells b r).toFinset = regionPart b r := by
    ext i
    simp [regionPart, mem_regionCells]
  rw [← hset, List.toFinset_card_of_nodup hnodup]

theorem split_iff (hb : b.Rectangular) : Split b ↔
    b.height = b.width ∧ (∀ i < b.listed, b.region i ≠ none) ∧ (regionSet b).card = b.width ∧
      ∀ r ∈ regionSet b, (regionPart b r).card = b.width := by
  have hmem : ∀ r, r ∈ regionSet b ↔ r ∈ regionsOf b := fun r => by
    simp [regionSet, mem_regionsOf]
  simp only [hmem, card_regionSet, card_regionPart, hb.listed]
  exact ⟨fun ⟨h1, h2, h3, h4⟩ => ⟨h1, h2, h3, h4⟩, fun ⟨h1, h2, h3, h4⟩ => ⟨h1, h2, h3, h4⟩⟩

theorem inRange_iff (hb : b.Rectangular) {n : Nat} : InRange b n ↔
    b.isComplete = true ∧ ∀ i < b.listed, ∀ v : Int, b.value i = some v → 1 ≤ v ∧ v ≤ n := by
  rw [isComplete_iff, hb.listed]
  constructor
  · intro h
    refine ⟨fun i hi => ?_, fun i hi v hv => ?_⟩
    · obtain ⟨v, hv, -⟩ := h i hi
      simp [hv]
    · obtain ⟨u, hu, hrange⟩ := h i hi
      cases hu.symm.trans hv
      exact hrange
  · rintro ⟨hcomplete, hrange⟩ i hi
    obtain ⟨v, hv⟩ := Option.ne_none_iff_exists'.mp (hcomplete i hi)
    exact ⟨v, hv, hrange i hi v hv⟩

end

/-- The small sudoku with two corners given, filled in the one way there is. -/
def smallSquare : Board := (corners.board.put 1 (some 2)).put 2 (some 2)

end GridFill.Rules
