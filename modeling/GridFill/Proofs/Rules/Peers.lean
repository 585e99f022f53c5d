/-
# `GridFill.Proofs.Rules.Peers` — rule sets as a relation between cells

A rule set looks for the cells of a row or column through the coordinate table
and for those of a region among all cells.  What it forbids is in each case a
relation between two cells, which of them are peers, and that relation is
symmetric (`Peers.symm`) and does not depend on the values.  On a full rectangle
a value may stand in a cell exactly when no peer of the cell holds it
(`allows_iff`).
-/
import GridFill.Proofs.Board.Empty
import GridFill.Proofs.Board.Index
import GridFill.Rules

namespace GridFill

theorem Board.anyCell_iff {b : Board} {p : Nat → Bool} :
    b.anyCell p = true ↔ ∃ i < b.listed, p i = true := by
  unfold anyCell
  induction b.listed with
  | zero => simp
  | succ n ih =>
      rw [Nat.any_succ, Bool.or_eq_true, ih]
      constructor
      · rintro (⟨i, hi, hp⟩ | hp)
        · exact ⟨i, Nat.lt_succ_of_lt hi, hp⟩
        · exact ⟨n, Nat.lt_succ_self n, hp⟩
      · rintro ⟨i, hi, hp⟩
        rcases Nat.lt_succ_iff_lt_or_eq.mp hi with hi | rfl
        · exact .inl ⟨i, hi, hp⟩
        · exact .inr hp

namespace Rules

/-- Two cells lie in the same row. -/
def SameRow (b : Board) (i j : Nat) : Prop := (b.frame.site i).y = (b.frame.site j).y

/-- Two cells lie in the same column. -/
def SameCol (b : Board) (i j : Nat) : Prop := (b.frame.site i).x = (b.frame.site j).x

/-- Two cells have the same region, and have one at all. -/
def SameRegion (b : Board) (i j : Nat) : Prop := b.region i = b.region j ∧ b.region i ≠ none

/-- Two cells whose values have to differ under a rule set. -/
def Peers : Rules → Board → Nat → Nat → Prop
  | permissive, _, _, _ => False
  | rowUnique, b, i, j => SameRow b i j
  | latin, b, i, j => SameRow b i j ∨ SameCol b i j
  | sudoku, b, i, j => SameRow b i j ∨ SameCol b i j ∨ SameRegion b i j

instance (b : Board) (i j : Nat) : Decidable (SameRow b i j) := inferInstanceAs (Decidable (_ = _))

instance (b : Board) (i j : Nat) : Decidable (SameCol b i j) := inferInstanceAs (Decidable (_ = _))

instance (b : Board) (i j : Nat) : Decidable (SameRegion b i j) :=
  inferInstanceAs (Decidable (_ ∧ _))

instance (r : Rules) (b : Board) (i j : Nat) : Decidable (r.Peers b i j) :=
  match r with
  | permissive => inferInstanceAs (Decidable False)
  | rowUnique => inferInstanceAs (Decidable (SameRow b i j))
  | latin => inferInstanceAs (Decidable (SameRow b i j ∨ SameCol b i j))
  | sudoku => inferInstanceAs (Decidable (SameRow b i j ∨ SameCol b i j ∨ SameRegion b i j))

section

variable {r : Rules} {b : Board} {i j : Nat} {v : Int}

theorem SameRegion.symm (h : SameRegion b i j) : SameRegion b j i :=
  ⟨h.1.symm, h.1 ▸ h.2⟩

theorem Peers.symm (h : r.Peers b i j) : r.Peers b j i := by
  cases r with
  | permissive => exact h
  | rowUnique => exact Eq.symm h
  | latin => exact h.imp Eq.symm Eq.symm
  | sudoku => exact h.imp Eq.symm (Or.imp Eq.symm SameRegion.symm)

@[simp] theorem peers_put (k : Nat) (u : Option Int) :
    r.Peers (b.put k u) i j ↔ r.Peers b i j := by
  cases r <;> exact Iff.rfl

theorem peers_congr {b' : Board} (hf : b'.frame = b.frame) (hr : b'.regions = b.regions) :
    r.Peers b' i j ↔ r.Peers b i j := by
  have hregion := Board.region_congr hr
  cases r <;> simp only [Peers, SameRow, SameCol, SameRegion, hf, hregion]

/-! ## What the three scans find

Each of them goes through a list of cells that is described by a property, for one
other than the cell itself that holds the value. -/

theorem taken_iff {js : List Nat} :
    taken b i v js = true ↔ ∃ j ∈ js, j ≠ i ∧ b.value j = some v := by
  simp [taken, and_comm]

theorem taken_iff_of_mem {js : List Nat} {p : Nat → Prop}
    (hjs : ∀ j, j ∈ js ↔ j < b.frame.size ∧ p j) : taken b i v js = true ↔
      ∃ j < b.frame.size, j ≠ i ∧ p j ∧ b.value j = some v := by
  rw [taken_iff]
  constructor
  · rintro ⟨j, hj, hne, hv⟩
    obtain ⟨hlt, hp⟩ := (hjs j).mp hj
    exact ⟨j, hlt, hne, hp, hv⟩
  · rintro ⟨j, hlt, hne, hp, hv⟩
    exact ⟨j, (hjs j).mpr ⟨hlt, hp⟩, hne, hv⟩

variable (hb : b.Rectangular)

include hb

theorem takenInRow_iff : takenInRow b i v = true ↔
    ∃ j < b.frame.size, j ≠ i ∧ SameRow b i j ∧ b.value j = some v := by
  refine taken_iff_of_mem fun j => ?_
  rw [hb.mem_row, SameRow, eq_comm]

theorem takenInCol_iff : takenInCol b i v = true ↔
    ∃ j < b.frame.size, j ≠ i ∧ SameCol b i j ∧ b.value j = some v := by
  refine taken_iff_of_mem fun j => ?_
  rw [hb.mem_col, SameCol, eq_comm]

theorem takenInRegion_iff : takenInRegion b i v = true ↔
    ∃ j < b.frame.size, j ≠ i ∧ SameRegion b i j ∧ b.value j = some v := by
  unfold takenInRegion SameRegion
  cases hr : b.region i with
  | none => simp
  | some region =>
      rw [Board.anyCell_iff, hb.listed]
      simp only [Bool.and_eq_true, beq_iff_eq, bne_iff_ne]
      constructor
      · rintro ⟨j, hlt, ⟨hv, hne⟩, hj⟩
        exact ⟨j, hlt, hne, ⟨hj.symm, by simp⟩, hv⟩
      · rintro ⟨j, hlt, hne, ⟨hj, -⟩, hv⟩
        exact ⟨j, hlt, ⟨hv, hne⟩, hj.symm⟩

/-- A value may stand in a cell exactly when no other cell that is its peer
holds the value. -/
theorem allows_iff : r.allows b i v = true ↔
    ∀ j < b.frame.size, j ≠ i → r.Peers b i j → b.value j ≠ some v := by
  cases r with
  | permissive => exact ⟨fun _ _ _ _ h => h.elim, fun _ => rfl⟩
  | rowUnique =>
      rw [allows, Bool.not_eq_true', ← Bool.not_eq_true, takenInRow_iff hb]
      exact ⟨fun h j hlt hne hp hv => h ⟨j, hlt, hne, hp, hv⟩,
        fun h ⟨j, hlt, hne, hp, hv⟩ => h j hlt hne hp hv⟩
  | latin =>
      rw [allows, Bool.and_eq_true, Bool.not_eq_true', Bool.not_eq_true', ← Bool.not_eq_true,
        ← Bool.not_eq_true, takenInRow_iff hb, takenInCol_iff hb]
      constructor
      · rintro ⟨hrow, hcol⟩ j hlt hne (hp | hp) hv
        · exact hrow ⟨j, hlt, hne, hp, hv⟩
        · exact hcol ⟨j, hlt, hne, hp, hv⟩
      · intro h
        exact ⟨fun ⟨j, hlt, hne, hp, hv⟩ => h j hlt hne (.inl hp) hv,
          fun ⟨j, hlt, hne, hp, hv⟩ => h j hlt hne (.inr hp) hv⟩
  | sudoku =>
      rw [allows, Bool.and_eq_true, Bool.and_eq_true, Bool.not_eq_true', Bool.not_eq_true',
        Bool.not_eq_true', ← Bool.not_eq_true, ← Bool.not_eq_true, ← Bool.not_eq_true,
        takenInRow_iff hb, takenInCol_iff hb, takenInRegion_iff hb]
      constructor
      · rintro ⟨⟨hrow, hcol⟩, hregion⟩ j hlt hne (hp | hp | hp) hv
        · exact hrow ⟨j, hlt, hne, hp, hv⟩
        · exact hcol ⟨j, hlt, hne, hp, hv⟩
        · exact hregion ⟨j, hlt, hne, hp, hv⟩
      · intro h
        exact ⟨⟨fun ⟨j, hlt, hne, hp, hv⟩ => h j hlt hne (.inl hp) hv,
          fun ⟨j, hlt, hne, hp, hv⟩ => h j hlt hne (.inr (.inl hp)) hv⟩,
          fun ⟨j, hlt, hne, hp, hv⟩ => h j hlt hne (.inr (.inr hp)) hv⟩

end

end Rules

end GridFill
