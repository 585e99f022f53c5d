/-
# `GridFill.Proofs.Board.Views` — the views of a board

The values of a board can be read as one list, row by row, or cell by cell, and a
cell can be pointed at by its place in the list or by its coordinates.  On a full
rectangle these say the same: the list is the rows one behind the other
(`Rectangular.snapshot_eq`), the cell in column `x` and row `y` is the one at place
`y * width + x`, and there are no cells elsewhere (`Rectangular.cellAt?_eq_none_iff`).

What is read can be written again.  A board made of the rows of a board is that board
(`HasRows.reread`), and a snapshot that is loaded is the snapshot taken afterwards
(`snapshot_of_load`).  Zero is no value, which is why it is only the values read, and
not the ones given, that come back as they are.
-/
import GridFill.Proofs.Board.Rows

namespace GridFill.Board

variable {b b₀ : Board} {i : Nat} {rows : List (List (Option Int))}

theorem entry_comp_entry : entry ∘ entry = entry := by
  funext v
  by_cases hv : v = some 0 <;> simp [entry, hv]

/-! ## Pointing at a cell

By its number, or by its coordinates, which on a full rectangle are a column and a
row of the board and nothing else. -/

theorem locate_index (hi : i < b.listed) : b.locate (.index i) = .ok i := by
  have hnonneg : ¬ (i : Int) < 0 := by omega
  have hlisted : (0 : Int) ≤ i ∧ (i : Int) < b.listed := by omega
  simp only [locate, if_neg hnonneg, if_pos hlisted, Int.toNat_natCast]

theorem locate_coords {x y : Int} (h : b.frame.cellAt? x y = some i) :
    b.locate (.coords x y) = .ok i := by
  rw [locate, h]

namespace Rectangular

theorem place_lt (hb : b.Rectangular) {x y : Nat} (hx : x < b.width) (hy : y < b.height) :
    y * b.width + x < b.frame.size :=
  (hb.cellAt?_eq_some.mp (hb.cellAt?_of_lt hx hy)).1

theorem cellAt?_eq_none_iff (hb : b.Rectangular) {x y : Int} :
    b.frame.cellAt? x y = none ↔ ¬ (0 ≤ x ∧ x < b.width ∧ 0 ≤ y ∧ y < b.height) := by
  constructor
  · rintro h ⟨hx, hx', hy, hy'⟩
    lift x to Nat using hx
    lift y to Nat using hy
    rw [hb.cellAt?_of_lt (Int.ofNat_lt.mp hx') (Int.ofNat_lt.mp hy')] at h
    cases h
  · intro h
    cases hcell : b.frame.cellAt? x y with
    | none => rfl
    | some i =>
        obtain ⟨hi, hsite⟩ := hb.cellAt?_eq_some.mp hcell
        obtain ⟨u, hu, hxu⟩ := hb.site_x_lt hi
        obtain ⟨v, hv, hyv⟩ := hb.site_y_lt hi
        rw [hsite] at hxu hyv
        dsimp only at hxu hyv
        exact absurd (by omega) h

theorem cellAt?_natCast_eq_some (hb : b.Rectangular) {x y : Nat} :
    b.frame.cellAt? x y = some i ↔ (x < b.width ∧ y < b.height) ∧ y * b.width + x = i := by
  constructor
  · intro h
    have hon : x < b.width ∧ y < b.height := by
      by_contra hoff
      rw [hb.cellAt?_eq_none_iff.mpr (by omega)] at h
      cases h
    rw [hb.cellAt?_of_lt hon.1 hon.2] at h
    exact ⟨hon, Option.some.inj h⟩
  · rintro ⟨⟨hx, hy⟩, rfl⟩
    exact hb.cellAt?_of_lt hx hy

/-! ## Reading all values

The snapshot goes through the cells in board order, as the rows do. -/

theorem snapshot_eq (hb : b.Rectangular) (h : b.rows = .ok rows) : b.snapshot = rows.flatten := by
  rw [hb.rows_eq] at h
  obtain rfl := Except.ok.inj h
  rw [flatten_map_range, snapshot, cells, hb.listed, hb.size_eq, Nat.mul_comm]

end Rectangular

/-! ## Writing what was read

Zero and an empty cell are written alike, so rows that were read give the same
board again, and a snapshot can be loaded into any board of as many cells. -/

theorem HasRows.reread (h : b.HasRows rows) : b.HasRows (rows.map fun r => r.map entry) where
  rectangular := h.rectangular
  width := List.forall_mem_map.mpr fun r hr => by rw [List.length_map, h.width r hr]
  height := by rw [List.length_map, h.height]
  value i := by
    rw [h.value, ← List.map_flatten, List.map_map, entry_comp_entry]

theorem ofRows_reread (h : ofRows rows = .ok b) :
    ofRows (rows.map fun r => r.map entry) = .ok b := by
  have hrows := hasRows_of_ofRows h
  obtain ⟨first, rest, hcons, -, -, -, -, hregion⟩ := ofRows_cases h
  have hne : rows ≠ [] := hcons ▸ List.cons_ne_nil first rest
  obtain ⟨b', hb'⟩ := exists_ofRows (by simpa using hne) b.frame.width_pos hrows.reread.width
  obtain ⟨-, -, -, -, -, -, -, hregion'⟩ := ofRows_cases hb'
  have hsame : b' = b := (hasRows_of_ofRows hb').unique hrows.reread fun i _ => by
    rw [hregion, hregion']
  rw [hb', hsame]

theorem snapshot_putFrom {vs : List (Option Int)} (h : vs.length = b.listed) :
    (b.putFrom 0 vs).snapshot = vs := by
  have hlength : (b.putFrom 0 vs).snapshot.length = vs.length := by
    rw [snapshot, cells, putFrom_listed, List.length_map, List.length_range, h]
  refine List.ext_getElem hlength fun k hk hk' => ?_
  have hlt : 0 + k < b.frame.size := by
    have := b.listed_le
    omega
  have hvalue := value_putFrom hlt vs
  rw [List.getElem?_eq_getElem hk', Option.getD_some, Nat.zero_add] at hvalue
  simp only [snapshot, cells, List.getElem_map, List.getElem_range, hvalue]

/-- A board takes a snapshot with a value for every listed cell, and shows it again. -/
theorem snapshot_of_load {vs : List (Option Int)} (h : vs.length = b.listed) :
    ∃ b', b.load vs = .ok b' ∧ b'.snapshot = vs.map entry := by
  refine ⟨b.putFrom 0 (vs.map entry), ?_, snapshot_putFrom (by rw [List.length_map, h])⟩
  rw [load, if_pos h]

/-- A board made of rows of equal length shows them, with zero read as an empty cell,
row by row and as one list.  A cell is the same by its place and by its coordinates,
and the coordinates on the board are the only ones with a cell.  The rows read make
the same board again, and the snapshot can be loaded into any board of as many
cells. -/
theorem ofRows_views {width : Nat} (hne : rows ≠ []) (hw : 0 < width)
    (hlen : ∀ r ∈ rows, r.length = width) :
    ∃ b, ofRows rows = .ok b ∧ b.width = width ∧ b.height = rows.length ∧
      (∃ read, b.rows = .ok read ∧ read = rows.map (fun r => r.map entry) ∧
        b.snapshot = read.flatten ∧ ofRows read = .ok b) ∧
      (∀ x < width, ∀ y < rows.length, ∃ i, b.locate (.index (y * width + x : Nat)) = .ok i ∧
        b.locate (.coords x y) = .ok i ∧ b.frame.cellAt? x y = some i ∧
        b.frame.site i = ⟨x, y⟩) ∧
      (∀ x y : Int, b.frame.cellAt? x y = none ↔
        ¬ (0 ≤ x ∧ x < width ∧ 0 ≤ y ∧ y < rows.length)) ∧
      ∀ b₀ : Board, b₀.listed = b.listed →
        ∃ b₁, b₀.load b.snapshot = .ok b₁ ∧ b₁.snapshot = b.snapshot := by
  obtain ⟨b, hb⟩ := exists_ofRows hne hw hlen
  have hrows := hasRows_of_ofRows hb
  have hrect := hrows.rectangular
  obtain ⟨r, hr⟩ := List.exists_mem_of_ne_nil rows hne
  have hwidth : b.width = width := (hrows.width r hr).symm.trans (hlen r hr)
  have hsnapshot := hrect.snapshot_eq hrows.rows_eq
  refine ⟨b, hb, hwidth, hrows.height.symm, ?_, fun x hx y hy => ?_, fun x y => ?_, ?_⟩
  · exact ⟨_, hrows.rows_eq, rfl, hsnapshot, ofRows_reread hb⟩
  · rw [← hwidth] at hx ⊢
    rw [hrows.height] at hy
    have hcell := hrect.cellAt?_of_lt hx hy
    have hlt := hrect.place_lt hx hy
    exact ⟨_, locate_index (hrect.listed ▸ hlt), locate_coords hcell, hcell,
      (hrect.cellAt?_eq_some.mp hcell).2⟩
  · rw [hrect.cellAt?_eq_none_iff, hwidth, hrows.height]
  · intro b₀ hb₀
    have hlength : b.snapshot.length = b₀.listed := by
      rw [snapshot, cells, List.length_map, List.length_range, hb₀]
    obtain ⟨b₁, hb₁, hread⟩ := snapshot_of_load hlength
    refine ⟨b₁, hb₁, ?_⟩
    rw [hread, hsnapshot, ← List.map_flatten, List.map_map, entry_comp_entry]

/-- Two rows of three, with empty cells written in both ways and a negative value. -/
def flatRows : List (List (Option Int)) :=
  [[some 4, none, some 0], [some 0, some (-7), some 4]]

theorem ofRows_views_flat : flatRows ≠ [] ∧ (∀ r ∈ flatRows, r.length = 3) ∧
    ∃ b, ofRows flatRows = .ok b ∧ b.rows = .ok [[some 4, none, none], [none, some (-7), some 4]] ∧
      b.snapshot = [some 4, none, none, none, some (-7), some 4] ∧
      b.locate (.index 5) = b.locate (.coords 2 1) ∧ b.frame.cellAt? 1 2 = none ∧
      b.frame.cellAt? (-1) 1 = none := by
  have hne : flatRows ≠ [] := by decide
  have hlen : ∀ r ∈ flatRows, r.length = 3 := by decide
  obtain ⟨b, hb, -, -, ⟨read, hread, rfl, hsnapshot, -⟩, hcells, hnone, -⟩ :=
    ofRows_views hne (by decide) hlen
  obtain ⟨i, hindex, hcoords, -⟩ := hcells 2 (by decide) 1 (by decide)
  refine ⟨hne, hlen, b, hb, hread, hsnapshot, hindex.trans hcoords.symm, ?_, ?_⟩
  · exact (hnone 1 2).mpr (by decide)
  · exact (hnone (-1) 1).mpr (by decide)

end GridFill.Board
