/-
# `GridFill.Proofs.Board.Index` — looking cells up by their coordinates

A frame keeps a table of its cells so that the rule sets need not search for
them.  The table answers what a search through all cells would: the last one
with the given coordinates, on the board or off it (`cellAt?_eq_lastBelow`), and
a row or column is the cells found at its coordinates one after the other
(`row_eq`, `col_eq`).

On a full rectangle every cell is found, at its own coordinates and nowhere
else, so that the row of a cell is the set of cells with the same `y`
(`mem_row`) and its column the set of those with the same `x` (`mem_col`).
-/
import Mathlib.Data.List.Basic
import Mathlib.Data.List.Induction
import GridFill.Board.Basic

namespace GridFill

/-! ## The last index that passes a test

`lastBelow` goes through all indices below a bound.  If a single one passes the
test, that is the one it finds. -/

theorem lastBelow_congr {p q : Nat → Bool} {n : Nat} (h : ∀ i < n, p i = q i) :
    lastBelow p n = lastBelow q n := by
  induction n with
  | zero => rfl
  | succ k ih =>
      rw [lastBelow, lastBelow, h k (Nat.lt_succ_self k),
        ih fun i hi => h i (Nat.lt_succ_of_lt hi)]

theorem lastBelow_eq_some_iff {p : Nat → Bool} {n i : Nat} :
    lastBelow p n = some i ↔ i < n ∧ p i = true ∧ ∀ j < n, p j = true → j ≤ i := by
  induction n with
  | zero => simp [lastBelow]
  | succ n ih =>
      rw [lastBelow]
      split
      next hp =>
        constructor
        · intro h
          obtain rfl := Option.some.inj h
          exact ⟨Nat.lt_succ_self _, hp, fun j hj _ => Nat.le_of_lt_succ hj⟩
        · rintro ⟨hi, -, hlast⟩
          exact congrArg some (Nat.le_antisymm (hlast n (Nat.lt_succ_self n) hp)
            (Nat.le_of_lt_succ hi))
      next hp =>
        rw [ih]
        constructor
        · rintro ⟨hi, hpi, hlast⟩
          refine ⟨Nat.lt_succ_of_lt hi, hpi, fun j hj hpj => hlast j ?_ hpj⟩
          have hne : j ≠ n := fun h => hp (h ▸ hpj)
          omega
        · rintro ⟨hi, hpi, hlast⟩
          have hne : i ≠ n := fun h => hp (h ▸ hpi)
          exact ⟨by omega, hpi, fun j hj => hlast j (Nat.lt_succ_of_lt hj)⟩

theorem lastBelow_eq_some {p : Nat → Bool} {n i : Nat} (h : lastBelow p n = some i) :
    i < n ∧ p i = true := by
  obtain ⟨hi, hp, -⟩ := lastBelow_eq_some_iff.mp h
  exact ⟨hi, hp⟩

theorem lastBelow_of_unique {p : Nat → Bool} {n i : Nat} (hi : i < n) (hp : p i = true)
    (huniq : ∀ j < n, p j = true → j = i) : lastBelow p n = some i :=
  lastBelow_eq_some_iff.mpr ⟨hi, hp, fun j hj hpj => Nat.le_of_eq (huniq j hj hpj)⟩

/-! ## The table

The cells are noted one after the other, and one that comes later takes the place
of an earlier one.  So in the end the table shows the last cell at each place, and
rows and columns are read off it. -/

namespace Site

theorem place?_eq_some {width height p : Nat} {s : Site} :
    s.place? width height = some p ↔
      (0 ≤ s.x ∧ s.x < width ∧ 0 ≤ s.y ∧ s.y < height) ∧
        s.y.toNat * width + s.x.toNat = p := by
  unfold place?
  split
  next h => simp [h]
  next h => simp [h]

theorem place?_lt {width height p : Nat} {s : Site} (h : s.place? width height = some p) :
    p < width * height := by
  obtain ⟨⟨hx, hx', hy, hy'⟩, rfl⟩ := place?_eq_some.mp h
  have hrow : s.y.toNat + 1 ≤ height := by omega
  calc s.y.toNat * width + s.x.toNat < s.y.toNat * width + width := by omega
    _ = width * (s.y.toNat + 1) := by rw [Nat.mul_succ, Nat.mul_comm]
    _ ≤ width * height := Nat.mul_le_mul_left width hrow

theorem eq_of_place? {width height p : Nat} {s t : Site} (hs : s.place? width height = some p)
    (ht : t.place? width height = some p) : s = t := by
  obtain ⟨⟨hx, hx', hy, hy'⟩, hp⟩ := place?_eq_some.mp hs
  obtain ⟨⟨hu, hu', hv, hv'⟩, hq⟩ := place?_eq_some.mp ht
  have hw : 0 < width := by omega
  have hxlt : s.x.toNat < width := by omega
  have hult : t.x.toNat < width := by omega
  have hyv : s.y.toNat = t.y.toNat := by
    have h1 : (s.y.toNat * width + s.x.toNat) / width = s.y.toNat := by
      rw [Nat.mul_comm, Nat.mul_add_div hw, Nat.div_eq_of_lt hxlt, Nat.add_zero]
    have h2 : (t.y.toNat * width + t.x.toNat) / width = t.y.toNat := by
      rw [Nat.mul_comm, Nat.mul_add_div hw, Nat.div_eq_of_lt hult, Nat.add_zero]
    rw [← h1, ← h2, hp, hq]
  rw [hyv] at hp
  obtain ⟨x, y⟩ := s
  obtain ⟨u, v⟩ := t
  dsimp only at *
  have hxu : x = u := by omega
  have hyv : y = v := by omega
  rw [hxu, hyv]

end Site

namespace SiteIndex

/-- Notes one cell at its place. -/
def note (width height : Nat) (grid : Array (Option Nat)) (s : Site × Nat) :
    Array (Option Nat) :=
  match s.1.place? width height with
  | some p => grid.setIfInBounds p (some s.2)
  | none => grid

theorem getElem?_note {width height p : Nat} {grid : Array (Option Nat)} {s : Site × Nat}
    (hp : p < grid.size) :
    (note width height grid s)[p]? =
      if s.1.place? width height = some p then some (some s.2) else grid[p]? := by
  unfold note
  cases hs : s.1.place? width height with
  | none => simp
  | some q =>
      by_cases hqp : q = p
      · subst hqp
        simp [Array.getElem?_setIfInBounds_self_of_lt hp]
      · simp [Array.getElem?_setIfInBounds_ne hqp, hqp]

theorem size_foldl_note (width height : Nat) (l : List (Site × Nat))
    (grid : Array (Option Nat)) : (l.foldl (note width height) grid).size = grid.size := by
  induction l generalizing grid with
  | nil => rfl
  | cons s l ih =>
      rw [List.foldl_cons, ih]
      unfold note
      split
      · exact Array.size_setIfInBounds
      · rfl

/-- After all cells are noted, each place shows the last cell that lies there. -/
theorem getElem?_foldl_note {width height p : Nat} (hp : p < width * height) (l : List Site) :
    (l.zipIdx.foldl (note width height) (Array.replicate (width * height) none))[p]? =
      some (lastBelow (fun i => l[i]?.bind (Site.place? width height) = some p) l.length) := by
  induction l using List.reverseRecOn with
  | nil => simp [lastBelow, hp]
  | append_singleton l s ih =>
      rw [List.zipIdx_append, List.foldl_append, List.zipIdx_singleton, List.foldl_cons,
        List.foldl_nil, getElem?_note (by rw [size_foldl_note]; simpa using hp), ih,
        List.length_append, List.length_singleton, lastBelow]
      have hlast : (l ++ [s])[l.length]? = some s := by simp
      have hinit : lastBelow (fun i => (l ++ [s])[i]?.bind (Site.place? width height) = some p)
          l.length =
          lastBelow (fun i => l[i]?.bind (Site.place? width height) = some p) l.length :=
        lastBelow_congr fun i hi => by rw [List.getElem?_append_left hi]
      rw [hinit, hlast]
      by_cases hs : s.place? width height = some p <;> simp [hs]

end SiteIndex

namespace Frame

variable {f : Frame}

theorem getElem?_grid {p : Nat} (hp : p < f.width * f.height) :
    f.index.grid[p]?.join =
      lastBelow (fun i => (f.site i).place? f.width f.height = some p) f.size := by
  have hgrid : f.index.grid =
      f.sites.toList.zipIdx.foldl (SiteIndex.note f.width f.height)
        (Array.replicate (f.width * f.height) none) := by
    rw [f.index_eq]
    rfl
  rw [hgrid, SiteIndex.getElem?_foldl_note hp, Option.join_some, Array.length_toList, size]
  refine lastBelow_congr fun i hi => ?_
  rw [Array.getElem?_toList, Array.getElem?_eq_getElem hi, Option.bind_some, site,
    Array.getD_eq_getD_getElem?, Array.getElem?_eq_getElem hi, Option.getD_some]

/-- The cell found at coordinates is the last one that has them. -/
theorem cellAt?_eq_lastBelow (f : Frame) (x y : Int) :
    f.cellAt? x y = lastBelow (fun i => f.site i = ⟨x, y⟩) f.size := by
  unfold cellAt?
  cases hplace : Site.place? f.width f.height ⟨x, y⟩ with
  | none => rfl
  | some p =>
      dsimp only
      rw [getElem?_grid (Site.place?_lt hplace)]
      refine lastBelow_congr fun i _ => decide_eq_decide.mpr ⟨?_, ?_⟩
      · intro hi
        exact Site.eq_of_place? hi hplace
      · intro hi
        rw [hi, hplace]

theorem cellAt?_of_lt {x y : Nat} (hx : x < f.width) (hy : y < f.height) :
    f.cellAt? x y = f.index.grid[y * f.width + x]?.join := by
  have hplace : Site.place? f.width f.height ⟨x, y⟩ = some (y * f.width + x) :=
    Site.place?_eq_some.mpr ⟨by dsimp only; omega, rfl⟩
  rw [cellAt?, hplace]

theorem rows_index (f : Frame) :
    f.index.rows = Array.ofFn fun y : Fin f.height =>
      (List.range f.width).filterMap fun x => f.index.grid[y.val * f.width + x]?.join := by
  rw [f.index_eq]
  rfl

theorem cols_index (f : Frame) :
    f.index.cols = Array.ofFn fun x : Fin f.width =>
      (List.range f.height).filterMap fun y => f.index.grid[y * f.width + x.val]?.join := by
  rw [f.index_eq]
  rfl

theorem row_eq (f : Frame) (y : Int) :
    f.row y = (List.range f.width).filterMap fun (x : Nat) => f.cellAt? x y := by
  unfold row
  split
  next hy =>
    obtain ⟨n, rfl⟩ := Int.eq_ofNat_of_zero_le hy.1
    have hn : n < f.height := by omega
    rw [rows_index, Int.toNat_natCast]
    simp only [Array.getD_eq_getD_getElem?, Array.getElem?_ofFn, hn, dif_pos, Option.getD_some]
    refine List.filterMap_congr fun x hx => ?_
    rw [cellAt?_of_lt (List.mem_range.mp hx) hn]
  next => rfl

theorem col_eq (f : Frame) (x : Int) :
    f.col x = (List.range f.height).filterMap fun (y : Nat) => f.cellAt? x y := by
  unfold col
  split
  next hx =>
    obtain ⟨n, rfl⟩ := Int.eq_ofNat_of_zero_le hx.1
    have hn : n < f.width := by omega
    rw [cols_index, Int.toNat_natCast]
    simp only [Array.getD_eq_getD_getElem?, Array.getElem?_ofFn, hn, dif_pos, Option.getD_some]
    refine List.filterMap_congr fun y hy => ?_
    rw [cellAt?_of_lt hn (List.mem_range.mp hy)]
  next => rfl

end Frame

/-! ## Full rectangles

No two cells share their coordinates, and there is one for every place of the
rectangle. -/

/-- A board whose cells are those of a full rectangle, row by row, and all listed. -/
structure Board.Rectangular (b : Board) : Prop where
  sites : b.frame.sites = Frame.rectangleSites b.width b.height
  listed : b.listed = b.frame.size

namespace Board.Rectangular

variable {b : Board} {i j : Nat}

theorem put (hb : b.Rectangular) (i : Nat) (v : Option Int) : (b.put i v).Rectangular :=
  ⟨hb.sites, hb.listed⟩

theorem congr {b' : Board} (hb : b.Rectangular) (hf : b'.frame = b.frame)
    (hl : b'.listed = b.listed) : b'.Rectangular where
  sites := by
    have hsites := hb.sites
    rwa [width, height, ← hf] at hsites
  listed := by rw [hl, hf, hb.listed]

theorem size_eq (hb : b.Rectangular) : b.frame.size = b.width * b.height := by
  rw [Frame.size, hb.sites, Frame.rectangleSites, Array.size_ofFn]

theorem site_eq (hb : b.Rectangular) (hi : i < b.frame.size) :
    b.frame.site i = ⟨(i % b.width : Nat), (i / b.width : Nat)⟩ := by
  rw [hb.size_eq] at hi
  rw [Frame.site, hb.sites, Frame.rectangleSites, Array.getD_eq_getD_getElem?]
  simp [hi]

theorem site_x_lt (hb : b.Rectangular) (hi : i < b.frame.size) :
    ∃ x < b.width, (b.frame.site i).x = (x : Nat) := by
  rw [hb.site_eq hi]
  exact ⟨_, Nat.mod_lt _ b.frame.width_pos, rfl⟩

theorem site_y_lt (hb : b.Rectangular) (hi : i < b.frame.size) :
    ∃ y < b.height, (b.frame.site i).y = (y : Nat) := by
  rw [hb.site_eq hi]
  rw [hb.size_eq] at hi
  exact ⟨_, Nat.div_lt_of_lt_mul hi, rfl⟩

theorem site_injective (hb : b.Rectangular) (hi : i < b.frame.size) (hj : j < b.frame.size)
    (h : b.frame.site i = b.frame.site j) : i = j := by
  rw [hb.site_eq hi, hb.site_eq hj, Site.mk.injEq, Int.natCast_inj, Int.natCast_inj] at h
  rw [← Nat.div_add_mod i b.width, ← Nat.div_add_mod j b.width, h.1, h.2]

theorem cellAt?_eq_some (hb : b.Rectangular) {x y : Int} :
    b.frame.cellAt? x y = some i ↔ i < b.frame.size ∧ b.frame.site i = ⟨x, y⟩ := by
  rw [Frame.cellAt?_eq_lastBelow]
  constructor
  · intro h
    obtain ⟨hi, hp⟩ := lastBelow_eq_some h
    exact ⟨hi, of_decide_eq_true hp⟩
  · intro ⟨hi, hsite⟩
    refine lastBelow_of_unique hi (decide_eq_true hsite) fun j hj hp => ?_
    exact hb.site_injective hj hi ((of_decide_eq_true hp).trans hsite.symm)

theorem mem_row (hb : b.Rectangular) {y : Int} :
    i ∈ b.frame.row y ↔ i < b.frame.size ∧ (b.frame.site i).y = y := by
  rw [Frame.row_eq, List.mem_filterMap]
  constructor
  · rintro ⟨x, -, hx⟩
    obtain ⟨hi, hsite⟩ := hb.cellAt?_eq_some.mp hx
    exact ⟨hi, by rw [hsite]⟩
  · rintro ⟨hi, rfl⟩
    obtain ⟨x, hx, hsite⟩ := hb.site_x_lt hi
    refine ⟨x, List.mem_range.mpr hx, hb.cellAt?_eq_some.mpr ⟨hi, ?_⟩⟩
    rw [← hsite]

theorem mem_col (hb : b.Rectangular) {x : Int} :
    i ∈ b.frame.col x ↔ i < b.frame.size ∧ (b.frame.site i).x = x := by
  rw [Frame.col_eq, List.mem_filterMap]
  constructor
  · rintro ⟨y, -, hy⟩
    obtain ⟨hi, hsite⟩ := hb.cellAt?_eq_some.mp hy
    exact ⟨hi, by rw [hsite]⟩
  · rintro ⟨hi, rfl⟩
    obtain ⟨y, hy, hsite⟩ := hb.site_y_lt hi
    refine ⟨y, List.mem_range.mpr hy, hb.cellAt?_eq_some.mpr ⟨hi, ?_⟩⟩
    rw [← hsite]

/-! ## Rows and columns

A row of a full rectangle has a cell in each of its places, and so has a column; the
number of the cell follows from the place. -/

theorem cellAt?_of_lt (hb : b.Rectangular) {x y : Nat} (hx : x < b.width) (hy : y < b.height) :
    b.frame.cellAt? x y = some (y * b.width + x) := by
  have hw : 0 < b.width := b.frame.width_pos
  have hlt : y * b.width + x < b.frame.size := by
    have hrow := Nat.mul_le_mul_left b.width (Nat.succ_le_of_lt hy)
    rw [Nat.mul_succ, Nat.mul_comm b.width y] at hrow
    rw [hb.size_eq]
    omega
  refine hb.cellAt?_eq_some.mpr ⟨hlt, ?_⟩
  rw [hb.site_eq hlt, Nat.mul_comm, Nat.mul_add_mod, Nat.mod_eq_of_lt hx, Nat.mul_add_div hw,
    Nat.div_eq_of_lt hx, Nat.add_zero]

theorem row_of_lt (hb : b.Rectangular) {y : Nat} (hy : y < b.height) :
    b.frame.row y = (List.range b.width).map fun x => y * b.width + x := by
  rw [Frame.row_eq, ← List.filterMap_eq_map]
  refine List.filterMap_congr fun x hx => ?_
  exact hb.cellAt?_of_lt (List.mem_range.mp hx) hy

theorem col_of_lt (hb : b.Rectangular) {x : Nat} (hx : x < b.width) :
    b.frame.col x = (List.range b.height).map fun y => y * b.width + x := by
  rw [Frame.col_eq, ← List.filterMap_eq_map]
  refine List.filterMap_congr fun y hy => ?_
  exact hb.cellAt?_of_lt hx (List.mem_range.mp hy)

end Board.Rectangular

end GridFill
