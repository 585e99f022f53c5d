/-
# `GridFill.Proofs.Board.Rows` — boards made of rows or of dimensions

A board made of rows is a full rectangle that holds the entries of the rows in
reading order (`HasRows`), and an empty rectangle is one of the sides asked for.
Writing a list of values into a board changes its values only.
-/
import GridFill.Proofs.Board.Empty
import GridFill.Proofs.Board.Index

namespace GridFill.Board

variable {b b₀ : Board} {i : Nat}

/-- A full rectangle that holds the entries of `rows`, row by row. -/
structure HasRows (b : Board) (rows : List (List (Option Int))) : Prop where
  rectangular : b.Rectangular
  width : ∀ r ∈ rows, r.length = b.width
  height : rows.length = b.height
  value : ∀ i, b.value i = ((rows.flatten.map entry)[i]?).getD none

theorem region_blank (f : Frame) (i : Nat) : (blank f).region i = none := by
  by_cases hi : i < f.size <;> simp [region, blank, hi]

theorem ofRows_cases {rows : List (List (Option Int))} (h : ofRows rows = .ok b) :
    ∃ first rest, rows = first :: rest ∧ (∀ r ∈ rest, r.length = first.length) ∧
      (∃ hw hh, b.frame = .rectangle first.length (rest.length + 1) hw hh) ∧
      b.listed = b.frame.size ∧ b.values = (rows.flatten.map entry).toArray ∧
      ∀ i, b.region i = none := by
  unfold ofRows at h
  split at h
  case h_1 => cases h
  case h_2 first rest =>
    split at h
    case isTrue => cases h
    case isFalse =>
      split at h
      case isFalse => cases h
      case isTrue hlen =>
        cases h
        exact ⟨first, rest, rfl, hlen, ⟨_, _, rfl⟩, rfl, rfl, region_blank _⟩

theorem hasRows_of_ofRows {rows : List (List (Option Int))} (h : ofRows rows = .ok b) :
    b.HasRows rows := by
  obtain ⟨first, rest, rfl, hlen, ⟨hw, hh, hframe⟩, hlisted, hvalues, -⟩ := ofRows_cases h
  have hwidth : b.width = first.length := congrArg Frame.width hframe
  have hheight : b.height = rest.length + 1 := congrArg Frame.height hframe
  refine ⟨⟨?_, hlisted⟩, fun r hr => ?_, hheight.symm, fun i => ?_⟩
  · rw [hwidth, hheight]
    exact congrArg Frame.sites hframe
  · rw [hwidth]
    rcases List.mem_cons.mp hr with rfl | hr
    · rfl
    · exact hlen r hr
  · simp [Board.value, hvalues]

theorem exists_ofRows {rows : List (List (Option Int))} {width : Nat} (hne : rows ≠ [])
    (hw : 0 < width) (hlen : ∀ r ∈ rows, r.length = width) : ∃ b, ofRows rows = .ok b := by
  cases rows with
  | nil => exact absurd rfl hne
  | cons first rest =>
      have hfirst : first.length = width := hlen first List.mem_cons_self
      have hcell : first ≠ [] := by
        rintro rfl
        rw [List.length_nil] at hfirst
        omega
      have hrest : ∀ r ∈ rest, r.length = first.length := by
        intro r hr
        rw [hfirst]
        exact hlen r (List.mem_cons_of_mem first hr)
      simp only [ofRows, dif_neg hcell, dif_pos hrest]
      exact ⟨_, rfl⟩

theorem HasRows.congr {b' : Board} {rows : List (List (Option Int))} (h : b.HasRows rows)
    (hf : b'.frame = b.frame) (hv : b'.values = b.values) (hl : b'.listed = b.listed) :
    b'.HasRows rows where
  rectangular := h.rectangular.congr hf hl
  width r hr := by
    rw [h.width r hr]
    exact (congrArg Frame.width hf).symm
  height := by
    rw [h.height]
    exact (congrArg Frame.height hf).symm
  value i := by rw [Board.value, hv, ← h.value i, Board.value]

theorem HasRows.mem_of_value {rows : List (List (Option Int))} (h : b.HasRows rows) {v : Int}
    (hv : b.value i = some v) : some v ∈ rows.flatten ∧ v ≠ 0 := by
  rw [h.value, List.getElem?_map] at hv
  cases hentry : rows.flatten[i]? with
  | none =>
      rw [hentry] at hv
      cases hv
  | some e =>
      have hmem := List.mem_of_getElem? hentry
      rw [hentry] at hv
      by_cases he : e = some 0
      · simp [entry, he] at hv
      · have hev : e = some v := by simpa [entry, he] using hv
        subst hev
        exact ⟨hmem, fun h0 => he (by rw [h0])⟩

/-! ## Reading a board row by row

Rows of equal length, one behind the other, are numbered through
(`flatten_map_range`), so reading the cells of a row by their coordinates is
reading a stretch of the list of values. -/

theorem mapM_eq_ok_map {α β ε : Type} {f : α → Except ε β} {g : α → β} {xs : List α}
    (h : ∀ x ∈ xs, f x = .ok (g x)) : xs.mapM f = .ok (xs.map g) := by
  induction xs with
  | nil => rfl
  | cons x xs ih =>
      rw [List.mapM_cons, h x List.mem_cons_self, ih fun y hy => h y (List.mem_cons_of_mem x hy)]
      rfl

theorem mapM_eq_error {α β ε : Type} {f : α → Except ε β} {e : ε} {xs : List α}
    (h : ∀ x ∈ xs, ∀ e', f x = .error e' → e' = e) {x : α} (hx : x ∈ xs)
    (hf : f x = .error e) : xs.mapM f = .error e := by
  induction xs with
  | nil => cases hx
  | cons y ys ih =>
      rw [List.mapM_cons]
      rcases hy : f y with e' | b
      · rw [h y List.mem_cons_self e' hy]
        rfl
      · rcases List.mem_cons.mp hx with rfl | hx
        · cases hf.symm.trans hy
        · rw [ih (fun z hz => h z (List.mem_cons_of_mem y hz)) hx]
          rfl

theorem Rectangular.rows_eq (hb : b.Rectangular) : b.rows =
    .ok ((List.range b.height).map fun y =>
      (List.range b.width).map fun x => b.value (y * b.width + x)) := by
  refine mapM_eq_ok_map fun y hy => mapM_eq_ok_map fun x hx => ?_
  rw [locate, hb.cellAt?_of_lt (List.mem_range.mp hx) (List.mem_range.mp hy)]
  rfl

theorem flatten_map_range {α : Type} (f : Nat → α) (width height : Nat) :
    ((List.range height).map fun y => (List.range width).map fun x => f (y * width + x)).flatten =
      (List.range (height * width)).map f := by
  induction height with
  | zero => simp
  | succ n ih =>
      rw [List.range_succ, List.map_append, List.flatten_append, ih, Nat.succ_mul,
        List.range_add, List.map_append, List.map_map]
      simp [Function.comp_def]

theorem map_length_eq_replicate {α : Type} {rows : List (List α)} {width : Nat}
    (h : ∀ r ∈ rows, r.length = width) :
    rows.map List.length = List.replicate rows.length width :=
  List.eq_replicate_iff.mpr ⟨List.length_map _, by simpa using h⟩

theorem length_flatten_eq_mul {α : Type} {rows : List (List α)} {width : Nat}
    (h : ∀ r ∈ rows, r.length = width) : rows.flatten.length = rows.length * width := by
  rw [List.length_flatten, map_length_eq_replicate h, List.sum_replicate_nat]

/-- The rows of a board made of rows are those, with zero read as an empty cell. -/
theorem HasRows.rows_eq {rows : List (List (Option Int))} (h : b.HasRows rows) :
    b.rows = .ok (rows.map fun r => r.map entry) := by
  have hgiven : ∀ r ∈ rows.map fun r => r.map entry, r.length = b.width :=
    List.forall_mem_map.mpr fun r hr => by rw [List.length_map, h.width r hr]
  have hread : ∀ r ∈ (List.range b.height).map fun y =>
      (List.range b.width).map fun x => b.value (y * b.width + x), r.length = b.width :=
    List.forall_mem_map.mpr fun y _ => by rw [List.length_map, List.length_range]
  have hlength : rows.flatten.length = b.height * b.width := by
    rw [length_flatten_eq_mul h.width, h.height]
  rw [h.rectangular.rows_eq]
  refine congrArg Except.ok (List.eq_iff_flatten_eq.mpr ⟨?_, ?_⟩)
  · rw [flatten_map_range, ← List.map_flatten]
    refine List.ext_getElem ?_ fun i hi hi' => ?_
    · rw [List.length_map, List.length_range, List.length_map, hlength]
    · rw [List.getElem_map, List.getElem_range, h.value, List.getElem?_eq_getElem hi',
        Option.getD_some]
  · rw [map_length_eq_replicate hgiven, map_length_eq_replicate hread,
      List.length_map, List.length_map, List.length_range, h.height]

theorem frame_eq {f g : Frame} (hw : f.width = g.width) (hh : f.height = g.height)
    (hs : f.sites = g.sites) : f = g := by
  have hindex : f.index = g.index := by rw [f.index_eq, g.index_eq, hw, hh, hs]
  cases f
  cases g
  simp_all

section

variable {b' : Board} {rows : List (List (Option Int))} (h : b.HasRows rows)
  (h' : b'.HasRows rows)

include h h'

theorem HasRows.frame_eq : b.frame = b'.frame := by
  have hheight : b.height = b'.height := h.height.symm.trans h'.height
  have hne : rows ≠ [] := by
    rintro rfl
    exact absurd h.height (Nat.ne_of_lt b.frame.height_pos)
  obtain ⟨r, hrow⟩ := List.exists_mem_of_ne_nil rows hne
  have hwidth : b.width = b'.width := (h.width r hrow).symm.trans (h'.width r hrow)
  refine Board.frame_eq hwidth hheight ?_
  rw [h.rectangular.sites, h'.rectangular.sites, hwidth, hheight]

theorem HasRows.listed_eq : b.listed = b'.listed := by
  rw [h.rectangular.listed, h'.rectangular.listed, h.frame_eq h']

/-- Boards made of the same rows differ in their regions at most. -/
theorem HasRows.unique (hr : ∀ i < b.listed, b.region i = b'.region i) : b = b' := by
  have hframe := h.frame_eq h'
  have hregions : b.regions = b'.regions := by
    refine Array.ext (by rw [b.regions_size, b'.regions_size, hframe]) fun i hi hi' => ?_
    have hlt : i < b.listed := by rwa [h.rectangular.listed, ← b.regions_size]
    simpa [region, hi, hi'] using hr i hlt
  exact ext_value hframe hregions (h.listed_eq h') fun i => by rw [h.value, h'.value]

end

theorem rectangle_eq_ok {width height : Int} (h : rectangle width height = .ok b) :
    b.Rectangular ∧ (b.width : Int) = width ∧ (b.height : Int) = height := by
  unfold rectangle Frame.ofDimensions at h
  split at h
  case isFalse => cases h
  case isTrue hpos =>
    cases h
    refine ⟨⟨rfl, rfl⟩, ?_, ?_⟩
    · exact Int.toNat_of_nonneg (by omega)
    · exact Int.toNat_of_nonneg (by omega)

/-! ## Writing a list of values

The values go into the cells from a place on.  Neither the cells before it nor
anything but values change. -/

@[simp] theorem putFrom_frame (b : Board) (i : Nat) (vs : List (Option Int)) :
    (b.putFrom i vs).frame = b.frame := by
  induction vs generalizing b i with
  | nil => rfl
  | cons v vs ih => exact ih (b.put i v) (i + 1)

@[simp] theorem putFrom_regions (b : Board) (i : Nat) (vs : List (Option Int)) :
    (b.putFrom i vs).regions = b.regions := by
  induction vs generalizing b i with
  | nil => rfl
  | cons v vs ih => exact ih (b.put i v) (i + 1)

@[simp] theorem putFrom_listed (b : Board) (i : Nat) (vs : List (Option Int)) :
    (b.putFrom i vs).listed = b.listed := by
  induction vs generalizing b i with
  | nil => rfl
  | cons v vs ih => exact ih (b.put i v) (i + 1)

theorem value_putFrom_of_lt {j : Nat} (h : j < i) (vs : List (Option Int)) :
    (b.putFrom i vs).value j = b.value j := by
  induction vs generalizing b i with
  | nil => rfl
  | cons v vs ih =>
      rw [putFrom, ih (Nat.lt_succ_of_lt h), value_put_of_ne (Nat.ne_of_lt h)]

/-- The cells from `i` on get the values of the list in turn. -/
theorem value_putFrom {k : Nat} (h : i + k < b.frame.size) (vs : List (Option Int)) :
    (b.putFrom i vs).value (i + k) = (vs[k]?).getD (b.value (i + k)) := by
  induction vs generalizing b i k with
  | nil => rfl
  | cons v vs ih =>
      rw [putFrom]
      cases k with
      | zero =>
          show ((b.put i v).putFrom (i + 1) vs).value i = v
          rw [value_putFrom_of_lt (Nat.lt_add_one i)]
          exact value_put_self h
      | succ k =>
          have hne : i + (k + 1) ≠ i := by omega
          have hrest := ih (b := b.put i v) (i := i + 1) (k := k) (by
            rw [put_frame]
            omega)
          rw [Nat.add_right_comm, Nat.add_assoc] at hrest
          rw [hrest, List.getElem?_cons_succ, value_put_of_ne hne]

end GridFill.Board
