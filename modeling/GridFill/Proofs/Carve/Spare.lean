/-
# `GridFill.Proofs.Carve.Spare` — three cells can always be spared

In a finished latin square every row and every column holds each value once.  Take
another filling of some holes in it.  Where the two differ, the value of the other one
stands in the same row of the square, in another cell, and that is a hole where they
differ again; and likewise in the same column (`Finished.differs_again`).  So there are
differences in two rows and in two columns at least, and that takes four holes
(`Finished.four_le_length`).

A finished latin square or sudoku is therefore determined without any three of its
cells, whichever they are.  A carving never has to put one of the first three values
back, and leaves as many holes as it may if that is no more than three
(`carvings_spare_three`).
-/
import GridFill.Proofs.Carve.Completed

namespace GridFill

open Search

namespace Rules

/-! ## Finished boards

A won latin square and a won sudoku have all that the argument uses: values in
range, and no value twice in a row or column. -/

/-- A square with a value from `1` to its width in every cell, none of them equal to
that of another cell in the same row, in the same column, or a peer for another reason. -/
structure Finished (r : Rules) (b : Board) : Prop where
  rectangular : b.Rectangular
  square : b.height = b.width
  range : InRange b b.width
  rows : Separate b (SameRow b)
  cols : Separate b (SameCol b)
  apart : r.Apart b.filledCells b
  row_peers : ∀ i j, SameRow b i j → r.Peers b i j
  col_peers : ∀ i j, SameCol b i j → r.Peers b i j

section

variable {r : Rules} {b b' x : Board}

theorem finished_of_wins (hr : r = .latin ∨ r = .sudoku) (hb : b.Rectangular)
    (hsquare : b.height = b.width) (hrange : InRange b b.width) (hwin : r.wins b = .ok true) :
    r.Finished b := by
  rcases hr with rfl | rfl
  · have hpos (i : Nat) (v : Int) (hv : b.value i = some v) : 0 ≤ v := by
      obtain ⟨u, hu, hlow, -⟩ := hrange i (Board.lt_size_of_value_eq_some hv)
      cases hv.symm.trans hu
      omega
    obtain ⟨-, hrows, hcols⟩ := ((decides_wins_latin hb hpos).sound true hwin).mp rfl
    exact ⟨hb, hsquare, hrange, hrows, hcols, separate_or.mpr ⟨hrows, hcols⟩,
      fun _ _ => .inl, fun _ _ => .inr⟩
  · have hwon : wonSudoku b = true := Except.ok.inj hwin
    obtain ⟨-, -, hapart⟩ := (wonSudoku_iff hb).mp hwon
    obtain ⟨hrows, hrest⟩ := separate_or.mp hapart
    exact ⟨hb, hsquare, hrange, hrows, (separate_or.mp hrest).1, hapart, fun _ _ => .inl,
      fun _ _ h => .inr (.inl h)⟩

/-! ## Every line holds every value

A row of `n` different values from `1` to `n` leaves none of them out, and neither
does a column. -/

theorem mem_of_isPermutation {n : Nat} {vs : List (Option Int)} (h : isPermutation n vs = true)
    {v : Int} (hv : v ∈ valuesTo n) : some v ∈ vs := by
  obtain ⟨hlen, hrange, hnodup⟩ := isPermutation_iff.mp h
  have hsub : vs.filterMap id ⊆ valuesTo n := by
    intro k hk
    obtain ⟨u, hu, rfl⟩ := List.mem_filterMap.mp hk
    obtain ⟨k, hk, hbounds⟩ := hrange _ hu
    cases hk
    exact mem_valuesTo.mpr hbounds
  have hall : (vs.filterMap id).length = n := by
    rw [← hlen, List.length_filterMap_eq_countP, List.countP_eq_length]
    intro u hu
    obtain ⟨k, rfl, -⟩ := hrange u hu
    rfl
  have hperm : (vs.filterMap id).Perm (valuesTo n) := by
    refine (List.subperm_of_subset hnodup hsub).perm_of_length_le ?_
    rw [hall, valuesTo, Order.toList, List.length_map, List.length_range]
    exact Nat.le_refl n
  obtain ⟨u, hu, hv⟩ := List.mem_filterMap.mp (hperm.mem_iff.mpr hv)
  rw [id] at hv
  exact hv ▸ hu

theorem Grouping.exists_value {rel : Nat → Nat → Prop} {groups : List (List Nat)}
    (h : Grouping b rel groups) (hl : b.listed = b.frame.size) {n : Nat}
    (hlen : ∀ g ∈ groups, g.length = n) (hrange : InRange b n) (hsep : Separate b rel) {i : Nat}
    (hi : i < b.frame.size) {v : Int} (hv : v ∈ valuesTo n) :
    ∃ j < b.frame.size, rel i j ∧ b.value j = some v := by
  obtain ⟨g, hg, hig⟩ := h.covers i hi
  have hperm := (h.isPermutation_iff hl).mpr ⟨hlen, hrange, hsep⟩ g hg
  obtain ⟨j, hjg, hj⟩ := List.mem_map.mp (mem_of_isPermutation hperm hv)
  have hlt := h.lt g hg j hjg
  exact ⟨j, hlt, (h.rel_iff i hi j hlt).mpr ⟨g, hg, hig, hjg⟩, hj⟩

theorem eq_of_sameRow_of_sameCol (hb : b.Rectangular) {i j : Nat} (hi : i < b.frame.size)
    (hj : j < b.frame.size) (hrow : SameRow b i j) (hcol : SameCol b i j) : i = j := by
  refine hb.site_injective hi hj ?_
  rw [SameRow] at hrow
  rw [SameCol] at hcol
  cases hsi : b.frame.site i
  cases hsj : b.frame.site j
  rw [hsi, hsj] at hrow hcol
  exact congr (congrArg Site.mk hcol) hrow

/-! ## Another filling differs in four cells

Where another filling differs, its value stands elsewhere in the row of the
finished board, in a hole where it differs again, and likewise in the column.
These holes lie in two rows and two columns. -/

namespace Finished

variable {voids : List Nat} {i : Nat} (h : r.Finished b) (hc : b.Cleared voids b')
  (hx : r.IsExtension b.width b' x)

include h

theorem exists_in_row (hi : i < b.frame.size) {v : Int} (hv : v ∈ valuesTo b.width) :
    ∃ j < b.frame.size, SameRow b i j ∧ b.value j = some v :=
  (grouping_rows h.rectangular).exists_value h.rectangular.listed
    (fun _ hg => length_row h.rectangular hg) h.range h.rows hi hv

theorem exists_in_col (hi : i < b.frame.size) {v : Int} (hv : v ∈ valuesTo b.width) :
    ∃ j < b.frame.size, SameCol b i j ∧ b.value j = some v :=
  (grouping_cols h.rectangular).exists_value h.rectangular.listed
    (fun _ hg => (length_col h.rectangular hg).trans h.square) h.range h.cols hi hv

include hc hx

theorem void_of_differs (hi : i < b.frame.size) (hd : x.value i ≠ b.value i) :
    i ∈ voids ∧ i ∈ b'.emptyCells := by
  have hvoid : i ∈ voids := by
    by_contra hnot
    obtain ⟨v, hv, -⟩ := h.range i hi
    have hgiven : b'.value i = b.value i := hc.kept i hnot
    refine hd ((hx.kept i fun hmem => ?_).trans hgiven)
    have hnone := (Board.mem_emptyCells.mp hmem).2
    rw [hgiven, hv] at hnone
    cases hnone
  refine ⟨hvoid, Board.mem_emptyCells.mpr ⟨?_, hc.void i hvoid⟩⟩
  rw [hc.listed, h.rectangular.listed]
  exact hi

theorem differs_again {rel : Nat → Nat → Prop} (hrel : ∀ i j, rel i j → r.Peers b i j)
    (hline : ∀ i < b.frame.size, ∀ v ∈ valuesTo b.width,
      ∃ j < b.frame.size, rel i j ∧ b.value j = some v)
    (hi : i < b.frame.size) (hd : x.value i ≠ b.value i) :
    ∃ j < b.frame.size, j ≠ i ∧ rel i j ∧ x.value j ≠ b.value j := by
  obtain ⟨-, hempty⟩ := h.void_of_differs hc hx hi hd
  obtain ⟨v, hv, hbounds⟩ := hx.filled i hempty
  obtain ⟨j, hj, hij, hbj⟩ := hline i hi v (mem_valuesTo.mpr hbounds)
  have hframe : x.frame = b.frame := hx.frame.trans hc.frame
  have hne : j ≠ i := by
    rintro rfl
    exact hd (hv.trans hbj.symm)
  have hpeers : r.Peers x i j :=
    (peers_congr hframe (hx.regions.trans hc.regions)).mpr (hrel i j hij)
  have hdiff := hx.apart i hempty j (hframe ▸ hj) hne hpeers
  rw [hv, ← hbj] at hdiff
  exact ⟨j, hj, hne, hij, hdiff.symm⟩

/-- A filling that differs needs four holes. -/
theorem four_le_length (hi : i < b.frame.size) (hd : x.value i ≠ b.value i) :
    4 ≤ voids.length := by
  have hrow {i : Nat} := h.differs_again hc hx h.row_peers (fun _ hi _ => h.exists_in_row hi)
    (i := i)
  have hcol {i : Nat} := h.differs_again hc hx h.col_peers (fun _ hi _ => h.exists_in_col hi)
    (i := i)
  obtain ⟨j, hj, hji, hij, hdj⟩ := hrow hi hd
  obtain ⟨k, hk, hki, hik, hdk⟩ := hcol hi hd
  obtain ⟨l, hl, hlj, hjl, hdl⟩ := hcol hj hdj
  have hcross : ¬ SameCol b i j := fun hsame =>
    hji (eq_of_sameRow_of_sameCol h.rectangular hi hj hij hsame).symm
  have hil : i ≠ l := by
    rintro rfl
    exact hcross hjl.symm
  have hjk : j ≠ k := by
    rintro rfl
    exact hcross hik
  have hkl : k ≠ l := by
    rintro rfl
    exact hcross (hik.trans hjl.symm)
  have hnodup : [i, j, k, l].Nodup := by
    simp [hji.symm, hki.symm, hil, hjk, hlj.symm, hkl]
  have hsub : [i, j, k, l] ⊆ voids := by
    simp only [List.cons_subset, List.nil_subset, and_true]
    exact ⟨(h.void_of_differs hc hx hi hd).1, (h.void_of_differs hc hx hj hdj).1,
      (h.void_of_differs hc hx hk hdk).1, (h.void_of_differs hc hx hl hdl).1⟩
  exact (List.subperm_of_subset hnodup hsub).length_le

end Finished

namespace Finished

variable {voids : List Nat} (h : r.Finished b) (hc : b.Cleared voids b')

include h

theorem emptyCells_eq : b.emptyCells = [] := by
  refine List.eq_nil_iff_forall_not_mem.mpr fun i hi => ?_
  obtain ⟨hlt, hnone⟩ := Board.mem_emptyCells.mp hi
  obtain ⟨v, hv, -⟩ := h.range i (h.rectangular.listed ▸ hlt)
  rw [hv] at hnone
  cases hnone

theorem length_filledCells : b.filledCells.length = b.width * b.width := by
  have hall : b.filledCells = b.cells := by
    rw [Board.filledCells, List.filter_eq_self]
    intro i hi
    have hlt : i < b.frame.size := h.rectangular.listed ▸ List.mem_range.mp hi
    obtain ⟨v, hv, -⟩ := h.range i hlt
    simp [hv]
  rw [hall, Board.cells, List.length_range, h.rectangular.listed, h.rectangular.size_eq, h.square]

theorem sound : r.Sound b where
  range i hi v hv := by
    obtain ⟨u, hu, hbounds⟩ := h.range i (h.rectangular.listed ▸ (Board.mem_filledCells.mp hi).1)
    cases hu.symm.trans hv
    exact hbounds
  apart := h.apart

theorem isExtension (hl : b.Loosened b') : r.IsExtension b'.width b' b := by
  refine h.sound.isExtension h.rectangular hl ⟨rfl, rfl, rfl, fun _ _ => rfl, ?_, ?_⟩
  all_goals
    rw [h.emptyCells_eq]
    exact fun i hi => absurd hi List.not_mem_nil

include hc

theorem determined_of_cleared (hle : voids.length ≤ 3) : b'.Determined r.allows := by
  have hwidth : b'.width = b.width := congrArg Frame.width hc.frame
  have hb' : b'.Rectangular := h.rectangular.congr hc.frame hc.listed
  refine (determined_iff_completed hb').mpr ⟨b, Set.ext fun x => ?_⟩
  rw [mem_completed hb', Set.mem_singleton_iff]
  constructor
  · intro hx
    rw [hwidth] at hx
    refine Board.ext_value (hx.frame.trans hc.frame) (hx.regions.trans hc.regions)
      (hx.listed.trans hc.listed) fun i => ?_
    by_contra hd
    by_cases hi : i < b.frame.size
    · have hfour := h.four_le_length hc hx hi hd
      omega
    · rw [Nat.not_lt] at hi
      refine hd ?_
      rw [Board.value_of_size_le hi, Board.value_of_size_le]
      rw [hx.frame, hc.frame]
      exact hi
  · rintro rfl
    exact h.isExtension hc.loosened

end Finished

end

end Rules

/-! ## Carving where cells can be spared

Whatever cells are cleared, up to the bound of the carving, the board without them
is determined.  So no value is ever put back before the bound is reached. -/

theorem Board.Cleared.length_emptyCells_le {b b' : Board} {voids : List Nat}
    (h : b.Cleared voids b') (hb : b.emptyCells = []) : b'.emptyCells.length ≤ voids.length := by
  refine (List.subperm_of_subset b'.nodup_emptyCells fun i hi => ?_).length_le
  obtain ⟨hlt, hnone⟩ := mem_emptyCells.mp hi
  by_contra hnot
  have hempty : i ∈ b.emptyCells :=
    mem_emptyCells.mpr ⟨h.listed ▸ hlt, (h.kept i hnot).symm.trans hnone⟩
  rw [hb] at hempty
  exact List.not_mem_nil hempty

namespace Carving

variable {σ ε : Type} {machine : Machine} {j : Judge σ ε} {test : Test} {b : Board} {k : Nat}

/-- If a complete board is determined without any `k` of its cells, a visit with that
bound clears cell after cell until the bound is reached. -/
theorem visit_of_spare (hj : j.Answers test) (hb : b.emptyCells = [])
    (hk : k ≤ machine.depthLimit)
    (hspare : ∀ voids b', b.Cleared voids b' → voids.length ≤ k → b'.Determined test)
    (is : List Nat) {c : Carving σ} (hc : Underway b is c) (hle : c.voids.length ≤ k) :
    ∃ c', visit machine j (some k) is c = (.ok (), c') ∧
      c'.voids.length = min k (c.voids.length + is.length) := by
  induction is generalizing c with
  | nil => exact ⟨c, rfl, (Nat.min_eq_right hle).symm⟩
  | cons i is ih =>
      cases hfull : c.isFull (some k) with
      | true =>
          have hreached : k ≤ c.voids.length := Int.ofNat_le.mp (of_decide_eq_true hfull)
          refine ⟨c, by rw [visit, if_pos hfull], ?_⟩
          omega
      | false =>
          have hroom : ¬ k ≤ c.voids.length := fun h =>
            of_decide_eq_false hfull (Int.ofNat_le.mpr h)
          have hclear := hc.carved.cleared.put_none i
          have hlen : (insertAscending i c.voids).length = c.voids.length + 1 :=
            length_insertAscending
          have hcells := hclear.length_emptyCells_le hb
          have hdeep : (c.board.put i none).emptyCells.length ≤ machine.depthLimit := by omega
          obtain ⟨memory, ⟨-, hr⟩ | ⟨hmany, -⟩⟩ :=
            tryCell_cases hj c i (tryCell_ne_depthExceeded hj hdeep)
          · have hkeep : Underway b is ⟨c.board.put i none, insertAscending i c.voids, memory⟩ :=
              hc.keep
            have hroom' : (insertAscending i c.voids).length ≤ k := by omega
            obtain ⟨c', hc', hcount⟩ := ih hkeep hroom'
            refine ⟨c', ?_, ?_⟩
            · rw [visit, hfull, if_neg Bool.false_ne_true, hr]
              exact hc'
            · rw [hcount, hlen, List.length_cons]
              omega
          · exact absurd (hspare _ _ hclear (by omega)) hmany

end Carving

namespace Rules

/-- A finished latin square or sudoku of at least two rows is determined without any
three of its cells; so a carving that may leave up to three holes leaves as many as it
may, whatever the order of its visits, if the stack has a frame for each of them. -/
theorem carvings_spare_three {σ ε : Type} (r : Rules) (hr : r = .latin ∨ r = .sudoku) (b : Board)
    (hb : b.Rectangular) (hsquare : b.height = b.width) (htwo : 2 ≤ b.width)
    (hrange : InRange b b.width) (hwin : r.wins b = .ok true) :
    (∀ voids b', b.Cleared voids b' → voids.length ≤ 3 → b'.Determined r.allows) ∧
      ∀ (machine : Machine) (memory : σ) (k : Nat), k ≤ 3 → k ≤ machine.depthLimit →
        let all : Set (Except (SearchFault ε) Unit × Carving σ) :=
          b.carvings (.ofRules r) memory (some k) machine
        (∀ t, b.carve (.ofRules r) memory (some k) t machine ∈ all) ∧
          ∀ s ∈ all, ∃ c, s = (.ok (), c) ∧ c.voids.length = k := by
  have hf := finished_of_wins hr hb hsquare hrange hwin
  have hspare : ∀ voids b', b.Cleared voids b' → voids.length ≤ 3 → b'.Determined r.allows :=
    fun voids b' hc hle => hf.determined_of_cleared hc hle
  refine ⟨hspare, ?_⟩
  intro machine memory k hk hdepth
  refine ⟨fun t => Board.carve_mem_carvings, ?_⟩
  rintro s ⟨is, his, rfl⟩
  obtain ⟨c, hc, hcount⟩ := Carving.visit_of_spare (answers_ofRules r) hf.emptyCells_eq hdepth
    (fun voids b' hc hle => hspare voids b' hc (Nat.le_trans hle hk)) is
    (Carving.underway_start his memory) (Nat.zero_le k)
  refine ⟨c, hc, ?_⟩
  -- there are four cells at least to visit
  have hcells : is.length = b.width * b.width := by
    rw [his.length_eq, hf.length_filledCells]
  have hfour : 2 * 2 ≤ b.width * b.width := Nat.mul_le_mul htwo htwo
  rw [hcount, List.length_nil]
  omega

/-- A finished latin square of two rows. -/
def twoRows : Board :=
  ((((Board.blank (.rectangle 2 2 Nat.two_pos Nat.two_pos)).put 0 (some 1)).put 1 (some 2)).put 2
    (some 2)).put 3 (some 1)

theorem carvings_spare_three_twoRows :
    ∃ c, twoRows.carve (.ofRules .latin : Judge Unit Empty) () (some 3) (.ofSeed 7) =
        (.ok (), c) ∧ c.voids.length = 3 := by
  have hrange : InRange twoRows twoRows.width
    | 0, _ => ⟨1, rfl, by decide⟩
    | 1, _ => ⟨2, rfl, by decide⟩
    | 2, _ => ⟨2, rfl, by decide⟩
    | 3, _ => ⟨1, rfl, by decide⟩
    | n + 4, hi => absurd hi (Nat.not_lt.mpr (Nat.le_add_left 4 n))
  obtain ⟨-, hspared⟩ := carvings_spare_three .latin (.inl rfl) twoRows ⟨rfl, rfl⟩ rfl (by decide)
    hrange (by decide)
  obtain ⟨hcarve, hall⟩ := hspared {} () 3 (by decide) (by decide)
  exact hall _ (hcarve (.ofSeed 7))

end Rules

end GridFill
