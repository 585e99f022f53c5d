/-
# `GridFill.Proofs.Carve.Completed` — carving keeps the completions it relies on

When a given is cleared the empty cell may take any value, and so the board may
gain completions.  It loses none if the givens are sound, that is, in range and
apart (`Rules.Sound`): the given that was cleared is itself a value that the cell
may take, and being peers is symmetric, so the values that were accepted beside it
are still accepted (`Sound.completed_subset`).

A carving starts from a set of completed boards and only ever enlarges it.  If
there is one completed board and the carving keeps the board determined, it is the
same one at the end; and if there are two, no cell can be spared
(`carvings_completed`).
-/
import GridFill.Proofs.Carve.Visit
import GridFill.Proofs.Rules.Givens

namespace GridFill

open Search

/-- The full boards that the completions of a board with values up to its width
give. -/
def Board.completed (test : Test) (b : Board) : Set Board :=
  {x | ∃ vs, IsCompletion test b.width b vs ∧ b.FilledWith vs x}

namespace Rules

variable {r : Rules} {b b' x : Board}

/-- The givens are values from `1` to the width of the board, and none has the value
of another given that is its peer. -/
structure Sound (r : Rules) (b : Board) : Prop where
  range : ∀ i ∈ b.filledCells, ∀ v ∈ b.value i, 1 ≤ v ∧ v ≤ (b.width : Int)
  apart : r.Apart b.filledCells b

instance (r : Rules) (b : Board) : Decidable (r.Sound b) :=
  decidable_of_iff
    ((∀ i ∈ b.filledCells, ∀ v ∈ b.value i, 1 ≤ v ∧ v ≤ (b.width : Int)) ∧
      r.Apart b.filledCells b)
    ⟨fun h => ⟨h.1, h.2⟩, fun h => ⟨h.range, h.apart⟩⟩

/-! ## Completed boards are extensions

The completed boards are those that extend the board under its rules, and a board
is determined exactly when there is one of them. -/

theorem mem_completed (hb : b.Rectangular) :
    x ∈ b.completed r.allows ↔ r.IsExtension b.width b x :=
  (isExtension_iff hb).symm

/-- A board is determined exactly when there is one completed board. -/
theorem determined_iff_completed (hb : b.Rectangular) :
    b.Determined r.allows ↔ ∃ x, b.completed r.allows = {x} := by
  have hset : b.completed r.allows = {x | r.IsExtension b.width b x} :=
    Set.ext fun x => mem_completed hb
  rw [Board.determined_iff_ncard, ← ncard_setOf_isExtension hb, ← hset, Set.ncard_eq_one]

/-! ## Taking givens away

A given that is sound is a value that its cell may take beside all other values of
an extension.  So an extension of a board still extends it with fewer givens, and
no completed board is lost. -/

namespace IsExtension

variable {m i : Nat} (hx : r.IsExtension m b x)

include hx

theorem mem_filledCells (hi : i < b.listed) : i ∈ x.filledCells :=
  Board.mem_filledCells.mpr ⟨hx.listed ▸ hi, hx.value_ne_none hi⟩

theorem kept_of_loosened (hb : b.Rectangular) (hl : b.Loosened b') (hi : i ∉ b'.emptyCells) :
    x.value i = b'.value i := by
  cases hv : b'.value i with
  | some v =>
      have hgiven : b.value i = some v := hl.given i v hv
      have hib : i ∉ b.emptyCells := fun hmem =>
        Option.some_ne_none v (hgiven.symm.trans (Board.mem_emptyCells.mp hmem).2)
      exact (hx.kept i hib).trans hgiven
  | none =>
      -- such a cell lies outside of the rectangle
      have hout : ¬ i < b'.listed := fun hlt => hi (Board.mem_emptyCells.mpr ⟨hlt, hv⟩)
      rw [hl.listed, hb.listed, ← hx.frame] at hout
      exact Board.value_of_size_le (Nat.le_of_not_lt hout)

end IsExtension

namespace Sound

theorem loosened (h : r.Sound b) (hl : b.Loosened b') : r.Sound b' where
  range i hi v hv := by
    have hwidth : b'.width = b.width := congrArg Frame.width hl.frame
    rw [hwidth]
    exact h.range i (hl.filled hi) v (hl.given i v hv)
  apart := hl.apart h.apart

theorem range_of_isExtension (h : r.Sound b) (hx : r.IsExtension b.width b x) {i : Nat} {v : Int}
    (hi : i < b.listed) (hv : x.value i = some v) : 1 ≤ v ∧ v ≤ (b.width : Int) := by
  rcases hx.value_cases i with hkept | ⟨u, hu, hbound⟩
  · have hgiven : b.value i = some v := hkept.symm.trans hv
    have hib : i ∈ b.filledCells :=
      Board.mem_filledCells.mpr ⟨hi, hgiven ▸ Option.some_ne_none v⟩
    exact h.range i hib v hgiven
  · cases hu.symm.trans hv
    exact hbound

theorem isExtension (h : r.Sound b) (hb : b.Rectangular) (hl : b.Loosened b')
    (hx : r.IsExtension b.width b x) : r.IsExtension b'.width b' x := by
  have hwidth : b'.width = b.width := congrArg Frame.width hl.frame
  have hlt {i : Nat} (hi : i ∈ b'.emptyCells) : i < b.listed := by
    rw [← hl.listed]
    exact (Board.mem_emptyCells.mp hi).1
  refine ⟨hx.frame.trans hl.frame.symm, hx.regions.trans hl.regions.symm,
    hx.listed.trans hl.listed.symm, fun i hi => hx.kept_of_loosened hb hl hi, ?_, ?_⟩
  · intro i hi
    obtain ⟨v, hv⟩ := Option.ne_none_iff_exists'.mp (hx.value_ne_none (hlt hi))
    rw [hwidth]
    exact ⟨v, hv, h.range_of_isExtension hx (hlt hi) hv⟩
  · -- in the extension all peers differ, cleared givens included
    intro i hi
    exact (hx.apart_iff hb).mpr h.apart i (hx.mem_filledCells (hlt hi))

/-- Taking givens away loses no completed board. -/
theorem completed_subset (h : r.Sound b) (hb : b.Rectangular) (hl : b.Loosened b') :
    b.completed r.allows ⊆ b'.completed r.allows := by
  intro x hx
  rw [mem_completed (hb.congr hl.frame hl.listed)]
  exact h.isExtension hb hl ((mem_completed hb).mp hx)

theorem not_determined (h : r.Sound b) (hb : b.Rectangular)
    (htwo : (b.completed r.allows).Nontrivial) (hl : b.Loosened b') :
    ¬ b'.Determined r.allows := by
  rw [determined_iff_completed (hb.congr hl.frame hl.listed)]
  rintro ⟨x, hx⟩
  have hsub := h.completed_subset hb hl
  rw [hx] at hsub
  exact Set.not_nontrivial_singleton (htwo.mono hsub)

theorem completed_eq (h : r.Sound b) (hb : b.Rectangular) (hl : b.Loosened b')
    (hone : b'.Determined r.allows) (hx : b.completed r.allows = {x}) :
    b'.completed r.allows = {x} := by
  obtain ⟨y, hy⟩ := (determined_iff_completed (hb.congr hl.frame hl.listed)).mp hone
  have hsub := h.completed_subset hb hl
  rw [hx, hy, Set.singleton_subset_singleton] at hsub
  rw [hy, hsub]

end Sound

/-! ## Whole carvings

A carving only takes givens away, so it enlarges the set of completed boards.  It
keeps the board determined, and a board that cannot become so keeps all its givens. -/

/-- Carving a full rectangle with sound givens, in any order and with any bound, on any
machine whose stack suffices: if there is one completed board, the carved board has the
same and no other; and if there are two or more, there are no voids and the board is as
it was. -/
theorem carvings_completed {σ ε : Type} (machine : Machine) (r : Rules) (b : Board)
    (hb : b.Rectangular) (hs : r.Sound b) (memory : σ) (maxHoles : Option Int) :
    let all : Set (Except (SearchFault ε) Unit × Carving σ) :=
      b.carvings (.ofRules r) memory maxHoles machine
    (∀ t, b.carve (.ofRules r) memory maxHoles t machine ∈ all) ∧
      ∀ k ∈ all, (∀ cells, k.1 ≠ .error (.fault (.depthExceeded cells))) →
        ∃ c, k = (.ok (), c) ∧
          (∀ x, b.completed r.allows = {x} → c.board.completed r.allows = {x}) ∧
          ((b.completed r.allows).Nontrivial → c.voids = [] ∧ c.board = b) := by
  refine ⟨fun t => Board.carve_mem_carvings, fun k hk hstack => ?_⟩
  obtain ⟨is, c, -, rfl, hvisits⟩ :=
    Board.visits_of_mem_carvings (answers_ofRules r) hk hstack
  refine ⟨c, rfl, fun x hx => ?_, fun htwo => ?_⟩
  · have hone : b.Determined r.allows := (determined_iff_completed hb).mpr ⟨x, hx⟩
    exact hs.completed_eq hb hvisits.loosened (hvisits.determined hone) hx
  · have hno (i : Nat) : ¬ (b.put i none).Determined r.allows :=
      hs.not_determined hb htwo (Board.loosened_put_none b i)
    obtain ⟨hboard, hvoids⟩ := hvisits.unchanged fun i _ => hno i
    exact ⟨hvoids, hboard⟩

theorem sound_corners : sudoku.Sound corners.board := by decide

theorem determined_corners : corners.board.Determined sudoku.allows := by
  have hj : (Judge.ofRules .sudoku : Judge Unit Empty).Answers sudoku.allows := answers_ofRules _
  have hstack : ¬ OutOfStack (countCompletions (.ofRules .sudoku : Judge Unit Empty) {}
      (.given corners.board.width) corners) :=
    countCompletions_not_outOfStack hj (resolve_width _ _) (by decide)
  obtain ⟨n, hn, hiff⟩ := countCompletions_determined hj hstack (not_reportFailed_of_none rfl _)
  cases hn
  exact hiff.mp rfl

theorem carvings_completed_corners :
    ∃ x c, corners.board.completed sudoku.allows = {x} ∧
      corners.board.carve (.ofRules .sudoku : Judge Unit Empty) () (some 1) (.ofSeed 7) =
        (.ok (), c) ∧
      c.board.completed sudoku.allows = {x} := by
  have hb : corners.board.Rectangular := ⟨rfl, rfl⟩
  obtain ⟨x, hx⟩ := (determined_iff_completed hb).mp determined_corners
  obtain ⟨hcarve, hall⟩ := carvings_completed {} .sudoku corners.board hb sound_corners () (some 1)
  obtain ⟨c, hc, hkeeps, -⟩ := hall _ (hcarve (.ofSeed 7))
    (Board.carve_ne_depthExceeded (answers_ofRules _) (by decide))
  exact ⟨x, c, hx, hc, hkeeps x hx⟩

end Rules

end GridFill
