/-
# `GridFill.Proofs.Rules.Givens` — a filled board is won when its givens allow it

A search compares every value it places with the values of all peers, but it
never compares two givens with each other.  So on a board that a search has
filled, the only cells that can clash are two that were given
(`IsExtension.apart_iff`), and the board is won exactly when no given has the
value of another given that is its peer.

That needs the rules and the board to fit (`Suits`).  The table of marks takes
no negative values, and a sudoku is not won with values beyond its width or with
regions that do not cut it into boxes of as many cells as it has rows.
-/
import GridFill.Proofs.Sudoku.Box

namespace GridFill.Rules

open Search

section

variable {r : Rules} {m : Nat} {b b' : Board} {i : Nat}

theorem Split.congr (h : Split b) (hf : b'.frame = b.frame) (hr : b'.regions = b.regions)
    (hl : b'.listed = b.listed) : Split b' := by
  have hregion : b'.region = b.region := funext (Board.region_congr hr)
  have hcells : b'.cells = b.cells := by rw [Board.cells, hl, Board.cells]
  have hwidth : b'.width = b.width := congrArg Frame.width hf
  have hheight : b'.height = b.height := congrArg Frame.height hf
  have hof : regionsOf b' = regionsOf b := by rw [regionsOf, hcells, hregion, regionsOf]
  refine ⟨?_, ?_, ?_, ?_⟩
  · rw [hheight, hwidth, h.square]
  · rw [hf, hregion]
    exact h.named
  · rw [hof, hwidth, h.count]
  · rw [hof, hwidth]
    intro region hmem
    rw [regionCells, hcells, hregion]
    exact h.cells region hmem

/-! ## What an extension keeps and adds

Its values are the givens and values from `1` to `m`.  A value that was added is
different from those of all its peers, so that only two givens can clash. -/

namespace IsExtension

variable (h : r.IsExtension m b b')

include h

theorem rectangular (hb : b.Rectangular) : b'.Rectangular :=
  hb.congr h.frame h.listed

theorem value_cases (i : Nat) :
    b'.value i = b.value i ∨ ∃ v : Int, b'.value i = some v ∧ 1 ≤ v ∧ v ≤ m := by
  by_cases hi : i ∈ b.emptyCells
  · exact .inr (h.filled i hi)
  · exact .inl (h.kept i hi)

theorem value_ne_none (hi : i < b.listed) : b'.value i ≠ none := by
  by_cases hmem : i ∈ b.emptyCells
  · obtain ⟨v, hv, -⟩ := h.filled i hmem
    rw [hv]
    exact Option.some_ne_none v
  · rw [h.kept i hmem]
    intro hnone
    exact hmem (Board.mem_emptyCells.mpr ⟨hi, hnone⟩)

theorem isComplete : b'.isComplete = true :=
  isComplete_iff.mpr fun _ hi => h.value_ne_none (h.listed ▸ hi)

/-- In an extension peers differ exactly when they do among the givens. -/
theorem apart_iff (hb : b.Rectangular) :
    r.Apart b'.filledCells b' ↔ r.Apart b.filledCells b := by
  have hsize : b'.frame.size = b.frame.size := by rw [h.frame]
  have hfilled : ∀ k, k ∈ b.filledCells → k ∉ b.emptyCells := fun k hk hmem =>
    (Board.mem_filledCells.mp hk).2 (Board.mem_emptyCells.mp hmem).2
  constructor
  · intro hap i hi j hj hne hp
    have hkept := h.kept i (hfilled i hi)
    by_cases hmem : j ∈ b.emptyCells
    · rw [(Board.mem_emptyCells.mp hmem).2]
      exact (Board.mem_filledCells.mp hi).2
    · have hi' : i ∈ b'.filledCells := by
        rw [Board.mem_filledCells, h.listed, hkept]
        exact Board.mem_filledCells.mp hi
      have hdiff := hap i hi' j (hsize ▸ hj) hne ((peers_congr h.frame h.regions).mpr hp)
      rwa [hkept, h.kept j hmem] at hdiff
  · intro hap i hi j hj hne hp
    rw [hsize] at hj
    obtain ⟨hilt, -⟩ := Board.mem_filledCells.mp hi
    rw [h.listed] at hilt
    by_cases hmem : i ∈ b.emptyCells
    · exact h.apart i hmem j (hsize ▸ hj) hne hp
    · by_cases hjmem : j ∈ b.emptyCells
      · have hi' : i < b'.frame.size := by rw [hsize, ← hb.listed]; exact hilt
        exact (h.apart j hjmem i hi' hne.symm hp.symm).symm
      · have hgiven : i ∈ b.filledCells := Board.mem_filledCells.mpr
          ⟨hilt, fun hnone => hmem (Board.mem_emptyCells.mpr ⟨hilt, hnone⟩)⟩
        rw [h.kept i hmem, h.kept j hjmem]
        exact hap i hgiven j hj hne ((peers_congr h.frame h.regions).mp hp)

end IsExtension

/-! ## Winning an extension

Winning asks more of a board than that peers differ.  A board that suits the rules
has the rest from the start: no value that the table of marks cannot tell apart,
and for a sudoku the range and the regions. -/

/-- The boards and greatest values for which a rule set accepts value by value
what it takes to win.  No given is negative; and for a sudoku the givens are
values from `1` to the width, no greater ones are tried, and the regions are
boxes with as many cells as the square has rows. -/
def Suits (m : Nat) (b : Board) : Rules → Prop
  | permissive => True
  | rowUnique | latin => ∀ i, ∀ v : Int, b.value i = some v → 0 ≤ v
  | sudoku =>
      (∀ i, ∀ v : Int, b.value i = some v → 1 ≤ v ∧ v ≤ b.width) ∧ m ≤ b.width ∧
        ∃ (b₀ : Board) (box : Box), 0 < box.width ∧ 0 < box.height ∧
          b₀.height = b₀.width ∧ box.width * box.height = b₀.width ∧
          b₀.assignRegions box = .ok b

theorem split_of_assignRegions {b₀ : Board} {box : Box} (hb : b.Rectangular)
    (hw : 0 < box.width) (hh : 0 < box.height) (hsquare : b₀.height = b₀.width)
    (harea : box.width * box.height = b₀.width) (h : b₀.assignRegions box = .ok b) :
    Split b := by
  have hframe := Board.assignRegions_frame h
  have hwidth : b.width = b₀.width := congrArg Frame.width hframe
  have hheight : b.height = b₀.height := congrArg Frame.height hframe
  refine (Board.boxed_of_assignRegions hw hh h hb).split hb ?_ ?_
  · rw [hheight, hwidth, hsquare]
  · refine Int.natCast_inj.mp ?_
    rw [Int.natCast_mul, Int.toNat_of_nonneg (Int.le_of_lt hw),
      Int.toNat_of_nonneg (Int.le_of_lt hh), harea, hwidth]

/-- What matters of that: the regions as they are, not how they came about. -/
def Fits (m : Nat) (b : Board) : Rules → Prop
  | permissive => True
  | rowUnique | latin => ∀ i, ∀ v : Int, b.value i = some v → 0 ≤ v
  | sudoku => (∀ i, ∀ v : Int, b.value i = some v → 1 ≤ v ∧ v ≤ b.width) ∧ m ≤ b.width ∧ Split b

theorem Suits.fits (hb : b.Rectangular) (h : r.Suits m b) : r.Fits m b := by
  cases r with
  | permissive | rowUnique | latin => exact h
  | sudoku =>
      obtain ⟨hgiven, hm, b₀, box, hw, hh, hsquare, harea, hassign⟩ := h
      exact ⟨hgiven, hm, split_of_assignRegions hb hw hh hsquare harea hassign⟩

theorem IsExtension.decides_wins (h : r.IsExtension m b b') (hb : b.Rectangular)
    (hr : r.Fits m b) : DecidesIf (r.Markable b') (r.wins b') (r.Apart b.filledCells b) := by
  have hb' := h.rectangular hb
  have hcomplete := h.isComplete
  rw [← h.apart_iff hb]
  have hnonneg (hv : ∀ i, ∀ v : Int, b.value i = some v → 0 ≤ v) (i : Nat) (v : Int)
      (hi : b'.value i = some v) : 0 ≤ v := by
    rcases h.value_cases i with hkept | ⟨u, hu, h1, -⟩
    · exact hv i v (hkept ▸ hi)
    · rw [hu, Option.some.injEq] at hi
      omega
  cases r with
  | permissive =>
      exact (decides_ok ⟨fun _ _ _ _ _ _ hp => hp.elim, fun _ => hcomplete⟩).decidesIf
  | rowUnique =>
      exact (decides_wins_rowUnique hb' (hnonneg hr)).congr (and_iff_right hcomplete)
  | latin =>
      refine (decides_wins_latin hb' (hnonneg hr)).congr ?_
      rw [and_iff_right hcomplete, ← separate_or]
      rfl
  | sudoku =>
      obtain ⟨hgiven, hm, hsplit⟩ := hr
      have hsplit' := hsplit.congr h.frame h.regions h.listed
      have hwidth : b'.width = b.width := congrArg Frame.width h.frame
      have hrange : InRange b' b'.width := by
        intro i hi
        rcases h.value_cases i with hkept | ⟨u, hu, h1, h2⟩
        · obtain ⟨v, hv⟩ := Option.ne_none_iff_exists'.mp
            (h.value_ne_none (i := i) (by rwa [← h.listed, hb'.listed]))
          refine ⟨v, hv, ?_⟩
          rw [hwidth]
          exact hgiven i v (hkept ▸ hv)
        · exact ⟨u, hu, h1, by rw [hwidth]; omega⟩
      refine (decides_ok ((wonSudoku_iff hb').trans ?_)).decidesIf
      rw [and_iff_right hsplit', and_iff_right hrange, apart_filledCells_iff]

end

/-! ## Whole searches

Every search that reports a filled board has filled it with an extension, in
whatever order it tried the values. -/

section

variable {σ ρ ε : Type} {r : Rules} {m : Nat} {rel : Int → Int → Prop} {j : Judge σ ε}
  {c : Conditions} {s : Supply ρ}

theorem isExtension_of_fill (hj : j.Answers r.allows) (hs : s.Draws m rel) {w : Walk σ ρ}
    (hb : w.board.Rectangular) (hr : (fill j c s w).1 = .ok true) :
    r.IsExtension m w.board (fill j c s w).2.board := by
  obtain ⟨vs, hvs, hfilled, -⟩ := fill_first hj hs hr
  exact (isExtension_iff hb).mpr ⟨vs, hvs, hfilled⟩

end

/-- Whichever search fills a full rectangle that suits the rules, in ascending
order, at random or in any other order of the values, the filled board is judged
without a fault if its values can be marked, and when it is judged, it is won exactly
if no given has the value of another given that is its peer. -/
theorem filled_wins_iff {σ ε : Type} (r : Rules) (c : Conditions) (limit : Limit) (m : Nat)
    (b : Board) (hb : b.Rectangular) (hm : limit.resolve b = .ok m) (hr : r.Suits m b) :
    let j : Judge σ ε := .ofRules r
    (∀ w : Walk σ Unit, w.board = b → (solve j c limit w).1 = .ok true →
      DecidesIf (r.Markable (solve j c limit w).2.board)
        (r.wins (solve j c limit w).2.board) (r.Apart b.filledCells b)) ∧
    (∀ w : Walk σ Twister, w.board = b → (randomSolve j c limit w).1 = .ok true →
      DecidesIf (r.Markable (randomSolve j c limit w).2.board)
        (r.wins (randomSolve j c limit w).2.board) (r.Apart b.filledCells b)) ∧
    (∀ (ρ : Type) (s : Supply ρ), (∀ t, (s.draw t).1.toList.Perm (valuesTo m)) →
      ∀ w : Walk σ ρ, w.board = b → (fill j c s w).1 = .ok true →
        DecidesIf (r.Markable (fill j c s w).2.board)
          (r.wins (fill j c s w).2.board) (r.Apart b.filledCells b)) := by
  intro j
  have hany {ρ : Type} {s : Supply ρ} {rel : Int → Int → Prop} (hs : s.Draws m rel) (w : Walk σ ρ)
      (hw : w.board = b) (hfill : (fill j c s w).1 = .ok true) :
      DecidesIf (r.Markable (fill j c s w).2.board) (r.wins (fill j c s w).2.board)
        (r.Apart b.filledCells b) := by
    subst hw
    exact (isExtension_of_fill (answers_ofTest r.allows) hs hb hfill).decides_wins hb (hr.fits hb)
  refine ⟨fun w hw => ?_, fun w hw => ?_, fun ρ s hs w hw => hany (draws_of_perm hs) w hw⟩
  · rw [solve_eq_fill (hw ▸ hm)]
    exact hany (draws_ascending m) w hw
  · rw [randomSolve_eq_fill (hw ▸ hm)]
    exact hany (draws_shuffled m) w hw

/-- A square of two rows with a `1` in two opposite corners. -/
def twoCorners : Board :=
  ((Board.blank (.rectangle 2 2 (by decide) (by decide))).put 0 (some 1)).put 3 (some 1)

/-- A walk on that square, with a box for each row. -/
def corners : Walk Unit Unit where
  board := twoCorners.numberBoxes ⟨2, 1⟩ 1 0 4
  tally := {}
  memory := ()
  supply := ()

theorem filled_wins_iff_small :
    let r := solve (.ofRules .rowUnique : Judge Unit Empty) {} (.given 2) clashing
    let s := solve (.ofRules .sudoku : Judge Unit Empty) {} (.given 2) corners
    (r.1 = .ok true ∧ rowUnique.wins r.2.board = .ok false ∧
      ¬ rowUnique.Apart clashing.board.filledCells clashing.board) ∧
    (s.1 = .ok true ∧ sudoku.wins s.2.board = .ok true ∧
      sudoku.Apart corners.board.filledCells corners.board) := by
  constructor
  · have hv : rowUnique.Suits 2 clashing.board := by
      intro i v h
      match i, h with
      | 0, h => cases h; decide
      | 1, h => cases h; decide
      | 2, h | n + 3, h => cases h
    obtain ⟨hsolve, -, -⟩ := filled_wins_iff (σ := Unit) (ε := Empty) .rowUnique {} (.given 2) 2
      clashing.board ⟨rfl, rfl⟩ rfl hv
    have hiff := (hsolve clashing rfl rfl).sound false rfl
    exact ⟨rfl, rfl, fun h => absurd (hiff.mpr h) (by decide)⟩
  · have hv : sudoku.Suits 2 corners.board := by
      refine ⟨fun i v h => ?_, by decide, twoCorners, ⟨2, 1⟩, by decide, by decide, rfl, rfl, rfl⟩
      match i, h with
      | 0, h => cases h; decide
      | 3, h => cases h; decide
      | 1, h | 2, h | n + 4, h => cases h
    obtain ⟨hsolve, -, -⟩ := filled_wins_iff (σ := Unit) (ε := Empty) .sudoku {} (.given 2) 2
      corners.board ⟨rfl, rfl⟩ rfl hv
    have hiff := (hsolve corners rfl rfl).sound true rfl
    exact ⟨rfl, rfl, hiff.mp rfl⟩

/-- A walk on a board of one cell, with a value of 65 bits in it. -/
def huge : Walk Unit Unit where
  board := (Board.blank (.rectangle 1 1 Nat.one_pos Nat.one_pos)).put 0
    (some 18446744073709551616)
  tally := {}
  memory := ()
  supply := ()

/-- A board on which no two givens are equal is reported as filled, and it is not judged,
since the table of marks cannot grow to the one value on it. -/
theorem filled_wins_iff_huge :
    let r := solve (.ofRules .rowUnique : Judge Unit Empty) {} (.given 1) huge
    rowUnique.Suits 1 huge.board ∧ rowUnique.Apart huge.board.filledCells huge.board ∧
      r.1 = .ok true ∧ rowUnique.wins r.2.board = .error .lengthWidth ∧
      ¬ Decides (rowUnique.wins r.2.board) (rowUnique.Apart huge.board.filledCells huge.board) := by
  have hfault : rowUnique.wins huge.board = .error .lengthWidth := rfl
  refine ⟨fun i v h => ?_, fun i hi j hj hne => ?_, rfl, hfault, ?_⟩
  · match i, h with
    | 0, h => cases h; decide
    | n + 1, h => cases h
  · have hi : i < 1 := (Board.mem_filledCells.mp hi).1
    have hj : j < 1 := hj
    omega
  · rintro ⟨yes, hyes, -⟩
    exact absurd (hfault.symm.trans hyes) (by rintro ⟨⟩)

end GridFill.Rules
