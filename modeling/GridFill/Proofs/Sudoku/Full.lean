/-
# `GridFill.Proofs.Sudoku.Full` — an empty sudoku can always be filled

Filling an empty sudoku board fails for want of stack only, or of room for a list as
long as a row.  A solution exists for boxes of every shape (`isExtension_pattern`), and
a search finds one if there is one, whatever orders it draws; there are no givens to
clash, so the filled board is won (`filling_fullFrom`).

`fullFrom` is `full` with the orders drawn from any supply instead of a shuffled
one (`full_eq_fullFrom`).
-/
import GridFill.Proofs.Sudoku.Pattern
import GridFill.Sudoku.Basic

namespace GridFill.Sudoku

open Search Rules

/-! ## Squares with boxes

A grid is known by the sides of its boxes; the number of its rows and of its cells
follow from them. -/

/-- A square cut into boxes of the given sides, with as many rows as a box has
cells. -/
structure Grid (box : Box) (b : Board) : Prop where
  rectangular : b.Rectangular
  boxed : b.Boxed box.width.toNat box.height.toNat
  width_eq : (b.width : Int) = box.width * box.height
  height_eq : (b.height : Int) = box.width * box.height

/-- A complete grid with values from `1` to its width that wins. -/
structure Solved (box : Box) (b : Board) : Prop extends Grid box b where
  complete : b.isComplete = true
  range : InRange b b.width
  wins : Rules.sudoku.wins b = .ok true

namespace Grid

variable {box : Box} {b b' : Board}

theorem congr (h : Grid box b) (hf : b'.frame = b.frame) (hr : b'.regions = b.regions)
    (hl : b'.listed = b.listed) : Grid box b' := by
  have hwidth : b'.width = b.width := congrArg Frame.width hf
  have hheight : b'.height = b.height := congrArg Frame.height hf
  obtain ⟨hw, hh, hdw, hdh, heq⟩ := h.boxed
  refine ⟨h.rectangular.congr hf hl, ⟨hw, hh, hwidth ▸ hdw, hheight ▸ hdh, fun i hi => ?_⟩, ?_, ?_⟩
  · rw [Board.region_congr hr, hwidth]
    exact heq i (hf ▸ hi)
  · rw [hwidth, h.width_eq]
  · rw [hheight, h.height_eq]

theorem square (h : Grid box b) : b.height = b.width :=
  Int.natCast_inj.mp (h.height_eq.trans h.width_eq.symm)

theorem area (h : Grid box b) : box.width.toNat * box.height.toNat = b.width := by
  have hw := h.boxed.width_pos
  have hh := h.boxed.height_pos
  refine Int.natCast_inj.mp ?_
  rw [h.width_eq, Int.natCast_mul, Int.toNat_of_nonneg (by omega), Int.toNat_of_nonneg (by omega)]

theorem split (h : Grid box b) : Split b :=
  h.boxed.split h.rectangular h.square h.area

theorem listed_eq (h : Grid box b) :
    (b.listed : Int) = (box.width * box.height) * (box.width * box.height) := by
  rw [h.rectangular.listed, h.rectangular.size_eq, Int.natCast_mul, h.width_eq, h.height_eq]

end Grid

/-! ## The empty board

The checks ask that a box has as many cells as there are rows, and that its sides
divide the square.  Both are so for boxes of any positive sides. -/

theorem exists_square {n : Int} (hn : 1 ≤ n) : ∃ b, Board.rectangle n n = .ok b ∧
    b.Rectangular ∧ (b.width : Int) = n ∧ (b.height : Int) = n ∧ ∀ i, b.value i = none := by
  have hpos : 0 < n.toNat ∧ 0 < n.toNat := by omega
  have hcast : (n.toNat : Int) = n := Int.toNat_of_nonneg (by omega)
  refine ⟨.blank (.rectangle n.toNat n.toNat hpos.1 hpos.2), ?_, ⟨rfl, rfl⟩, hcast, hcast,
    Board.value_blank _⟩
  rw [Board.rectangle, Frame.ofDimensions, dif_pos hpos]
  rfl

theorem exists_empty_of_area {n : Int} {box : Box} (hn : 1 ≤ n)
    (harea : box.width * box.height = n) : ∃ b₀ b : Board, b₀.assignRegions box = .ok b ∧
      empty ⟨n, box⟩ = .ok b ∧ b.Rectangular ∧ (b.width : Int) = n ∧ (b.height : Int) = n ∧
      ∀ i, b.value i = none := by
  obtain ⟨b₀, hb₀, hrect, hwidth, hheight, hnone⟩ := exists_square hn
  have hassign : ∃ b, b₀.assignRegions box = .ok b := by
    refine ⟨_, Board.assignRegions_eq_ok.mpr ⟨⟨?_, ?_⟩, ⟨?_, ?_⟩, rfl⟩⟩
    · rintro h0
      rw [h0, Int.zero_mul] at harea
      omega
    · rintro h0
      rw [h0, Int.mul_zero] at harea
      omega
    · exact ⟨box.height, hwidth.trans harea.symm⟩
    · exact ⟨box.width, (hheight.trans harea.symm).trans (Int.mul_comm _ _)⟩
  obtain ⟨b, hb⟩ := hassign
  have hframe := Board.assignRegions_frame hb
  refine ⟨b₀, b, hb, ?_, hrect.congr hframe (Board.assignRegions_listed hb), ?_, ?_, fun i => ?_⟩
  · rw [empty, if_neg (not_not.mpr harea), hb₀]
    exact hb
  · rw [Board.width, hframe]
    exact hwidth
  · rw [Board.height, hframe]
    exact hheight
  · rw [Board.value, Board.assignRegions_values hb]
    exact hnone i

section

variable {box : Box} (hw : 1 ≤ box.width) (hh : 1 ≤ box.height)

include hw hh

theorem one_le_area : 1 ≤ box.width * box.height := Int.mul_pos hw hh

theorem exists_empty : ∃ b, empty ⟨box.width * box.height, box⟩ = .ok b ∧ Grid box b ∧
    ∀ i, b.value i = none := by
  obtain ⟨b₀, b, hassign, hempty, hrect, hwidth, hheight, hnone⟩ :=
    exists_empty_of_area (one_le_area hw hh) rfl
  exact ⟨b, hempty, ⟨hrect, Board.boxed_of_assignRegions hw hh hassign hrect, hwidth, hheight⟩,
    hnone⟩

end

/-! ## Filling it

There is a solution to be found, and no given that could clash with it.  What can
keep a search from finding it is the machine only (`Filling`): a stack that is too
small, or no room for a list as long as a row. -/

section

variable {ρ : Type}

/-- `full` with the orders drawn from any supply. -/
def fullFrom (m : Measures) (s : Supply ρ) (r : ρ) (machine : Machine := {}) :
    Except Fault (Board × ρ) := do
  let start : Walk Unit ρ := { board := ← empty m, tally := {}, memory := (), supply := r }
  match fill (ε := Empty) (.ofRules .sudoku) machine.quiet s start with
  | (.error e, _) => throw e.toFault
  | (.ok false, _) => throw .unfillable
  | (.ok true, w) => return (w.board, w.supply)

theorem full_eq_fullFrom {m : Measures} (h : 1 ≤ m.size) (t : Twister) (machine : Machine) :
    full m t machine = fullFrom m (.shuffled m.size.toNat) t machine := by
  have hm (b : Board) : (Limit.given m.size).resolve b = .ok m.size.toNat :=
    if_neg (by omega)
  unfold full fullFrom
  simp only [randomSolve_eq_fill (hm _)]
  rcases empty m with f | b
  · rfl
  · simp only [bind, Except.bind]
    rcases fill (ε := Empty) (.ofRules .sudoku) machine.quiet (.shuffled m.size.toNat)
      { board := b, tally := {}, memory := (), supply := t } with ⟨_ | _ | _, _⟩ <;> rfl

/-- What filling an empty sudoku can come to on a machine, if each frame makes a list
of so many values: the stack has not a frame for every cell, or there is no room for
such a list, or the sudoku is solved. -/
inductive Filling (machine : Machine) (length : Nat) (box : Box) :
    Except Fault (Board × ρ) → Prop where
  | outOfStack {k : Nat}
      (hcells : machine.depthLimit < (box.width * box.height) * (box.width * box.height)) :
      Filling machine length box (.error (.depthExceeded k))
  | noRoom (hlength : machine.lengthLimit < length) :
      Filling machine length box (.error .lengthWidth)
  | solved {b : Board} {r : ρ}
      (hcells : (box.width * box.height) * (box.width * box.height) ≤ machine.depthLimit)
      (hlength : length ≤ machine.lengthLimit) (hsolved : Solved box b) :
      Filling machine length box (.ok (b, r))

namespace Filling

variable {machine : Machine} {length : Nat} {box : Box} {a : Except Fault (Board × ρ)}

theorem outcome (h : Filling machine length box a) : a ≠ .error .unfillable ∧
    ((∀ k, a ≠ .error (.depthExceeded k)) →
      machine.lengthLimit < length ∧ a = .error .lengthWidth ∨
        ∃ b r, a = .ok (b, r) ∧ Solved box b) := by
  cases h with
  | outOfStack => exact ⟨by rintro ⟨⟩, fun hstack => absurd rfl (hstack _)⟩
  | noRoom hlength => exact ⟨by rintro ⟨⟩, fun _ => .inl ⟨hlength, rfl⟩⟩
  | solved _ _ hsolved => exact ⟨by rintro ⟨⟩, fun _ => .inr ⟨_, _, rfl, hsolved⟩⟩

theorem ne_depthExceeded (h : Filling machine length box a)
    (hcells : (box.width * box.height) * (box.width * box.height) ≤ machine.depthLimit) (k : Nat) :
    a ≠ .error (.depthExceeded k) := by
  cases h with
  | outOfStack hlt => exact absurd hcells (Int.not_le.mpr hlt)
  | noRoom | solved => rintro ⟨⟩

end Filling

variable {box : Box} {b b' : Board}

/-- A grid without values can only be filled with a solution: there are no givens
to clash. -/
theorem Grid.solved (h : Grid box b) (hnone : ∀ i, b.value i = none)
    (hext : Rules.sudoku.IsExtension b.width b b') : Solved box b' := by
  have hgrid := h.congr hext.frame hext.regions hext.listed
  have hrange : InRange b' b'.width := by
    intro i hi
    have hlt : i < b.listed := by rwa [hext.frame, ← h.rectangular.listed] at hi
    rw [Board.width, hext.frame]
    exact hext.filled i (Board.mem_emptyCells.mpr ⟨hlt, hnone i⟩)
  have hfits : Rules.sudoku.Fits b.width b :=
    ⟨fun i v hv => by simp [hnone i] at hv, Nat.le_refl _, h.split⟩
  have hapart : Rules.sudoku.Apart b.filledCells b := fun i hi =>
    absurd (hnone i) (Board.mem_filledCells.mp hi).2
  obtain ⟨won, hwon, hiff⟩ := (hext.decides_wins h.rectangular hfits).decides trivial
  rw [hiff.mpr hapart] at hwon
  exact ⟨hgrid, hext.isComplete, hrange, hwon⟩

theorem Grid.exists_completion (h : Grid box b) (hnone : ∀ i, b.value i = none) :
    ∃ vs, IsCompletion Rules.sudoku.allows b.width b vs := by
  have hext := Board.isExtension_pattern h.rectangular h.boxed h.square h.area
    (Board.emptyCells_of_value_eq_none hnone)
  obtain ⟨vs, hvs, -⟩ := (isExtension_iff h.rectangular).mp hext
  exact ⟨vs, hvs⟩

theorem Grid.length_emptyCells (h : Grid box b) (hnone : ∀ i, b.value i = none) :
    (b.emptyCells.length : Int) = (box.width * box.height) * (box.width * box.height) := by
  rw [Board.emptyCells_of_value_eq_none hnone, Board.cells, List.length_range, h.listed_eq]

variable {machine : Machine} (hw : 1 ≤ box.width) (hh : 1 ≤ box.height) {s : Supply ρ}
  (hs : ∀ r, (s.draw r).1.toList.Perm (valuesTo (box.width * box.height).toNat))

include hw hh hs

/-- Whatever the orders that are drawn, filling an empty sudoku ends in one of the ways of
`Filling`. -/
theorem filling_fullFrom (r : ρ) : Filling machine s.listLength box
    (fullFrom ⟨box.width * box.height, box⟩ s r machine) := by
  obtain ⟨b, hb, hgrid, hnone⟩ := exists_empty hw hh
  have hvalues : (box.width * box.height).toNat = b.width := by
    have := hgrid.width_eq
    omega
  rw [hvalues] at hs
  have hj : (Judge.ofRules .sudoku : Judge Unit Empty).Answers Rules.sudoku.allows :=
    answers_ofRules .sudoku
  have hcells := hgrid.length_emptyCells hnone
  let w : Walk Unit ρ := { board := b, tally := {}, memory := (), supply := r }
  have hfull : fullFrom ⟨box.width * box.height, box⟩ s r machine =
      match fill (ε := Empty) (.ofRules .sudoku) machine.quiet s w with
      | (.error e, _) => .error e.toFault
      | (.ok false, _) => .error .unfillable
      | (.ok true, w) => .ok (w.board, w.supply) := by
    rw [fullFrom, hb]
    rfl
  rw [hfull]
  by_cases hroom : s.listLength ≤ machine.lengthLimit
  case neg =>
    have hempty : b.emptyCells ≠ [] := by
      have harea := one_le_area hw hh
      have hpos := Int.mul_pos harea harea
      exact List.ne_nil_of_length_pos (by omega)
    have hfill := fill_of_not_room (j := (Judge.ofRules .sudoku : Judge Unit Empty)) (w := w) hroom
      (machine.quiet.not_reportFault_of_none rfl) hempty
    rcases hr : fill (ε := Empty) (.ofRules .sudoku) machine.quiet s w with ⟨a, w'⟩
    rw [hr] at hfill
    subst hfill
    exact .noRoom (Nat.lt_of_not_le hroom)
  by_cases hstack : OutOfStack (fill (ε := Empty) (.ofRules .sudoku) machine.quiet s w)
  · have hdeep : machine.depthLimit < b.emptyCells.length :=
      Nat.lt_of_not_le fun hle => fill_not_outOfStack hj hle hstack
    obtain ⟨k, hk⟩ := hstack
    rcases hfill : fill (ε := Empty) (.ofRules .sudoku) machine.quiet s w with ⟨a, w'⟩
    rw [hfill] at hk
    subst hk
    exact .outOfStack (by omega)
  · rcases fill_outcome hj (draws_of_perm hs) w (.inr hroom) hstack
      (not_reportFailed_of_none rfl _) with
      ⟨hr, vs, hvs, hfilled, -⟩ | ⟨-, hno, -⟩
    · have hdeep : b.emptyCells.length ≤ machine.depthLimit := fill_depth_le hr
      have hext := (isExtension_iff hgrid.rectangular).mpr ⟨vs, hvs, hfilled⟩
      rcases hfill : fill (ε := Empty) (.ofRules .sudoku) machine.quiet s w with ⟨a, w'⟩
      rw [hfill] at hr hext
      subst hr
      exact .solved (by omega) hroom (hgrid.solved hnone hext)
    · -- coming back empty-handed, the search would have missed the pattern
      obtain ⟨vs, hvs⟩ := hgrid.exists_completion hnone
      exact absurd hvs (hno vs)

omit hs in
theorem filling_full (t : Twister) : Filling machine (box.width * box.height).toNat box
    (full ⟨box.width * box.height, box⟩ t machine) := by
  rw [full_eq_fullFrom (one_le_area hw hh)]
  exact filling_fullFrom hw hh (draws_shuffled _).perm t

end

/-- Filling an empty sudoku with boxes of any positive sides, on any machine, never comes
back empty-handed.  Unless the stack runs out, the board is complete and wins; only a
machine that has no room for a list as long as a row fails otherwise.  This holds with
shuffled orders, and with orders that come about in any other way. -/
theorem full_solved (machine : Machine) (box : Box) (hw : 1 ≤ box.width) (hh : 1 ≤ box.height) :
    let m : Measures := ⟨box.width * box.height, box⟩
    (∀ t : Twister, full m t machine ≠ .error .unfillable ∧
      ((∀ k, full m t machine ≠ .error (.depthExceeded k)) →
        machine.lengthLimit < m.size ∧ full m t machine = .error .lengthWidth ∨
          ∃ b t', full m t machine = .ok (b, t') ∧ Solved box b)) ∧
    (∀ (ρ : Type) (s : Supply ρ), (∀ r, (s.draw r).1.toList.Perm (valuesTo m.size.toNat)) →
      ∀ r, fullFrom m s r machine ≠ .error .unfillable ∧
        ((∀ k, fullFrom m s r machine ≠ .error (.depthExceeded k)) →
          machine.lengthLimit < s.listLength ∧ fullFrom m s r machine = .error .lengthWidth ∨
            ∃ b r', fullFrom m s r machine = .ok (b, r') ∧ Solved box b)) := by
  intro m
  constructor
  · intro t
    have hfilling : Filling machine m.size.toNat box (full m t machine) := filling_full hw hh t
    obtain ⟨hne, hcases⟩ := hfilling.outcome
    refine ⟨hne, fun hstack => (hcases hstack).imp_left fun ⟨hlength, hr⟩ => ⟨?_, hr⟩⟩
    exact Int.lt_toNat.mp hlength
  · intro ρ s hs r
    exact (filling_fullFrom hw hh hs r).outcome

theorem full_solved_nine :
    (∃ b t, full .nine (.ofSeed 7) = .ok (b, t) ∧ Solved .three b) ∧
      ∃ b u, fullFrom .nine (.ascending 9) () = .ok (b, u) ∧ Solved .three b := by
  have hw : 1 ≤ Box.three.width := by decide
  have hh : 1 ≤ Box.three.height := by decide
  have hcells : (Box.three.width * Box.three.height) * (Box.three.width * Box.three.height) ≤
      (({} : Machine).depthLimit : Int) := by decide
  obtain ⟨hfull, hfrom⟩ := full_solved {} .three hw hh
  have hstack : ∀ k, full .nine (.ofSeed 7) ≠ .error (.depthExceeded k) :=
    (filling_full hw hh _).ne_depthExceeded hcells
  have hstack' : ∀ k, fullFrom .nine (.ascending 9) () ≠ .error (.depthExceeded k) :=
    (filling_fullFrom hw hh (draws_ascending 9).perm ()).ne_depthExceeded hcells
  refine ⟨((hfull (.ofSeed 7)).2 hstack).resolve_left ?_,
    ((hfrom Unit (.ascending 9) (draws_ascending 9).perm ()).2 hstack').resolve_left ?_⟩
  · exact fun h => absurd h.1 (by decide)
  · exact fun h => absurd h.1 (by decide)

end GridFill.Sudoku
