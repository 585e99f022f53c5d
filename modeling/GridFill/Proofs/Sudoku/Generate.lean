/-
# `GridFill.Proofs.Sudoku.Generate` — generated puzzles are proper

A sudoku is proper if its givens are in range and do not clash and it has exactly
one solution (`Proper`).  On a proper sudoku the searches behave as a player
expects: counting finds one completion, and solving finds it, keeps the givens
and wins (`Proper.count`, `Proper.solve`).

A generated puzzle is a solved grid with some cells cleared.  The solved grid is
determined because it is complete, carving keeps a board determined, and
clearing cells brings no clash: so the puzzle is proper (`Solved.proper`).
-/
import GridFill.Proofs.Carve.Visit
import GridFill.Proofs.Sudoku.Full
import GridFill.Sudoku.Basic

namespace GridFill.Sudoku

open Search Rules

variable {box : Box} {b b' : Board}

/-! ## Proper sudokus

All that the searches do on a proper sudoku follows from its one solution, whatever
it was made from. -/

/-- A grid with givens in range, none of which clash, and exactly one solution. -/
structure Proper (box : Box) (b : Board) : Prop extends Grid box b where
  fits : Rules.sudoku.Fits b.width b
  apart : Rules.sudoku.Apart b.filledCells b
  determined : b.Determined Rules.sudoku.allows

section

variable {voids : List Nat}

theorem Solved.mem_emptyCells_iff (h : Solved box b) (hc : b.Cleared voids b')
    (hfilled : ∀ i ∈ voids, i ∈ b.filledCells) {i : Nat} : i ∈ voids ↔ i ∈ b'.emptyCells := by
  rw [Board.mem_emptyCells, hc.listed]
  constructor
  · intro hi
    exact ⟨(Board.mem_filledCells.mp (hfilled i hi)).1, hc.void i hi⟩
  · rintro ⟨hlt, hv⟩
    by_contra hi
    rw [hc.kept i hi] at hv
    exact isComplete_iff.mp h.complete i hlt hv

theorem Solved.apart (h : Solved box b) : Rules.sudoku.Apart b.filledCells b := by
  have hwon : wonSudoku b = true := Except.ok.inj h.wins
  exact ((wonSudoku_iff h.rectangular).mp hwon).2.2

/-- A solved grid in which cells were cleared is proper if one solution is left. -/
theorem Solved.proper (h : Solved box b) (hc : b.Cleared voids b')
    (hone : b'.Determined Rules.sudoku.allows) : Proper box b' := by
  have hgrid := h.congr hc.frame hc.regions hc.listed
  refine ⟨hgrid, ⟨fun i v hv => ?_, Nat.le_refl _, hgrid.split⟩, hc.loosened.apart h.apart, hone⟩
  have hv := hc.loosened.given i v hv
  obtain ⟨u, hu, hbound⟩ := h.range i (Board.lt_size_of_value_eq_some hv)
  rw [hv, Option.some.injEq] at hu
  rw [Board.width, hc.frame, hu]
  exact hbound

end

namespace Proper

variable {σ ε : Type} {c : Conditions} {w : Walk σ Unit}

theorem not_outOfStack (h : Proper box w.board)
    (hle : (box.width * box.height) * (box.width * box.height) ≤ c.depthLimit) :
    ¬ OutOfStack (countCompletions (.ofRules .sudoku : Judge σ ε) c
        (.given (box.width * box.height)) w) ∧
      ¬ OutOfStack (Search.solve (.ofRules .sudoku : Judge σ ε) c
        (.given (box.width * box.height)) w) := by
  have hcells : w.board.emptyCells.length ≤ c.depthLimit := by
    have hlisted := h.listed_eq
    have hempty := w.board.length_emptyCells_le
    omega
  have hj : (Judge.ofRules .sudoku : Judge σ ε).Answers Rules.sudoku.allows :=
    answers_ofRules .sudoku
  rw [← h.width_eq]
  exact ⟨countCompletions_not_outOfStack hj (resolve_width _ _) hcells,
    solve_not_outOfStack hj (resolve_width _ _) hcells⟩

theorem count (h : Proper box w.board)
    (hstack : ¬ OutOfStack (countCompletions (.ofRules .sudoku : Judge σ ε) c
      (.given (box.width * box.height)) w))
    (hreport : ¬ c.ReportFailed (countCompletions (.ofRules .sudoku : Judge σ ε) c
      (.given (box.width * box.height)) w)) :
    (countCompletions (.ofRules .sudoku : Judge σ ε) c (.given (box.width * box.height)) w).1 =
      .ok ⟨true, false⟩ := by
  rw [← h.width_eq] at hstack hreport ⊢
  obtain ⟨hr, -⟩ :=
    countCompletions_outcome (answers_ofRules .sudoku) (resolve_width _ _) hstack hreport
  rw [hr, Board.determined_iff_ncard.mp h.determined]
  rfl

theorem solve (h : Proper box w.board)
    (hstack : ¬ OutOfStack (Search.solve (.ofRules .sudoku : Judge σ ε) c
      (.given (box.width * box.height)) w))
    (hreport : ¬ c.ReportFailed (Search.solve (.ofRules .sudoku : Judge σ ε) c
      (.given (box.width * box.height)) w)) :
    let r := Search.solve (.ofRules .sudoku : Judge σ ε) c (.given (box.width * box.height)) w
    r.1 = .ok true ∧ Rules.sudoku.wins r.2.board = .ok true ∧
      ∀ i, i ∉ w.board.emptyCells → r.2.board.value i = w.board.value i := by
  rw [← h.width_eq] at hstack hreport ⊢
  rw [solve_eq_fill (resolve_width _ _)] at hstack hreport ⊢
  rcases fill_outcome (answers_ofRules .sudoku) (draws_ascending _) w (.inr (Nat.zero_le _)) hstack
    hreport with ⟨hr, vs, hvs, hfilled, -⟩ | ⟨-, hno, -⟩
  · have hext := (isExtension_iff h.rectangular).mpr ⟨vs, hvs, hfilled⟩
    obtain ⟨won, hwon, hiff⟩ := (hext.decides_wins h.rectangular h.fits).decides trivial
    rw [hiff.mpr h.apart] at hwon
    exact ⟨hr, hwon, hext.kept⟩
  · obtain ⟨vs, hvs⟩ := h.determined.exists
    exact absurd hvs (hno vs)

end Proper

/-! ## Generated puzzles

A grid is filled and then carved with the same source of randomness.  A stack that
sufficed for filling it suffices for all that comes after, since no count meets
more empty cells. -/

section

variable {machine : Machine} {m : Measures} {maxHoles : Option Int} {t t' : Twister}

theorem generate_of_full_error {f : Fault} (h : full m t machine = .error f) :
    generate m maxHoles t machine = .error f := by
  rw [generate, h]
  rfl

theorem generate_of_full (h : full m t machine = .ok (b, t')) :
    generate m maxHoles t machine =
      match b.carve (ε := Empty) (.ofRules .sudoku) () maxHoles t' machine with
      | (.error e, _) => .error e.toFault
      | (.ok _, c) => .ok ⟨c.board, c.voids⟩ := by
  rw [generate, h]
  rfl

end

/-- What generating a puzzle can come to on a machine: the stack has not a frame for
every cell, or there is no room for a list as long as a row, or the cells of a solved
grid were visited in some order. -/
inductive Generating (machine : Machine) (box : Box) (maxHoles : Option Int) :
    Except Fault Generated → Prop where
  | outOfStack {k : Nat}
      (hcells : machine.depthLimit < (box.width * box.height) * (box.width * box.height)) :
      Generating machine box maxHoles (.error (.depthExceeded k))
  | noRoom (hlength : machine.lengthLimit < box.width * box.height) :
      Generating machine box maxHoles (.error .lengthWidth)
  | carved {b : Board} {is : List Nat} {c : Carving Unit}
      (hcells : (box.width * box.height) * (box.width * box.height) ≤ machine.depthLimit)
      (hsolved : Solved box b) (his : is.Perm b.filledCells)
      (hvisits : Carving.Visits machine Rules.sudoku.allows maxHoles is ⟨b, [], ()⟩ c) :
      Generating machine box maxHoles (.ok ⟨c.board, c.voids⟩)

theorem generating {machine : Machine} (hw : 1 ≤ box.width) (hh : 1 ≤ box.height)
    (maxHoles : Option Int) (t : Twister) : Generating machine box maxHoles
      (generate ⟨box.width * box.height, box⟩ maxHoles t machine) := by
  have hfilling : Filling machine (box.width * box.height).toNat box
      (full ⟨box.width * box.height, box⟩ t machine) := filling_full hw hh t
  rcases hfull : full ⟨box.width * box.height, box⟩ t machine with f | ⟨b, t'⟩
  · rw [hfull] at hfilling
    rw [generate_of_full_error hfull]
    cases hfilling with
    | outOfStack hcells => exact .outOfStack hcells
    | noRoom hlength => exact .noRoom (Int.lt_toNat.mp hlength)
  · rw [hfull] at hfilling
    cases hfilling with
    | solved hcells hlength hsolved =>
        have hlisted : b.listed ≤ machine.depthLimit := by
          have := hsolved.listed_eq
          omega
        have hj : (Judge.ofRules .sudoku : Judge Unit Empty).Answers Rules.sudoku.allows :=
          answers_ofRules .sudoku
        obtain ⟨is, c, his, hc, hvisits⟩ :=
          Board.visits_carve hj (Board.carve_ne_depthExceeded hj hlisted)
        rw [generate_of_full hfull, hc]
        exact .carved hcells hsolved his hvisits

theorem Generating.ne_depthExceeded {machine : Machine} {maxHoles : Option Int}
    {a : Except Fault Generated} (h : Generating machine box maxHoles a)
    (hcells : (box.width * box.height) * (box.width * box.height) ≤ machine.depthLimit) (k : Nat) :
    a ≠ .error (.depthExceeded k) := by
  cases h with
  | outOfStack hlt => exact absurd hcells (Int.not_le.mpr hlt)
  | noRoom | carved => rintro ⟨⟩

/-- A puzzle generated on any machine, for boxes of any positive sides and with any bound
on its holes, if the stack suffices and there is room for a list as long as a row: its
voids are its empty cells, in ascending order and no more than allowed; counting finds one
completion and no second one; and solving it succeeds, keeps the givens and wins.  A stack
that sufficed to generate it suffices for both. -/
theorem generate_proper (machine : Machine) (box : Box) (hw : 1 ≤ box.width)
    (hh : 1 ≤ box.height) (maxHoles : Option Int) (t : Twister)
    (hstack : ∀ k,
      generate ⟨box.width * box.height, box⟩ maxHoles t machine ≠ .error (.depthExceeded k)) :
    machine.lengthLimit < box.width * box.height ∧
        generate ⟨box.width * box.height, box⟩ maxHoles t machine = .error .lengthWidth ∨
      ∃ g, generate ⟨box.width * box.height, box⟩ maxHoles t machine = .ok g ∧
        (g.board.width : Int) = box.width * box.height ∧
        (g.board.height : Int) = box.width * box.height ∧
        g.voids.Pairwise (· < ·) ∧ (∀ i, i ∈ g.voids ↔ i ∈ g.board.emptyCells) ∧
        (∀ n, maxHoles = some n → (g.voids.length : Int) ≤ max 0 n) ∧
        ∀ (σ ε : Type) (c : Conditions) (w : Walk σ Unit), w.board = g.board →
          let j : Judge σ ε := .ofRules .sudoku
          let count := countCompletions j c (.given (box.width * box.height)) w
          let solved := solve j c (.given (box.width * box.height)) w
          (machine.depthLimit ≤ c.depthLimit → ¬ OutOfStack count ∧ ¬ OutOfStack solved) ∧
          (¬ OutOfStack count → ¬ c.ReportFailed count → count.1 = .ok ⟨true, false⟩) ∧
          (¬ OutOfStack solved → ¬ c.ReportFailed solved →
            solved.1 = .ok true ∧ Rules.sudoku.wins solved.2.board = .ok true ∧
              ∀ i, i ∉ g.voids → solved.2.board.value i = g.board.value i) := by
  have hgen : Generating machine box maxHoles
      (generate ⟨box.width * box.height, box⟩ maxHoles t machine) := generating hw hh maxHoles t
  generalize generate ⟨box.width * box.height, box⟩ maxHoles t machine = a at hgen hstack ⊢
  cases hgen with
  | outOfStack => exact absurd rfl (hstack _)
  | noRoom hlength => exact .inl ⟨hlength, rfl⟩
  | @carved b is c hle hsolved his hvisits =>
      have hcarved := hvisits.carved_of_perm his
      have hvoid (i : Nat) : i ∈ c.voids ↔ i ∈ c.board.emptyCells :=
        hsolved.mem_emptyCells_iff hcarved.cleared hcarved.filled
      have hproper := hsolved.proper hcarved.cleared
        (hvisits.determined (Board.determined_of_isComplete hsolved.complete))
      refine .inr ⟨_, rfl, hproper.width_eq, hproper.height_eq, hcarved.ascending, hvoid,
        fun n hn => hvisits.length_voids hn (Int.le_max_left 0 n), ?_⟩
      intro σ ε cond w (hw' : w.board = c.board)
      rw [← hw'] at hproper
      refine ⟨fun hd => hproper.not_outOfStack (by omega), hproper.count,
        fun hsolve hreport => ?_⟩
      obtain ⟨hr, hwon, hkept⟩ := hproper.solve hsolve hreport
      refine ⟨hr, hwon, fun i (hi : i ∉ c.voids) => ?_⟩
      rw [hvoid, ← hw'] at hi
      rw [hkept i hi, hw']

theorem generate_proper_nine :
    ∃ g, generate .nine (some 50) (.ofSeed 7) = .ok g ∧ g.voids.length ≤ 50 ∧
      (solve (.ofRules .sudoku : Judge Unit Empty) {} (.given 9) ⟨g.board, {}, (), (), #[]⟩).1 =
        .ok true := by
  have hw : 1 ≤ Box.three.width := by decide
  have hh : 1 ≤ Box.three.height := by decide
  have hstack : ∀ k, generate .nine (some 50) (.ofSeed 7) ≠ .error (.depthExceeded k) :=
    (generating hw hh (some 50) _).ne_depthExceeded (by decide)
  obtain ⟨g, hg, -, -, -, -, hlength, hsearch⟩ :=
    (generate_proper {} .three hw hh (some 50) (.ofSeed 7) hstack).resolve_left fun h =>
      absurd h.1 (by decide)
  obtain ⟨hdeep, -, hsolve⟩ := hsearch Unit Empty {} ⟨g.board, {}, (), (), #[]⟩ rfl
  exact ⟨g, hg, Int.ofNat_le.mp (hlength 50 rfl),
    (hsolve (hdeep (Nat.le_refl _)).2 (not_reportFailed_of_none rfl _)).1⟩

end GridFill.Sudoku
