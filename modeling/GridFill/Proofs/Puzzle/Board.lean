/-
# `GridFill.Proofs.Puzzle.Board` — the board of a puzzle

The board of a puzzle holds the entries of its grid, row by row
(`hasRows_of_board`), and the regions of a sudoku are its boxes
(`assigned_of_board`).  For a checked puzzle with at least one cell there is such
a board (`exists_board`).
-/
import GridFill.Proofs.Board.Rows
import GridFill.Proofs.Puzzle.Check
import GridFill.Proofs.Sudoku.Box
import GridFill.Search.Basic

namespace GridFill.Puzzle

open Draft Search

variable {d : Draft} {p : Puzzle} {b : Board}

/-- The rows of a puzzle as a board takes them. -/
def given (p : Puzzle) : List (List (Option Int)) := p.rows.map fun r => r.map some

theorem mem_flatten_given {v : Int} : some v ∈ p.given.flatten ↔ v ∈ p.rows.flatten := by
  simp [given]

/-- The board of a puzzle is made of its rows; boxes matter for a sudoku only. -/
theorem board_eq_ok_iff : p.board = .ok b ↔ ∃ b₀, Board.ofRows p.given = .ok b₀ ∧
    ((p.rules = .sudoku ∧ ∃ box, p.box = some box ∧ b₀.assignRegions box = .ok b) ∨
      ((p.rules = .sudoku → p.box = none) ∧ b₀ = b)) := by
  unfold board boardFor
  rw [bind_eq_ok_iff]
  refine exists_congr fun b₀ => and_congr_right fun _ => ?_
  by_cases hs : p.rules = .sudoku
  · cases hbox : p.box with
    | none => simp [hs, pure, Except.pure]
    | some box => simp [hs]
  · simp [hs, pure, Except.pure]

theorem hasRows_of_board (h : p.board = .ok b) : b.HasRows p.given := by
  obtain ⟨b₀, hb₀, ⟨-, box, -, hassign⟩ | ⟨-, rfl⟩⟩ := board_eq_ok_iff.mp h
  · exact (Board.hasRows_of_ofRows hb₀).congr (Board.assignRegions_frame hassign)
      (Board.assignRegions_values hassign) (Board.assignRegions_listed hassign)
  · exact Board.hasRows_of_ofRows hb₀

theorem sides_of_board (hp : Checked d p) (h : p.board = .ok b) :
    b.width = p.width ∧ b.height = p.height := by
  have hrows := hasRows_of_board h
  have hheight : p.rows.length = b.height := by
    rw [← hrows.height, given, List.length_map]
  have hne : p.rows ≠ [] := by
    rintro hnil
    rw [hnil, List.length_nil] at hheight
    exact absurd hheight (Nat.ne_of_lt b.frame.height_pos)
  obtain ⟨r, hr⟩ := List.exists_mem_of_ne_nil _ hne
  constructor
  · have hwidth := hrows.width _ (List.mem_map_of_mem hr)
    rw [← hwidth, List.length_map, hp.row_length r hr]
  · rw [← hheight, hp.height]

theorem value_bounds (hp : Checked d p) (h : p.board = .ok b) {i : Nat} {v : Int}
    (hv : b.value i = some v) : 1 ≤ v ∧ v ≤ p.maxValue := by
  obtain ⟨hmem, hne⟩ := (hasRows_of_board h).mem_of_value hv
  obtain ⟨hle, hmax⟩ := hp.entries v (mem_flatten_given.mp hmem)
  exact ⟨by omega, hmax⟩

theorem resolve_maxValue (hp : Checked d p) :
    (Limit.given p.maxValue).resolve b = .ok p.maxValue :=
  Limit.resolve_given hp.maxValue_pos b

theorem assigned_of_board (hp : Checked d p) (hs : p.rules = .sudoku) (h : p.board = .ok b) :
    ∃ (b₀ : Board) (box : Box), p.box = some box ∧ b₀.assignRegions box = .ok b ∧
      p.height = p.width ∧ box.width * box.height = p.width := by
  obtain ⟨box, hfit, hbox⟩ := hp.fit hs
  obtain ⟨-, hsquare, harea⟩ := fitBox_eq_ok_iff.mp hfit
  obtain ⟨b₀, -, ⟨-, box', hbox', hassign⟩ | ⟨hnone, -⟩⟩ := board_eq_ok_iff.mp h
  · rw [hbox, Option.some.injEq] at hbox'
    subst hbox'
    exact ⟨b₀, box, hbox, hassign, hsquare, by rw [Int.mul_comm, harea]⟩
  · rw [hnone hs] at hbox
    cases hbox

/-- A checked puzzle with at least one cell has a board. -/
theorem exists_board (hp : Checked d p) (hh : 0 < p.height) (hw : 0 < p.width) :
    ∃ b, p.board = .ok b := by
  have hne : p.given ≠ [] := by
    intro hnil
    rw [hp.height, List.map_eq_nil_iff.mp hnil] at hh
    exact absurd hh (Nat.lt_irrefl 0)
  have hlen : ∀ r ∈ p.given, r.length = p.width := by
    intro r hr
    obtain ⟨r', hr', rfl⟩ := List.mem_map.mp hr
    rw [List.length_map, hp.row_length r' hr']
  obtain ⟨b₀, hb₀⟩ := Board.exists_ofRows hne hw hlen
  have hrows := Board.hasRows_of_ofRows hb₀
  by_cases hs : p.rules = .sudoku
  · obtain ⟨box, hfit, hbox⟩ := hp.fit hs
    obtain ⟨-, hsquare, harea⟩ := fitBox_eq_ok_iff.mp hfit
    obtain ⟨r, hr⟩ := List.exists_mem_of_ne_nil _ hne
    have hwidth : b₀.width = p.width := by rw [← hrows.width r hr, hlen r hr]
    have hheight : b₀.height = p.width := by
      rw [← hrows.height, given, List.length_map, ← hp.height, hsquare]
    have hassign : ∃ b, b₀.assignRegions box = .ok b := by
      refine ⟨_, Board.assignRegions_eq_ok.mpr ⟨⟨?_, ?_⟩, ⟨?_, ?_⟩, rfl⟩⟩
      · rintro h0
        rw [h0, Int.mul_zero] at harea
        omega
      · rintro h0
        rw [h0, Int.zero_mul] at harea
        omega
      · rw [hwidth, ← harea]
        exact Int.dvd_mul_left _ _
      · rw [hheight, ← harea]
        exact Int.dvd_mul_right _ _
    obtain ⟨b, hb⟩ := hassign
    exact ⟨b, board_eq_ok_iff.mpr ⟨b₀, hb₀, .inl ⟨hs, box, hbox, hb⟩⟩⟩
  · exact ⟨b₀, board_eq_ok_iff.mpr ⟨b₀, hb₀, .inr ⟨fun h => absurd h hs, rfl⟩⟩⟩

end GridFill.Puzzle
