/-
# `GridFill.Proofs.Puzzle.Loaded` — what is read from a file can be run

The reader of a puzzle file asks for no positive height or width, and no side of a
box is tested for zero.  All the same nothing that comes after it can fail.  A board
of the file has a line, and the line a word, because a blank line belongs to no board
(`mem_boardLines`); so the grid has a row, the row an entry, and the dimensions of the
header, which are those of the grid, are positive (`sides_of_ofLines`).  And a box
whose area is a positive width has no side that is zero, and sides that divide it.
-/
import GridFill.Proofs.Puzzle.Board
import GridFill.Proofs.Puzzle.Written

namespace GridFill.Puzzle

open Search

section

variable {path stem : String} {h : Header} {number : Nat} {board b ls : List (List Char)}
  {bs : List (List (List Char))} {l : List Char} {r : List Int} {p : Puzzle} {ps : List Puzzle}

/-! ## Boards of a file

No line of a board is blank, so every line has a word, and the header cannot
announce a side that is not positive. -/

theorem closed_board (hboard : ∀ l ∈ board, Text.isBlankLine l = false)
    (hne : ¬ board.isEmpty = true) :
    board.reverse ≠ [] ∧ ∀ l ∈ board.reverse, Text.isBlankLine l = false :=
  ⟨by simpa using hne, fun l hl => hboard l (List.mem_reverse.mp hl)⟩

theorem mem_boardLines (hboard : ∀ l ∈ board, Text.isBlankLine l = false)
    (hb : b ∈ boardLines board ls) : b ≠ [] ∧ ∀ l ∈ b, Text.isBlankLine l = false := by
  induction ls generalizing board with
  | nil =>
      rw [boardLines] at hb
      split at hb
      case isTrue => cases hb
      case isFalse hne => exact List.mem_singleton.mp hb ▸ closed_board hboard hne
  | cons l ls ih =>
      rw [boardLines] at hb
      split at hb
      case isTrue =>
        split at hb
        case isTrue => cases hb
        case isFalse hne =>
          rcases List.mem_cons.mp hb with rfl | hb
          · exact closed_board hboard hne
          · exact ih (List.forall_mem_nil _) hb
      case isFalse hl =>
        exact ih (List.forall_mem_cons.mpr ⟨Bool.not_eq_true _ ▸ hl, hboard⟩) hb

theorem ne_nil_of_parseRow (hl : Text.isBlankLine l = false) (hr : parseRow l = .ok r) :
    r ≠ [] := by
  have hwords : Text.words l ≠ [] := by
    rw [Ne, Text.words_eq_nil_iff, hl]
    exact Bool.false_ne_true
  obtain ⟨w, ws, hw⟩ := List.exists_cons_of_ne_nil hwords
  unfold parseRow at hr
  rw [hw, List.mapM_cons] at hr
  rintro rfl
  split at hr
  case h_1 row hrow =>
    cases hr
    simp [Option.bind_eq_some_iff] at hrow
  case h_2 => cases hr

theorem checked_of_ofLines (hp : ofLines path stem h number ls = .ok p) :
    ∃ d, Draft.Checked d p := by
  obtain ⟨rows, -, hp⟩ := bind_eq_ok_iff.mp hp
  split at hp
  · cases hp
  · exact ⟨_, Draft.checked_of_check hp⟩

/-- A puzzle read from lines that are not blank has a cell. -/
theorem sides_of_ofLines (hp : ofLines path stem h number ls = .ok p) (hne : ls ≠ [])
    (hls : ∀ l ∈ ls, Text.isBlankLine l = false) : 0 < p.height ∧ 0 < p.width := by
  obtain ⟨d, hd⟩ := checked_of_ofLines hp
  have hread := readAs_ofLines hp
  obtain ⟨l, ls, rfl⟩ := List.exists_cons_of_ne_nil hne
  obtain ⟨r, rows, hr, -, hrows⟩ := List.forall₂_cons_left_iff.mp hread
  have hmem : r ∈ p.rows := hrows ▸ List.mem_cons_self
  constructor
  · rw [hd.height]
    exact List.length_pos_of_mem hmem
  · rw [← hd.row_length r hmem]
    exact List.length_pos_iff.mpr (ne_nil_of_parseRow (hls l List.mem_cons_self) hr)

theorem exists_ofLines (hps : ofBoards path stem h number bs = .ok ps) (hp : p ∈ ps) :
    ∃ n, ∃ b ∈ bs, ofLines path stem h n b = .ok p := by
  induction bs generalizing number ps with
  | nil =>
      cases hps
      cases hp
  | cons b bs ih =>
      rw [ofBoards] at hps
      obtain ⟨q, hq, hps⟩ := bind_eq_ok_iff.mp hps
      obtain ⟨qs, hqs, hps⟩ := bind_eq_ok_iff.mp hps
      cases hps
      rcases List.mem_cons.mp hp with rfl | hp
      · exact ⟨number, b, List.mem_cons_self, hq⟩
      · obtain ⟨n, b', hb', hp⟩ := ih hqs hp
        exact ⟨n, b', List.mem_cons_of_mem b hb', hp⟩

end

/-! ## Whole files

Every puzzle of a file comes from such lines, and has passed its check. -/

/-- Every puzzle that a file is read as can be run: it has a positive height and width,
a rule set, and a board.  The board shows the grid of the puzzle with zero as an empty
cell; its values lie in the range of the puzzle; in a sudoku every cell has a region;
and a search takes the greatest value of the puzzle. -/
theorem ofFile_runnable (path stem : String) (text : List Char) (ps : List Puzzle)
    (h : ofFile path stem text = .ok ps) :
    ∀ p ∈ ps, 0 < p.height ∧ 0 < p.width ∧ Rules.ofName p.rules.name = .ok p.rules ∧
      ∃ b, p.board = .ok b ∧ b.height = p.height ∧ b.width = p.width ∧
        b.rows = .ok (p.rows.map fun r => r.map fun v => Board.entry (some v)) ∧
        (∀ i, ∀ v : Int, b.value i = some v → 1 ≤ v ∧ v ≤ p.maxValue) ∧
        (p.rules = .sudoku → ∀ i ∈ b.cells, b.region i ≠ none) ∧
        (Limit.given p.maxValue).resolve b = .ok p.maxValue := by
  intro p hp
  obtain ⟨header, -, h⟩ := bind_eq_ok_iff.mp h
  split at h
  case isFalse => cases h
  case isTrue =>
    obtain ⟨n, ls, hls, hp⟩ := exists_ofLines h hp
    obtain ⟨hne, hlines⟩ := mem_boardLines (List.forall_mem_nil _) hls
    obtain ⟨hheight, hwidth⟩ := sides_of_ofLines hp hne hlines
    obtain ⟨d, hd⟩ := checked_of_ofLines hp
    obtain ⟨b, hb⟩ := exists_board hd hheight hwidth
    obtain ⟨hbwidth, hbheight⟩ := sides_of_board hd hb
    have hname : Rules.ofName p.rules.name = .ok p.rules := by
      rw [Rules.ofName, Header.ofName?_name]
    have hrows := (hasRows_of_board hb).rows_eq
    rw [given, List.map_map] at hrows
    refine ⟨hheight, hwidth, hname, b, hb, hbheight, hbwidth, ?_, fun i v => value_bounds hd hb,
      fun hs i hi => ?_, resolve_maxValue hd⟩
    · simpa [Function.comp_def] using hrows
    · obtain ⟨b₀, box, -, hassign, -⟩ := assigned_of_board hd hs hb
      have hi : i < b₀.listed :=
        Board.assignRegions_listed hassign ▸ List.mem_range.mp hi
      rw [Board.region_assignRegions hassign hi]
      exact Option.some_ne_none _

/-- A file with a sudoku of two rows, each of which is a box; both sides of the boxes
are written as negative numbers. -/
def negativeBox : List Char := "2 2 2 sudoku -1x-2\n\n1 .\n. 0\n".toList

theorem ofFile_runnable_negativeBox : ∃ p b, ofFile "n.txt" "n" negativeBox = .ok [p] ∧
    p.rules = .sudoku ∧ p.board = .ok b ∧ b.rows = .ok [[some 1, none], [none, none]] ∧
    ∀ i ∈ b.cells, b.region i ≠ none := by
  have hfile : ∃ p, ofFile "n.txt" "n" negativeBox = .ok [p] ∧ p.rules = .sudoku ∧
      p.rows = [[1, 0], [0, 0]] := ⟨_, rfl, rfl, rfl⟩
  obtain ⟨p, h, hs, hgrid⟩ := hfile
  obtain ⟨-, -, -, b, hb, -, -, hrows, -, hregions, -⟩ :=
    ofFile_runnable "n.txt" "n" negativeBox [p] h p (List.mem_singleton_self p)
  rw [hgrid] at hrows
  exact ⟨p, b, h, hs, hb, hrows, hregions hs⟩

end GridFill.Puzzle
