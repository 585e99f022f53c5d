/-
# `GridFill.Proofs.Puzzle.Sheet` — a puzzle file that was written is read back

A sheet is what a puzzle file has to say: the dimensions, the greatest value, the
rule set and the boxes that all its puzzles share, and one grid for each of them.
Its text is the header, a blank line, and the grids the way puzzles show them, with a
blank line between any two.  Reading the text gives the puzzles of the sheet
(`ofFile_text`), whatever line end was used and whether or not the last line has one.

The words of the lines of the text are known (`words_lines_text`), and the reader
looks at nothing else.  What remains are the checks of each puzzle, which a sheet
passes by what it is (`Sheet.checked`).

Two bounds belong to the format and not to the puzzles.  A numeral of more than
`Text.maxDigits` digits is neither written nor read, so the dimensions have to be
writable; a greatest value and the sides of a box have 64 bits.
-/
import GridFill.Proofs.Puzzle.Written

namespace GridFill

/-- The contents of a puzzle file. -/
structure Sheet where
  height : Nat
  width : Nat
  maxValue : Nat
  rules : Rules
  box : Option Box
  grids : List (List (List Int))
  height_pos : 0 < height
  width_pos : 0 < width
  height_writable : Text.Writable height
  width_writable : Text.Writable width
  maxValue_pos : 1 ≤ maxValue
  maxValue_lt : maxValue < Board.indexBound
  grids_ne_nil : grids ≠ []
  grid_length : ∀ g ∈ grids, g.length = height
  row_length : ∀ g ∈ grids, ∀ r ∈ g, r.length = width
  entries : ∀ g ∈ grids, ∀ v ∈ g.flatten, 0 ≤ v ∧ v ≤ maxValue
  square : rules = .sudoku → height = width ∧ ∃ b ∈ box, b.height * b.width = width
  sides : rules ≠ .sudoku → ∀ b ∈ box, Draft.isWord b.height = true ∧ Draft.isWord b.width = true

namespace Sheet

/-! ## The puzzles and the text of a sheet

The grids are written one after the other with a blank line between any two, and
the puzzles are numbered in this order. -/

/-- The header of a sheet. -/
def header (s : Sheet) : Header :=
  { height := s.height, width := s.width, maxValue := s.maxValue, rules := s.rules, box := s.box }

/-- The puzzle with a given grid. -/
def puzzle (s : Sheet) (stem : String) (number : Nat) (g : List (List Int)) : Puzzle :=
  { name := s!"{stem}-{number}", height := s.height, width := s.width, maxValue := s.maxValue,
    rules := s.rules, rows := g, box := s.box }

/-- One puzzle per grid, numbered from one. -/
def puzzles (s : Sheet) (stem : String) : List Puzzle :=
  (s.grids.zipIdx 1).map fun g => s.puzzle stem g.2 g.1

/-- The text of a sheet without an end of the last line.  The grids are those of
puzzles named after `title`. -/
def body (s : Sheet) (title : String) : String :=
  String.intercalate " " s.header.shown ++ "\n\n" ++
    String.intercalate "\n\n" ((s.puzzles title).map Puzzle.gridText)

/-- The text of a sheet, with a given line end. -/
def text (s : Sheet) (title : String) (e : Text.LineEnd) (closed : Bool) : List Char :=
  e.write ((s.body title).toList ++ if closed then ['\n'] else [])

variable (s : Sheet)

theorem rows_puzzles (stem : String) : (s.puzzles stem).map Puzzle.rows = s.grids := by
  unfold puzzles
  rw [List.map_map]
  exact List.zipIdx_map_fst 1 s.grids

/-! ## What can be written

The entries of a grid and the sides of a box that divides it take no more digits
than the numbers they are bounded by. -/

theorem writable_of_word {v : Int} (hv : Draft.isWord v = true) : Text.Writable v := by
  have hword : (Nat.toDigits 10 v.natAbs).length ≤ 19 := by
    simp only [Draft.isWord, Bool.and_eq_true, decide_eq_true_eq] at hv
    unfold Board.indexBound at hv
    rw [Nat.length_toDigits_le_iff (by decide) (by decide)]
    omega
  exact Nat.le_trans hword (by decide)

theorem isWord_of_le {v : Int} (hv : 0 ≤ v ∧ v ≤ s.maxValue) : Draft.isWord v = true := by
  have hmax := s.maxValue_lt
  simp only [Draft.isWord, Bool.and_eq_true, decide_eq_true_eq]
  unfold Board.indexBound at hmax ⊢
  omega

theorem box_writable {b : Box} (hb : b ∈ s.box) :
    Text.Writable b.height ∧ Text.Writable b.width := by
  by_cases hs : s.rules = .sudoku
  · obtain ⟨-, b', hb', harea⟩ := s.square hs
    have hbb : b = b' := Option.mem_unique hb hb'
    subst hbb
    have hle {v : Int} (hv : v ∣ s.width) : Text.Writable v :=
      s.width_writable.of_natAbs_le (Nat.le_of_dvd s.width_pos (Int.natAbs_dvd_natAbs.mpr hv))
    exact ⟨hle ⟨_, harea.symm⟩, hle ⟨_, by rw [Int.mul_comm, harea]⟩⟩
  · obtain ⟨hheight, hwidth⟩ := s.sides hs b hb
    exact ⟨writable_of_word hheight, writable_of_word hwidth⟩

theorem header_writable : s.header.Writable where
  height := s.height_writable
  width := s.width_writable
  maxValue := writable_of_word (s.isWord_of_le ⟨Int.natCast_nonneg _, Int.le_refl _⟩)
  box := fun _ hb => s.box_writable hb

variable {s}

theorem entry_writable {g : List (List Int)} (hg : g ∈ s.grids) {r : List Int} (hr : r ∈ g) :
    ∀ v ∈ r, Text.Writable v :=
  fun v hv => writable_of_word
    (s.isWord_of_le (s.entries g hg v (List.mem_flatten.mpr ⟨r, hr, hv⟩)))

theorem grid_ne_nil {g : List (List Int)} (hg : g ∈ s.grids) : g ≠ [] ∧ ∀ r ∈ g, r ≠ [] := by
  constructor
  · exact List.length_pos_iff.mp (by rw [s.grid_length g hg]; exact s.height_pos)
  · intro r hr
    exact List.length_pos_iff.mp (by rw [s.row_length g hg r hr]; exact s.width_pos)

/-! ## The puzzles pass their checks

A sheet is what a checked puzzle is, for all its grids at once. -/

theorem checked {g : List (List Int)} (hg : g ∈ s.grids) (stem : String) (number : Nat) :
    Draft.Checked
      { name := s!"{stem}-{number}", dims := [(s.height : Int), (s.width : Int)],
        maxValue := s.maxValue, rules := s.rules.name, grid := .plane g, box := s.box }
      (s.puzzle stem number g) where
  name := rfl
  rules := Header.ofName?_name s.rules
  maxValue := rfl
  maxValue_pos := s.maxValue_pos
  grid := rfl
  dims := rfl
  height := (s.grid_length g hg).symm
  width := by
    obtain ⟨r, g', hcons⟩ := List.exists_cons_of_ne_nil (grid_ne_nil hg).1
    have hr : r ∈ g := by
      rw [hcons]
      exact List.mem_cons_self
    show s.width = (g.headD []).length
    rw [hcons, List.headD_cons, s.row_length g hg r hr]
  row_length := s.row_length g hg
  words := fun v hv => s.isWord_of_le (s.entries g hg v hv)
  entries := s.entries g hg
  box := fun _ => rfl
  fit := by
    intro hs
    obtain ⟨hsquare, b, hb, harea⟩ := s.square hs
    have hbox : s.box = some b := hb
    refine ⟨b, Draft.fitBox_eq_ok_iff.mpr ⟨?_, hsquare, harea⟩, hbox⟩
    rw [hbox, Option.getD_some]

theorem ofLines_words {g : List (List Int)} (hg : g ∈ s.grids) {ls : List (List Char)}
    (hls : ls.map Text.words = g.map Puzzle.shownRow) (path stem : String) (number : Nat) :
    Puzzle.ofLines path stem s.header number ls = .ok (s.puzzle stem number g) := by
  have hread := Puzzle.readAs_words (fun r hr => entry_writable hg hr) hls
  have hwidth : ¬ (g.any fun r => (r.length : Int) ≠ s.header.width) = true := by
    rw [List.any_eq_true]
    rintro ⟨r, hr, hlen⟩
    rw [s.row_length g hg r hr] at hlen
    exact absurd rfl (of_decide_eq_true hlen)
  refine bind_eq_ok_iff.mpr ⟨g, Puzzle.mapM_eq_ok_iff.mpr hread, ?_⟩
  rw [if_neg hwidth]
  exact Draft.check_eq_ok_iff.mpr (checked hg stem number)

theorem ofBoards_words {gs : List (List (List Int))} (hgs : ∀ g ∈ gs, g ∈ s.grids)
    {bs : List (List (List Char))}
    (hbs : bs.map (·.map Text.words) = gs.map (·.map Puzzle.shownRow)) (path stem : String)
    (number : Nat) : Puzzle.ofBoards path stem s.header number bs =
      .ok ((gs.zipIdx number).map fun g => s.puzzle stem g.2 g.1) := by
  induction gs generalizing bs number with
  | nil =>
      rw [List.map_eq_nil_iff.mp hbs]
      rfl
  | cons g gs ih =>
      obtain ⟨b, bs, rfl, hb, hbs⟩ := List.map_eq_cons_iff.mp hbs
      have hfirst := ofLines_words (hgs g List.mem_cons_self) hb path stem number
      have hrest := ih (fun m hm => hgs m (List.mem_cons_of_mem _ hm)) hbs (number + 1)
      rw [Puzzle.ofBoards, hfirst]
      refine bind_eq_ok_iff.mpr ⟨_, rfl, ?_⟩
      exact bind_eq_ok_iff.mpr ⟨_, hrest, rfl⟩

/-! ## The text is read back

The reader sees nothing but the words of the lines, and these are known whatever
the line ends. -/

/-- The lines before the grids. -/
def headLines (s : Sheet) : List (List Char) :=
  [[' '].intercalate (s.header.shown.map String.toList), []]

/-- The grids of a sheet as lines. -/
def lineGroups (s : Sheet) : List (List (List Char)) :=
  s.grids.map fun g => g.map fun r => [' '].intercalate (Puzzle.shownRow r)

theorem toList_body (title : String) : (s.body title).toList =
    ['\n'].intercalate s.headLines ++
      '\n' :: ['\n', '\n'].intercalate (s.lineGroups.map ['\n'].intercalate) := by
  have hgrids : ((s.puzzles title).map Puzzle.gridText).map String.toList =
      s.lineGroups.map ['\n'].intercalate := by
    rw [lineGroups, ← rows_puzzles s title, List.map_map, List.map_map, List.map_map]
    exact List.map_congr_left fun p _ => Puzzle.toList_gridText p
  unfold body headLines
  rw [String.toList_append, String.toList_append, String.toList_intercalate,
    String.toList_intercalate, hgrids]
  simp [List.intercalate_cons_cons]

theorem isWord_shown : ∀ w ∈ s.header.shown.map String.toList, Text.IsWord w := by
  intro cs hcs
  obtain ⟨w, hw, rfl⟩ := List.mem_map.mp hcs
  exact Header.isWord_of_mem_shown hw

theorem isWord_shownRow (r : List Int) : ∀ w ∈ Puzzle.shownRow r, Text.IsWord w :=
  fun _ => Puzzle.isWord_of_mem_shownRow

section

variable {c : Char} (hc : Text.isBlank c = true) (hspace : c ≠ ' ')

include hc hspace

theorem not_mem_headLines : ∀ l ∈ s.headLines, c ∉ l := by
  intro l hl
  rcases List.mem_cons.mp hl with rfl | hl
  · exact Text.not_mem_intercalate_words isWord_shown hc hspace
  · rw [List.mem_singleton.mp hl]
    exact List.not_mem_nil

theorem not_mem_lineGroups : ∀ ls ∈ s.lineGroups, ∀ l ∈ ls, c ∉ l := by
  intro ls hls l hl
  obtain ⟨g, -, rfl⟩ := List.mem_map.mp hls
  obtain ⟨r, -, rfl⟩ := List.mem_map.mp hl
  exact Text.not_mem_intercalate_words (isWord_shownRow r) hc hspace

end

theorem not_mem_body (title : String) : '\r' ∉ (s.body title).toList := by
  have hsep : '\r' ∉ ['\n'] := by decide
  rw [toList_body, List.mem_append, List.mem_cons, not_or, not_or]
  refine ⟨Text.not_mem_intercalate hsep (not_mem_headLines rfl (by decide)), by decide, ?_⟩
  apply Text.not_mem_intercalate (by decide)
  intro t ht
  obtain ⟨ls, hls, rfl⟩ := List.mem_map.mp ht
  exact Text.not_mem_intercalate hsep (not_mem_lineGroups rfl (by decide) ls hls)

theorem lineGroups_ne_nil : ∀ ls ∈ s.lineGroups, ls ≠ [] ∧ ∀ l ∈ ls, l ≠ [] := by
  intro ls hls
  obtain ⟨g, hg, rfl⟩ := List.mem_map.mp hls
  obtain ⟨hne, hrows⟩ := grid_ne_nil hg
  refine ⟨List.map_eq_nil_iff.not.mpr hne, ?_⟩
  intro l hl hnil
  obtain ⟨r, hr, rfl⟩ := List.mem_map.mp hl
  have hjoined := Text.words_intercalate (isWord_shownRow r)
  rw [hnil] at hjoined
  exact hrows r hr (List.map_eq_nil_iff.mp hjoined.symm)

/-- The words of the lines of the text: those of the header, none in the second
line, and those of the rows, with a line without words between any two grids. -/
theorem words_lines_text (title : String) (e : Text.LineEnd) (closed : Bool) :
    (Text.lines (s.text title e closed)).map Text.words =
      s.header.shown.map String.toList :: [] ::
        [[]].intercalate (s.grids.map (·.map Puzzle.shownRow)) := by
  have hreturn : '\r' ∉ (s.body title).toList ++ if closed then ['\n'] else [] := by
    rw [List.mem_append, not_or]
    refine ⟨not_mem_body title, ?_⟩
    cases closed <;> decide
  have hgroup : ∀ ls ∈ s.lineGroups, ls ≠ [] ∧ ∀ l ∈ ls, '\n' ∉ l ∧ l ≠ [] := by
    intro ls hls
    obtain ⟨hne, hlines⟩ := lineGroups_ne_nil ls hls
    exact ⟨hne, fun l hl => ⟨not_mem_lineGroups rfl (by decide) ls hls l hl, hlines l hl⟩⟩
  have hgroups : s.lineGroups ≠ [] := List.map_eq_nil_iff.not.mpr s.grids_ne_nil
  have hrows : s.lineGroups.map (·.map Text.words) = s.grids.map (·.map Puzzle.shownRow) := by
    unfold lineGroups
    rw [List.map_map]
    refine List.map_congr_left fun g _ => ?_
    rw [Function.comp_apply, List.map_map]
    refine List.map_congr_left fun r _ => ?_
    exact Text.words_intercalate (isWord_shownRow r)
  unfold Text.lines text
  rw [Text.unifyEnds_write e hreturn, toList_body, List.append_assoc, List.cons_append,
    Text.words_lines (not_mem_headLines rfl (by decide)) (List.cons_ne_nil _ _),
    Text.words_groups hgroup hgroups closed, hrows, headLines, List.map_cons,
    Text.words_intercalate isWord_shown]
  rfl

/-- Reading the text of a sheet gives its puzzles. -/
theorem ofFile_text (s : Sheet) (path stem title : String) (e : Text.LineEnd) (closed : Bool) :
    Puzzle.ofFile path stem (s.text title e closed) = .ok (s.puzzles stem) := by
  obtain ⟨first, rest, hlines, hfirst, hrest⟩ :=
    List.map_eq_cons_iff.mp (words_lines_text (s := s) title e closed)
  obtain ⟨second, rest, rfl, hsecond, hrest⟩ := List.map_eq_cons_iff.mp hrest
  have hheader : Header.parse (Text.trim first) = .ok s.header :=
    Header.parse_words s.header_writable (by rw [Text.words_trim, hfirst])
  have hrows : ∀ b ∈ s.grids.map (·.map Puzzle.shownRow), b ≠ [] ∧ ∀ ws ∈ b, ws ≠ [] := by
    intro b hb
    obtain ⟨g, hg, rfl⟩ := List.mem_map.mp hb
    obtain ⟨hne, hrows⟩ := grid_ne_nil hg
    refine ⟨List.map_eq_nil_iff.not.mpr hne, ?_⟩
    intro ws hws
    obtain ⟨r, hr, rfl⟩ := List.mem_map.mp hws
    exact List.map_eq_nil_iff.not.mpr (hrows r hr)
  have hboards := Puzzle.boardLines_words hrows hrest
  unfold Puzzle.ofFile
  rw [hlines]
  refine bind_eq_ok_iff.mpr ⟨s.header, hheader, ?_⟩
  show (if Text.isBlankLine second = true then _ else _) = _
  rw [if_pos (Text.words_eq_nil_iff.mp hsecond)]
  exact ofBoards_words (fun _ hg => hg) hboards path stem 1

/-- Two grids of two by two with boxes of one row, for a sudoku. -/
def pair : Sheet where
  height := 2
  width := 2
  maxValue := 2
  rules := .sudoku
  box := some { width := 2, height := 1 }
  grids := [[[1, 0], [0, 0]], [[0, 2], [2, 1]]]
  height_pos := Nat.two_pos
  width_pos := Nat.two_pos
  height_writable := writable_of_word (by decide)
  width_writable := writable_of_word (by decide)
  maxValue_pos := by decide
  maxValue_lt := by decide
  grids_ne_nil := by decide
  grid_length := by decide
  row_length := by decide
  entries := by decide
  square := fun _ => ⟨rfl, _, rfl, rfl⟩
  sides := fun h => absurd rfl h

theorem ofFile_text_pair :
    Puzzle.ofFile "p.txt" "pair"
        "2 2 2 sudoku 1x2\r\n\r\n1 .\r\n. .\r\n\r\n. 2\r\n2 1".toList =
      .ok [pair.puzzle "pair" 1 [[1, 0], [0, 0]], pair.puzzle "pair" 2 [[0, 2], [2, 1]]] :=
  ofFile_text pair "p.txt" "pair" "pair" .crlf false

end Sheet

end GridFill
