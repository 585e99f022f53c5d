/-
# `GridFill.Proofs.Sudoku.Build` — two ways to build a sudoku

A sudoku board can be made from measures and rows, or as the board of a puzzle that
was written down and checked.  The first way looks at one given after the other and
at the area of a box; the second looks at the grid as a whole and at the box beside
the sides of the grid.  They accept the same (`Fits`), and what they make of it is the
same board: a square with the entries of the rows, and the numbers of the boxes as
regions (`Shows`), which leaves nothing open (`Shows.unique`).

So one way succeeds exactly when the other does, and with the same board
(`ofRows_iff_board`), for boxes of any sides, positive or not.
-/
import GridFill.Proofs.Puzzle.Board
import GridFill.Proofs.Sudoku.Full
import GridFill.Proofs.Sudoku.Sides

namespace GridFill.Sudoku

/-! ## Givens

The givens are read row by row, and the first one out of range ends the reading. -/

section

variable {size : Int} {ws : List (Option Int)}

/-- An entry is empty or in range. -/
def InSize (size : Int) (v : Option Int) : Prop :=
  ∀ n ∈ Board.entry v, 1 ≤ n ∧ n ≤ size

theorem givenRow_eq_ok_iff {y x : Nat} {vs : List (Option Int)} :
    givenRow size y x vs = .ok ws ↔ ws = vs.map Board.entry ∧ ∀ v ∈ vs, InSize size v := by
  induction vs generalizing x ws with
  | nil =>
      constructor
      · intro h
        cases h
        exact ⟨rfl, fun _ hv => absurd hv List.not_mem_nil⟩
      · rintro ⟨rfl, -⟩
        rfl
  | cons v vs ih =>
      have hrest : ∀ e, (do return e :: (← givenRow size y (x + 1) vs)) = Except.ok ws ↔
          ws = e :: vs.map Board.entry ∧ ∀ v ∈ vs, InSize size v := by
        intro e
        rw [bind_eq_ok_iff]
        constructor
        · rintro ⟨us, hus, h⟩
          obtain ⟨rfl, hin⟩ := ih.mp hus
          cases h
          exact ⟨rfl, hin⟩
        · rintro ⟨rfl, hin⟩
          exact ⟨_, ih.mpr ⟨rfl, hin⟩, rfl⟩
      rw [givenRow, List.map_cons, List.forall_mem_cons]
      cases hv : Board.entry v with
      | none =>
          have hin : InSize size v := by
            intro n hn
            rw [hv] at hn
            cases hn
          dsimp only
          rw [hrest]
          exact and_congr_right fun _ => (and_iff_right hin).symm
      | some n =>
          have hin : InSize size v ↔ 1 ≤ n ∧ n ≤ size := by
            simp [InSize, hv]
          dsimp only
          split
          case isTrue hn =>
            rw [hrest]
            exact and_congr_right fun _ => (and_iff_right (hin.mpr hn)).symm
          case isFalse hn =>
            constructor
            · intro h
              cases h
            · rintro ⟨-, hv, -⟩
              exact absurd (hin.mp hv) hn

theorem givens_eq_ok_iff {y : Nat} {rows : List (List (Option Int))} :
    givens size y rows = .ok ws ↔
      ws = rows.flatten.map Board.entry ∧ ∀ r ∈ rows, ∀ v ∈ r, InSize size v := by
  induction rows generalizing y ws with
  | nil =>
      constructor
      · intro h
        cases h
        exact ⟨rfl, fun _ hr => absurd hr List.not_mem_nil⟩
      · rintro ⟨rfl, -⟩
        rfl
  | cons r rows ih =>
      rw [givens, bind_eq_ok_iff, List.forall_mem_cons, List.flatten_cons, List.map_append]
      constructor
      · rintro ⟨us, hus, h⟩
        obtain ⟨rest, hrest, h⟩ := bind_eq_ok_iff.mp h
        obtain ⟨rfl, hin⟩ := givenRow_eq_ok_iff.mp hus
        obtain ⟨rfl, hins⟩ := ih.mp hrest
        cases h
        exact ⟨rfl, hin, hins⟩
      · rintro ⟨rfl, hin, hins⟩
        refine ⟨_, givenRow_eq_ok_iff.mpr ⟨rfl, hin⟩, ?_⟩
        exact bind_eq_ok_iff.mpr ⟨_, ih.mpr ⟨rfl, hins⟩, rfl⟩

theorem inSize_some {v : Int} {n : Nat} : InSize n (some v) ↔ 0 ≤ v ∧ v ≤ n := by
  by_cases h0 : v = 0
  · simp [InSize, Board.entry, h0]
  · simp only [InSize, Board.entry, Option.some.injEq, h0, if_false, Option.mem_def]
    constructor
    · intro h
      have hv := h v rfl
      omega
    · rintro ⟨hlow, hhigh⟩ _ rfl
      omega

end

theorem ofRows_of_empty {m : Measures} {rows : List (List (Option Int))} {b₀ b : Board}
    (hempty : empty m = .ok b₀)
    (hshape : rows.length = m.size ∧ ∀ r ∈ rows, (r.length : Int) = m.size) :
    ofRows m rows = .ok b ↔ (∀ r ∈ rows, ∀ v ∈ r, InSize m.size v) ∧
      b = b₀.putFrom 0 (rows.flatten.map Board.entry) := by
  have hofRows : ofRows m rows = givens m.size 0 rows >>= fun vs => .ok (b₀.putFrom 0 vs) := by
    rw [ofRows, hempty]
    exact if_pos hshape
  rw [hofRows, bind_eq_ok_iff]
  constructor
  · rintro ⟨vs, hvs, h⟩
    obtain ⟨rfl, hin⟩ := givens_eq_ok_iff.mp hvs
    cases h
    exact ⟨hin, rfl⟩
  · rintro ⟨hin, rfl⟩
    exact ⟨_, givens_eq_ok_iff.mpr ⟨rfl, hin⟩, rfl⟩

/-! ## The board in question

Neither way is mentioned here: what is accepted (`Fits`), and what the board then
is (`Shows`). -/

/-- The rows as a board takes them. -/
def asGivens (rows : List (List Int)) : List (List (Option Int)) :=
  rows.map fun r => r.map some

/-- The rows with boxes of the given sides, written down as a sudoku of size `n`. -/
def draft (name : String) (n : Nat) (box : Box) (rows : List (List Int)) : Draft where
  name := name
  dims := [(n : Int), (n : Int)]
  maxValue := n
  rules := "sudoku"
  grid := .plane rows
  box := some box

/-- The puzzle of that draft. -/
def puzzle (name : String) (n : Nat) (box : Box) (rows : List (List Int)) : Puzzle where
  name := name
  height := n
  width := n
  maxValue := n
  rules := .sudoku
  rows := rows
  box := some box

/-- A box holds as many cells as there are rows, and the entries are in range. -/
structure Fits (n : Nat) (box : Box) (rows : List (List Int)) : Prop where
  area : box.width * box.height = n
  entries : ∀ v ∈ rows.flatten, 0 ≤ v ∧ v ≤ n

/-- `b` is made of the given rows, and has boxes for `n` columns as regions. -/
structure Shows (n : Nat) (box : Box) (rows : List (List (Option Int))) (b : Board) : Prop where
  rows : b.HasRows rows
  region : ∀ i < b.listed, b.region i =
    some (.number (box.number ((n : Int).fdiv box.width) (b.frame.site i)))

section

variable {n : Nat} {box : Box} {rows : List (List Int)} {b b' : Board} {name : String}

theorem Shows.unique {rows : List (List (Option Int))} (h : Shows n box rows b)
    (h' : Shows n box rows b') : b = b' := by
  refine h.rows.unique h'.rows fun i hi => ?_
  have hi' : i < b'.listed := h.rows.listed_eq h'.rows ▸ hi
  rw [h.region i hi, h'.region i hi', h.rows.frame_eq h'.rows]

theorem forall_inSize :
    (∀ r ∈ asGivens rows, ∀ v ∈ r, InSize n v) ↔ ∀ v ∈ rows.flatten, 0 ≤ v ∧ v ≤ n := by
  constructor
  · intro h v hv
    obtain ⟨r, hr, hvr⟩ := List.mem_flatten.mp hv
    exact inSize_some.mp (h _ (List.mem_map_of_mem hr) _ (List.mem_map_of_mem hvr))
  · intro h g hg v hv
    obtain ⟨r, hr, rfl⟩ := List.mem_map.mp hg
    obtain ⟨u, hu, rfl⟩ := List.mem_map.mp hv
    exact inSize_some.mpr (h u (List.mem_flatten.mpr ⟨r, hr, hu⟩))

theorem region_of_assigned {b₀ : Board} (h : b₀.assignRegions box = .ok b)
    (hn : (b.width : Int) = n) {i : Nat} (hi : i < b.listed) : b.region i =
      some (.number (box.number ((n : Int).fdiv box.width) (b.frame.site i))) := by
  have hframe := Board.assignRegions_frame h
  have hwidth : (b₀.width : Int) = n := by rw [← hn, Board.width, Board.width, hframe]
  rw [Board.assignRegions_listed h] at hi
  rw [Board.region_assignRegions h hi, hwidth, hframe]

/-! ## From measures and rows

An empty square is cut into boxes, and the entries are written into it. -/

section

variable (hn : 1 ≤ n) (hrows : rows.length = n) (hcols : ∀ r ∈ rows, r.length = n)

include hrows hcols

theorem length_asGivens : ((asGivens rows).length : Int) = n ∧
    ∀ r ∈ asGivens rows, (r.length : Int) = n := by
  refine ⟨by rw [asGivens, List.length_map, hrows], fun g hg => ?_⟩
  obtain ⟨r, hr, rfl⟩ := List.mem_map.mp hg
  rw [List.length_map, hcols r hr]

theorem length_flatten_asGivens : (asGivens rows).flatten.length = n * n := by
  obtain ⟨hlen, hlens⟩ := length_asGivens hrows hcols
  rw [Board.length_flatten_eq_mul fun r hr => Int.ofNat_inj.mp (hlens r hr),
    Int.ofNat_inj.mp hlen]

theorem hasRows_putFrom (hb : b.Rectangular) (hw : (b.width : Int) = n)
    (hh : (b.height : Int) = n) (hnone : ∀ i, b.value i = none) :
    (b.putFrom 0 ((asGivens rows).flatten.map Board.entry)).HasRows (asGivens rows) := by
  obtain ⟨hlen, hlens⟩ := length_asGivens hrows hcols
  have hframe := Board.putFrom_frame b 0 ((asGivens rows).flatten.map Board.entry)
  refine ⟨hb.congr hframe (Board.putFrom_listed _ _ _), fun r hr => ?_, ?_, fun i => ?_⟩
  · have hr := hlens r hr
    rw [Board.width, hframe, ← Board.width]
    omega
  · rw [Board.height, hframe, ← Board.height]
    omega
  · by_cases hi : i < b.frame.size
    · have hput := Board.value_putFrom (i := 0) (by rwa [Nat.zero_add])
        ((asGivens rows).flatten.map Board.entry)
      rw [Nat.zero_add, hnone] at hput
      exact hput
    · have hsize : b.frame.size = n * n := by
        rw [hb.size_eq, Int.natCast_inj.mp hw, Int.natCast_inj.mp hh]
      rw [Nat.not_lt, hsize] at hi
      rw [Board.value_of_size_le (by rwa [hframe, hsize]), List.getElem?_eq_none]
      · rfl
      · rwa [List.length_map, length_flatten_asGivens hrows hcols]

include hn

theorem exists_empty_shows (harea : box.width * box.height = n) :
    ∃ b₀, empty ⟨n, box⟩ = .ok b₀ ∧
      Shows n box (asGivens rows) (b₀.putFrom 0 ((asGivens rows).flatten.map Board.entry)) := by
  obtain ⟨_, b₀, hassign, hempty, hrect, hwidth, hheight, hnone⟩ :=
    exists_empty_of_area (Int.ofNat_le.mpr hn) harea
  refine ⟨b₀, hempty, hasRows_putFrom hrows hcols hrect hwidth hheight hnone, fun i hi => ?_⟩
  rw [Board.putFrom_listed] at hi
  rw [Board.region_congr (Board.putFrom_regions _ _ _), Board.putFrom_frame]
  exact region_of_assigned hassign hwidth hi

/-- Rows are accepted with boxes that fit, and the board shows both. -/
theorem ofRows_eq_ok_iff :
    ofRows ⟨n, box⟩ (asGivens rows) = .ok b ↔ Fits n box rows ∧ Shows n box (asGivens rows) b := by
  have hshape := length_asGivens hrows hcols
  constructor
  · intro h
    obtain ⟨_, hb₁, -⟩ := bind_eq_ok_iff.mp h
    obtain ⟨-, -, -, harea, -⟩ := assigned_of_empty hb₁
    obtain ⟨b₀, hempty, hshows⟩ := exists_empty_shows hn hrows hcols harea
    obtain ⟨hin, rfl⟩ := (ofRows_of_empty hempty hshape).mp h
    exact ⟨⟨harea, forall_inSize.mp hin⟩, hshows⟩
  · rintro ⟨⟨harea, hentries⟩, hb⟩
    obtain ⟨b₀, hempty, hshows⟩ := exists_empty_shows hn hrows hcols harea
    exact (ofRows_of_empty hempty hshape).mpr ⟨forall_inSize.mpr hentries, hb.unique hshows⟩

/-! ## From a draft

A draft of a sudoku is checked as a whole; what its board shows is known of every
checked puzzle. -/

theorem checked_draft (h : Fits n box rows) (hwords : ∀ v ∈ rows.flatten, Draft.isWord v = true) :
    (draft name n box rows).Checked (puzzle name n box rows) where
  name := rfl
  rules := rfl
  maxValue := rfl
  maxValue_pos := hn
  grid := rfl
  dims := rfl
  height := hrows.symm
  width := by
    cases rows with
    | nil => exact absurd hrows (Nat.ne_of_lt hn)
    | cons r rows => exact (hcols r List.mem_cons_self).symm
  row_length := hcols
  words := hwords
  entries := h.entries
  box hne := absurd rfl hne
  fit _ := ⟨box, Draft.fitBox_eq_ok_iff.mpr ⟨rfl, rfl, (Int.mul_comm _ _).trans h.area⟩, rfl⟩

end

theorem fits_of_checked {p : Puzzle} (h : (draft name n box rows).Checked p) :
    p = puzzle name n box rows ∧ Fits n box rows := by
  have hrules : p.rules = .sudoku := (Option.some.inj h.rules).symm
  have hmax : p.maxValue = n := (Int.natCast_inj.mp h.maxValue).symm
  have hrows : p.rows = rows := (Grid.plane.inj h.grid).symm
  obtain ⟨hheight, hrest⟩ := List.cons_eq_cons.mp h.dims
  have hwidth := (List.cons_eq_cons.mp hrest).1
  obtain ⟨fit, hfit, hbox⟩ := h.fit hrules
  obtain ⟨hgiven, -, harea⟩ := Draft.fitBox_eq_ok_iff.mp hfit
  have hfit : fit = box := hgiven
  subst hfit
  refine ⟨?_, ?_, ?_⟩
  · cases p
    rw [puzzle, Puzzle.mk.injEq]
    exact ⟨h.name, (Int.natCast_inj.mp hheight).symm, (Int.natCast_inj.mp hwidth).symm, hmax,
      hrules, hrows, hbox⟩
  · rw [Int.mul_comm, harea, ← hwidth]
  · have hentries := h.entries
    rwa [hrows, hmax] at hentries

theorem shows_of_board (hp : (draft name n box rows).Checked (puzzle name n box rows))
    (h : (puzzle name n box rows).board = .ok b) : Shows n box (asGivens rows) b where
  rows := Puzzle.hasRows_of_board h
  region i hi := by
    obtain ⟨b₀, box', hbox, hassign, -⟩ := Puzzle.assigned_of_board hp rfl h
    cases hbox
    have hwidth : b.width = n := (Puzzle.sides_of_board hp h).1
    exact region_of_assigned hassign (congrArg Nat.cast hwidth) hi

end

/-- The board that is made of measures and rows is the board of the puzzle with the
same rows and boxes; if one of them is refused, so is the other. -/
theorem ofRows_iff_board (name : String) (n : Nat) (box : Box) (rows : List (List Int))
    (hn : 1 ≤ n) (hrows : rows.length = n) (hcols : ∀ r ∈ rows, r.length = n)
    (hwords : ∀ v ∈ rows.flatten, Draft.isWord v = true) (b : Board) :
    ofRows ⟨n, box⟩ (asGivens rows) = .ok b ↔
      ∃ p, (draft name n box rows).check = .ok p ∧ p.board = .ok b := by
  rw [ofRows_eq_ok_iff hn hrows hcols]
  constructor
  · rintro ⟨hfits, hshows⟩
    have hp : (draft name n box rows).Checked (puzzle name n box rows) :=
      checked_draft hn hrows hcols hfits hwords
    obtain ⟨b', hb'⟩ := Puzzle.exists_board hp hn hn
    have hsame : b = b' := hshows.unique (shows_of_board hp hb')
    exact ⟨_, Draft.check_eq_ok_iff.mpr hp, hsame ▸ hb'⟩
  · rintro ⟨p, hcheck, hb⟩
    have hp := Draft.check_eq_ok_iff.mp hcheck
    obtain ⟨rfl, hfits⟩ := fits_of_checked hp
    exact ⟨hfits, shows_of_board hp hb⟩

theorem ofRows_iff_board_flat :
    let rows : List (List Int) := [[1, 0, 0, 0], [0, 0, 0, 0], [0, 0, 3, 0], [0, 0, 0, 0]]
    ∃ b p, ofRows ⟨4, ⟨4, 1⟩⟩ (asGivens rows) = .ok b ∧
      (draft "flat" 4 ⟨4, 1⟩ rows).check = .ok p ∧ p.board = .ok b := by
  intro rows
  obtain ⟨p, hp, hb⟩ :=
    (ofRows_iff_board "flat" 4 ⟨4, 1⟩ rows (by decide) rfl (by decide) (by decide) _).mp rfl
  exact ⟨_, p, rfl, hp, hb⟩

end GridFill.Sudoku
