/-
# `GridFill.Proofs.Puzzle.Gap` — where the reading of a puzzle file stops

A blank line ends a board, and a blank line where a board would begin ends the
reading of the file.  So two blank lines in a row are not one wide separator:
everything from the second of them on is dropped without a word, also boards.

`Cut` says this of the lines below the header, with no board in it: the lines
that are read never have two blank ones in a row, and what is left unread starts
at the second of two.  That fixes where the cut is.  The rows of the puzzles are
then the lines read, row by row (`rows_ofFile`), and no row of the file is lost
exactly when nothing but blank lines is left behind the cut.
-/
import Mathlib.Data.List.Forall2
import GridFill.Proofs.Puzzle.Check
import GridFill.Puzzle.File

namespace GridFill.Puzzle

/-! ## Lines and rows side by side

What is read from the lines of a file is compared with the lines one by one, blank
lines left out. -/

theorem mapM_eq_ok_iff {α β ε : Type} {f : α → Except ε β} {xs : List α} {ys : List β} :
    xs.mapM f = .ok ys ↔ List.Forall₂ (fun x y => f x = .ok y) xs ys := by
  induction xs generalizing ys with
  | nil =>
      rw [List.mapM_nil, List.forall₂_nil_left_iff]
      constructor
      · intro h
        exact (Except.ok.inj h).symm
      · rintro rfl
        rfl
  | cons x xs ih =>
      rw [List.mapM_cons, List.forall₂_cons_left_iff]
      constructor
      · intro h
        obtain ⟨y, hy, h⟩ := bind_eq_ok_iff.mp h
        obtain ⟨ys', hys, h⟩ := bind_eq_ok_iff.mp h
        exact ⟨y, ys', hy, ih.mp hys, (Except.ok.inj h).symm⟩
      · rintro ⟨y, ys', hy, hys, rfl⟩
        rw [hy, ih.mpr hys]
        rfl

/-- Each of the lines is read as the row at the same place. -/
def ReadAs (ls : List (List Char)) (rows : List (List Int)) : Prop :=
  List.Forall₂ (fun l r => parseRow l = .ok r) ls rows

/-- The lines that are not blank. -/
def nonBlank (ls : List (List Char)) : List (List Char) :=
  ls.filter fun l => !Text.isBlankLine l

section

variable {path stem : String} {h : Header} {number : Nat} {ls : List (List Char)}
  {bs : List (List (List Char))} {p : Puzzle} {ps : List Puzzle}

theorem readAs_ofLines (hp : ofLines path stem h number ls = .ok p) : ReadAs ls p.rows := by
  obtain ⟨rows, hrows, hp⟩ := bind_eq_ok_iff.mp hp
  split at hp
  · cases hp
  · have hgrid := (Draft.checked_of_check hp).grid
    cases hgrid
    exact mapM_eq_ok_iff.mp hrows

theorem readAs_ofBoards (hps : ofBoards path stem h number bs = .ok ps) :
    ReadAs bs.flatten (ps.flatMap Puzzle.rows) := by
  induction bs generalizing number ps with
  | nil =>
      cases hps
      exact .nil
  | cons b bs ih =>
      rw [ofBoards] at hps
      obtain ⟨p, hp, hps⟩ := bind_eq_ok_iff.mp hps
      obtain ⟨ps', hrest, hps⟩ := bind_eq_ok_iff.mp hps
      cases hps
      exact List.rel_append (readAs_ofLines hp) (ih hrest)

end

/-! ## The cut

The boards are read up to the second of two blank lines, or up to the end.  `Cut`
knows this place without any board. -/

/-- The lines `ls` are read up to a place: none of the lines read that is blank
follows another one, and the reading stops only between two blank lines. -/
structure Cut (ls read unread : List (List Char)) : Prop where
  eq : ls = read ++ unread
  parted : read.IsChain fun l l' => ¬ (Text.isBlankLine l = true ∧ Text.isBlankLine l' = true)
  gap : unread ≠ [] → (∃ l ∈ read.getLast?, Text.isBlankLine l = true) ∧
    ∃ l ∈ unread.head?, Text.isBlankLine l = true

section

variable {ls read unread : List (List Char)} {l prev : List Char}

theorem Cut.cons (h : Cut (l :: ls) (l :: read) unread)
    (hl : ¬ (Text.isBlankLine prev = true ∧ Text.isBlankLine l = true)) :
    Cut (prev :: l :: ls) (prev :: l :: read) unread where
  eq := congrArg (prev :: ·) h.eq
  parted := List.isChain_cons_cons.mpr ⟨hl, h.parted⟩
  gap hne := by
    obtain ⟨hread, hunread⟩ := h.gap hne
    rw [List.getLast?_cons_cons]
    exact ⟨hread, hunread⟩

/-- The boards hold the lines read that are not blank.  The line before is blank
exactly when no board has been begun. -/
theorem exists_cut (board ls : List (List Char)) (prev : List Char)
    (hprev : Text.isBlankLine prev = board.isEmpty) :
    ∃ read unread, Cut (prev :: ls) (prev :: read) unread ∧
      (boardLines board ls).flatten = board.reverse ++ nonBlank read := by
  induction ls generalizing board prev with
  | nil =>
      refine ⟨[], [], ⟨rfl, List.IsChain.singleton _, fun hne => absurd rfl hne⟩, ?_⟩
      rw [boardLines]
      cases board with
      | nil => rfl
      | cons b bs => simp [nonBlank]
  | cons l ls ih =>
      rw [boardLines]
      cases hl : Text.isBlankLine l with
      | false =>
          obtain ⟨read, unread, hcut, hflat⟩ := ih (l :: board) l (by rw [hl]; rfl)
          refine ⟨l :: read, unread, hcut.cons ?_, ?_⟩
          · rintro ⟨-, hblank⟩
            rw [hl] at hblank
            cases hblank
          · rw [if_neg Bool.false_ne_true, hflat]
            simp [nonBlank, hl]
      | true =>
          rw [if_pos rfl]
          cases board with
          | nil =>
              refine ⟨[], l :: ls, ⟨rfl, List.IsChain.singleton _, fun _ => ?_⟩, rfl⟩
              exact ⟨⟨prev, rfl, hprev⟩, ⟨l, rfl, hl⟩⟩
          | cons b bs =>
              obtain ⟨read, unread, hcut, hflat⟩ := ih [] l hl
              refine ⟨l :: read, unread, hcut.cons ?_, ?_⟩
              · rintro ⟨hblank, -⟩
                rw [hprev] at hblank
                cases hblank
              · rw [if_neg (by simp), List.flatten_cons, hflat]
                simp [nonBlank, hl]

end

/-! ## Whole files

What is left unread is lost if it holds anything but blank lines, since as many
rows as lines are read. -/

theorem Cut.readAs_iff {ls read unread : List (List Char)} {rows : List (List Int)}
    (h : Cut ls read unread) (hrows : ReadAs (nonBlank read) rows) :
    ReadAs (nonBlank ls) rows ↔ ∀ l ∈ unread, Text.isBlankLine l = true := by
  have hsplit : nonBlank ls = nonBlank read ++ nonBlank unread := by
    rw [h.eq, nonBlank, List.filter_append]
    rfl
  have hnone : nonBlank unread = [] ↔ ∀ l ∈ unread, Text.isBlankLine l = true := by
    simp [nonBlank]
  rw [← hnone, hsplit]
  constructor
  · intro hall
    have hlen := hall.length_eq
    rw [← hrows.length_eq, List.length_append] at hlen
    exact List.length_eq_zero_iff.mp (by omega)
  · intro hnil
    rw [hnil, List.append_nil]
    exact hrows

/-- The rows of the puzzles of a file are its non-blank lines below the header up to
the first two blank lines in a row.  They are all the non-blank lines below the
second one exactly when none but blank lines come after that place. -/
theorem rows_ofFile (path stem : String) (text : List Char) (ps : List Puzzle)
    (h : ofFile path stem text = .ok ps) :
    ∃ read unread, Cut ((Text.lines text).drop 1) read unread ∧
      ReadAs (nonBlank read) (ps.flatMap Puzzle.rows) ∧
      (ReadAs (nonBlank ((Text.lines text).drop 2)) (ps.flatMap Puzzle.rows) ↔
        ∀ l ∈ unread, Text.isBlankLine l = true) := by
  obtain ⟨header, -, h⟩ := bind_eq_ok_iff.mp h
  split at h
  case isFalse => cases h
  case isTrue hblank =>
    have hrows := readAs_ofBoards h
    rw [← List.drop_drop (i := 1) (j := 1)]
    rw [← List.drop_drop (i := 1) (j := 1)] at hrows
    cases hls : (Text.lines text).drop 1 with
    | nil =>
        rw [hls] at hrows
        have hcut : Cut [] [] [] := ⟨rfl, .nil, fun hne => absurd rfl hne⟩
        exact ⟨[], [], hcut, hrows, hcut.readAs_iff hrows⟩
    | cons second ls =>
        rw [hls] at hrows hblank
        obtain ⟨read, unread, hcut, hflat⟩ := exists_cut [] ls second hblank
        rw [List.drop_one, List.tail_cons, hflat, List.reverse_nil, List.nil_append] at hrows
        have hdrop (ls : List (List Char)) : nonBlank (second :: ls) = nonBlank ls :=
          List.filter_cons_of_neg (by rw [show Text.isBlankLine second = true from hblank]; simp)
        have hread : ReadAs (nonBlank (second :: read)) (ps.flatMap Puzzle.rows) := by
          rw [hdrop]
          exact hrows
        refine ⟨second :: read, unread, hcut, hread, ?_⟩
        rw [List.drop_one, List.tail_cons, ← hdrop ls]
        exact hcut.readAs_iff hread

/-- A file with two boards of one cell and two blank lines between them. -/
def wideGap : List Char := "1 1 2 permissive\n\n1\n\n\n2\n".toList

theorem rows_ofFile_wideGap : ∃ ps, ofFile "p.txt" "p" wideGap = .ok ps ∧
    ps.flatMap Puzzle.rows = [[1]] ∧
    ∃ read unread, Cut ((Text.lines wideGap).drop 1) read unread ∧
      ReadAs (nonBlank read) [[1]] ∧ ∃ l ∈ unread, ¬ Text.isBlankLine l = true := by
  have hfile : ∃ ps, ofFile "p.txt" "p" wideGap = .ok ps ∧ ps.flatMap Puzzle.rows = [[1]] :=
    ⟨_, rfl, rfl⟩
  obtain ⟨ps, h, hps⟩ := hfile
  obtain ⟨read, unread, hcut, hread, hiff⟩ := rows_ofFile "p.txt" "p" wideGap ps h
  rw [hps] at hread hiff
  refine ⟨ps, h, hps, read, unread, hcut, hread, ?_⟩
  by_contra hblank
  push Not at hblank
  have hall := (hiff.mpr hblank).length_eq
  have htwo : (nonBlank ((Text.lines wideGap).drop 2)).length = 2 := by rfl
  rw [htwo] at hall
  cases hall

end GridFill.Puzzle
