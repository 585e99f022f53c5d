/-
# `GridFill.Proofs.Puzzle.Check` — what a checked puzzle is

The checks of a draft stand one behind the other, and a puzzle is what passes all
of them.  `Checked` lists what then holds of the puzzle, field by field, and it
is exactly that: a draft becomes a puzzle when and only when the two are related
by it (`check_eq_ok_iff`).  Nothing after this module opens the checks again.
-/
import Mathlib.Data.List.Basic
import GridFill.Puzzle.Basic

namespace GridFill

theorem bind_eq_ok_iff {α β ε : Type} {x : Except ε α} {f : α → Except ε β} {b : β} :
    x >>= f = .ok b ↔ ∃ a, x = .ok a ∧ f a = .ok b := by
  cases x with
  | error e =>
      constructor
      · intro h
        cases h
      · rintro ⟨a, h, -⟩
        cases h
  | ok a =>
      constructor
      · intro h
        exact ⟨a, rfl, h⟩
      · rintro ⟨a', ha, hb⟩
        cases ha
        exact hb

namespace Draft

/-- `p` is the puzzle of the draft `d`. -/
structure Checked (d : Draft) (p : Puzzle) : Prop where
  name : p.name = d.name
  rules : Rules.ofName? d.rules = some p.rules
  maxValue : d.maxValue = p.maxValue
  maxValue_pos : 1 ≤ p.maxValue
  grid : d.grid = .plane p.rows
  dims : d.dims = [(p.height : Int), (p.width : Int)]
  height : p.height = p.rows.length
  width : p.width = (p.rows.headD []).length
  row_length : ∀ r ∈ p.rows, r.length = p.width
  words : ∀ v ∈ p.rows.flatten, isWord v = true
  entries : ∀ v ∈ p.rows.flatten, 0 ≤ v ∧ v ≤ p.maxValue
  box : p.rules ≠ .sudoku → p.box = d.box
  fit : p.rules = .sudoku → ∃ b, fitBox d.box p.height p.width = .ok b ∧ p.box = some b

theorem fitBox_eq_ok_iff {box : Option Box} {height width : Nat} {b : Box} :
    fitBox box height width = .ok b ↔
      b = box.getD ⟨nearestRoot width, nearestRoot width⟩ ∧ height = width ∧
        b.height * b.width = width := by
  unfold fitBox
  dsimp only
  generalize box.getD ⟨nearestRoot width, nearestRoot width⟩ = fit
  by_cases h : height ≠ width ∨ fit.height * fit.width ≠ width
  · rw [if_pos h]
    constructor
    · intro he
      cases he
    · rintro ⟨rfl, hsquare, harea⟩
      exact absurd h (not_or.mpr ⟨not_not.mpr hsquare, not_not.mpr harea⟩)
  · rw [if_neg h]
    obtain ⟨hsquare, harea⟩ := not_or.mp h
    constructor
    · intro he
      cases he
      exact ⟨rfl, not_not.mp hsquare, not_not.mp harea⟩
    · rintro ⟨rfl, -, -⟩
      rfl

variable {d : Draft} {p : Puzzle}

theorem checked_of_check (h : d.check = .ok p) : Checked d p := by
  unfold check at h
  split at h
  · cases h
  rename_i hwords
  split at h
  · cases h
  rename_i rules hrules
  split at h
  · cases h
  rename_i hmax
  split at h
  · cases h
  rename_i hshape
  split at h
  · cases h
  rename_i hentries
  split at h
  case h_2 | h_3 => cases h
  case h_1 rows hgrid =>
    rw [not_not] at hshape
    have hmaxValue : d.maxValue = (d.maxValue.toNat : Int) := by omega
    rw [hgrid] at hshape hwords hentries
    simp only [Grid.entries, Bool.not_eq_true', Bool.not_eq_false, List.all_eq_true,
      Bool.and_eq_true, decide_eq_true_iff] at hwords hentries
    dsimp only at h
    split at h
    · cases h
    rename_i hrect
    simp only [Bool.not_eq_true', Bool.not_eq_false, List.all_eq_true, decide_eq_true_iff] at hrect
    have hentries' : ∀ v ∈ rows.flatten, 0 ≤ v ∧ v ≤ (d.maxValue.toNat : Int) := by
      rw [← hmaxValue]
      exact hentries
    have hpos : 1 ≤ d.maxValue.toNat := by omega
    split at h
    · rename_i hsudoku
      obtain ⟨b, hfit, hp⟩ := bind_eq_ok_iff.mp h
      cases hp
      exact ⟨rfl, hrules, hmaxValue, hpos, hgrid, hshape.symm, rfl, rfl, hrect, hwords,
        hentries', fun hne => absurd hsudoku hne, fun _ => ⟨b, hfit, rfl⟩⟩
    · rename_i hother
      cases h
      exact ⟨rfl, hrules, hmaxValue, hpos, hgrid, hshape.symm, rfl, rfl, hrect, hwords,
        hentries', fun _ => rfl, fun hsudoku => absurd hsudoku hother⟩

/-- A draft is accepted exactly as the puzzle that it is. -/
theorem check_eq_ok_iff : d.check = .ok p ↔ Checked d p := by
  constructor
  · exact checked_of_check
  · intro h
    have hwords : (Grid.plane p.rows).entries.all isWord = true := List.all_eq_true.mpr h.words
    have hlow : ¬ d.maxValue < 1 := by
      have hmax := h.maxValue
      have hpos := h.maxValue_pos
      omega
    have hshape : (Grid.plane p.rows).shape = d.dims := by
      rw [h.dims, h.height, h.width]
      rfl
    have hentries : (Grid.plane p.rows).entries.all (fun v => 0 ≤ v && v ≤ d.maxValue) = true := by
      rw [h.maxValue, List.all_eq_true]
      intro v hv
      simpa using h.entries v hv
    have hrows : p.rows.all (fun r => r.length = p.width) = true := by
      simpa using h.row_length
    have htoNat : d.maxValue.toNat = p.maxValue := by rw [h.maxValue, Int.toNat_natCast]
    unfold check
    simp only [h.grid, hwords, h.rules, hlow, hshape, hentries, hrows, htoNat, ← h.name,
      ← h.height, ← h.width, Bool.not_true, Bool.false_eq_true, ne_eq, not_true_eq_false, if_false]
    by_cases hsudoku : p.rules = .sudoku
    · obtain ⟨b, hb, hpb⟩ := h.fit hsudoku
      rw [if_pos hsudoku, hb]
      show Except.ok { p with box := some b } = .ok p
      rw [← hpb]
    · rw [if_neg hsudoku, ← h.box hsudoku]

end Draft

end GridFill
