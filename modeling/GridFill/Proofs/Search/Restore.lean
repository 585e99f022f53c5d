/-
# `GridFill.Proofs.Search.Restore` — a search leaves the board as it was

A run that does not keep a filled board gives back the very board it was begun
with: values, regions, sites, everything (`Runs.restores`).  Nothing is asked of
the judge, which may remember, change its mind, or break down at any query, and
nothing of the orders.  The one invariant is that the cells of a job are the
empty cells of its board.

The same invariant shows that the list of empty cells, drawn up once at the
start, always tells what a fresh look at the board would tell: every frame takes
the first empty cell of the board as it is at that moment (`explore_findEmpty`).
-/
import GridFill.Proofs.Search.Run

namespace GridFill.Search

variable {σ ρ ε : Type}

section

variable {w w₁ w₂ : Walk σ ρ} {i : Nat} {cells : List Nat} {v : Int}

theorem emptyCells_put_some (hw : w.board.emptyCells = i :: cells) (h₁ : w₁.board = w.board) :
    (w₁.put i (some v)).board.emptyCells = cells := by
  rw [Walk.board_put, h₁]
  exact Board.emptyCells_put hw v

theorem board_put_none (hw : w.board.emptyCells = i :: cells) (h₁ : w₁.board = w.board)
    (h₂ : w₂.board = (w₁.put i (some v)).board) : (w₂.put i none).board = w.board := by
  rw [Walk.board_put, h₂, Walk.board_put, h₁]
  exact Board.put_some_put_none (Board.value_of_emptyCells_eq_cons hw)

end

section

variable {p : Plan σ ρ ε} {job : Job} {depth : Nat} {w : Walk σ ρ} {r : Step σ ρ ε}

/-- A run that does not end with a board to keep restores the board. -/
theorem Runs.restores (h : Runs p job depth w r) (hw : w.board.emptyCells = job.cells)
    (hr : r.1 = .ok .stop → p.goal.keeps = false) : r.2.board = w.board := by
  induction h with
  | blocked he => exact enter_board he
  | leaf he | undrawn he =>
      have hb := enter_board he
      exact hb
  | opened he _ _ ih =>
      have hb := enter_board he
      exact (ih (by rw [hb]; exact hw) hr).trans hb
  | spent => rfl
  | broken hq => exact query_board hq
  | refused hq _ ih =>
      have hb := query_board hq
      exact (ih (by rw [hb]; exact hw) hr).trans hb
  | failed hq _ ih =>
      have hb := query_board hq
      exact board_put_none hw hb (ih (emptyCells_put_some hw hb) hr)
  | kept hq _ hk => exact absurd (hr rfl) (by rw [hk]; decide)
  | cleared hq _ _ ih =>
      have hb := query_board hq
      exact board_put_none hw hb (ih (emptyCells_put_some hw hb) hr)
  | undone hq _ _ ih ih' =>
      have hb := query_board hq
      have hback := board_put_none hw hb (ih (emptyCells_put_some hw hb) (by rintro ⟨⟩))
      exact (ih' (by rw [hback]; exact hw) hr).trans hback

theorem Runs.board_back {j : Judge σ ε} {i : Nat} {cells : List Nat} {v : Int} {w₁ w₂ : Walk σ ρ}
    {a : Except (SearchFault ε) Bool}
    (hrun : Runs p (.frame cells) depth (w₁.put i (some v)) (.ok .proceed, w₂))
    (hw : w.board.emptyCells = i :: cells) (hq : query j i v w = (a, w₁)) :
    (w₂.put i none).board = w.board := by
  have hb := query_board hq
  exact board_put_none hw hb (hrun.restores (emptyCells_put_some hw hb) (by rintro ⟨⟩))

theorem run_restores (p : Plan σ ρ ε) (w : Walk σ ρ)
    (hr : (run p w).1 = .ok .stop → p.goal.keeps = false) : (run p w).2.board = w.board :=
  (runs_explore p w.board.emptyCells 0 w).restores rfl hr

/-! ## Every frame takes the first empty cell

On the board that a frame is entered with, the empty cells are those of its job, so
the list need not be drawn up again. -/

theorem tryValues_findEmpty {i : Nat} {cells : List Nat} (us : List Int)
    (hw : w.board.emptyCells = i :: cells) :
    tryValues (tryValue p (fun w => explore p w.board.emptyCells depth w) i) us w =
      tryValues (tryValue p (explore p cells depth) i) us w := by
  induction us generalizing w with
  | nil => rfl
  | cons v us ih =>
      simp only [tryValues, tryValue]
      rcases hq : query p.judge i v w with ⟨e | _ | _, w₁⟩
      · rfl
      · exact ih (by rw [query_board hq]; exact hw)
      · have hb := query_board hq
        have hnext := emptyCells_put_some (v := v) hw hb
        have hrun := runs_explore p cells depth (w₁.put i (some v))
        dsimp only
        rw [hnext]
        rcases he : explore p cells depth (w₁.put i (some v)) with ⟨e | _ | _, w₂⟩
        · rfl
        · rw [he] at hrun
          have hback := board_put_none hw hb (hrun.restores hnext (by rintro ⟨⟩))
          exact ih (by rw [hback]; exact hw)
        · cases hk : p.goal.keeps with
          | true => simp only [leave, hk, if_true]
          | false => simp only [leave, hk, Bool.false_eq_true, if_false]

/-- A frame looks for the first empty cell of its board and tries the values of
an order there, with a frame of the same kind after each accepted value. -/
theorem explore_findEmpty (p : Plan σ ρ ε) (depth : Nat) (w : Walk σ ρ) :
    explore p w.board.emptyCells depth w =
      match enter p.conditions depth w with
      | (.error e, w₁) => (.error e, w₁)
      | (.ok _, w₁) =>
        match w₁.board.findEmpty with
        | none => (.ok (p.goal.reached w₁.tally).1,
            { w₁ with tally := (p.goal.reached w₁.tally).2 })
        | some i =>
          if p.conditions.lengthLimit < p.supply.listLength then
            (.error (.fault .lengthWidth), w₁)
          else
            tryValues (tryValue p (fun w => explore p w.board.emptyCells (depth + 1) w) i)
              (p.supply.draw w₁.supply).1.toList
              { w₁ with supply := (p.supply.draw w₁.supply).2 } := by
  rcases hc : w.board.emptyCells with _ | ⟨i, cells⟩
  · rw [explore]
    rcases he : enter p.conditions depth w with ⟨e | _, w₁⟩
    · rfl
    · simp only [Board.findEmpty_eq_head?, enter_board he, hc, List.head?_nil]
  · rw [explore_cons]
    rcases he : enter p.conditions depth w with ⟨e | _, w₁⟩
    · rfl
    · simp only [Board.findEmpty_eq_head?, enter_board he, hc, List.head?_cons]
      refine congrArg (ite _ _) (tryValues_findEmpty _ ?_).symm
      exact hc

end

end GridFill.Search
