/-
# `GridFill.Proofs.Search.Excess` — the values tried, told by the frames

With values tried in ascending order from `1`, a frame that was exhausted has tried `m`
of them, a complete board none, and a frame above the board at which the search ended as
many as the value that it holds.  What is left when `m` values are deducted for each
frame that is no complete board is the excess of a tally (`Tally.excess`).

A frame that comes back leaves the excess as it was (`Runs.excess_proceed`); for this the
order of the values does not matter.  A search that ends owes `m` for each frame above
its last board and has the values on that board in return (`Runs.excess_stop`).
-/
import Mathlib.Tactic.LinearCombination
import Mathlib.Tactic.Ring
import GridFill.Proofs.Search.Watch

namespace GridFill.Search

variable {σ ρ ε : Type}

/-! ## The excess of a tally

A frame brings it down by `m` when it is entered and up by one for each value
tried. -/

/-- The values tried beyond `m` for each frame that is not a complete board counted. -/
def Tally.excess (m : Nat) (t : Tally) : Int := t.validations - m * (t.nodes - t.solutions)

/-- The values that a job has still to try in its first cell. -/
def Job.left : Job → List Int
  | .frame _ => []
  | .values _ _ us => us

section

variable {m : Nat} {t : Tally}

theorem excess_enter (depth : Nat) : (t.enter depth).excess m = t.excess m - m := by
  simp only [Tally.excess, Tally.enter]
  ring

theorem excess_tryValue : t.tryValue.excess m = t.excess m + 1 := by
  simp only [Tally.excess, Tally.tryValue]
  ring

theorem excess_complete : t.complete.excess m = t.excess m + m := by
  simp only [Tally.excess, Tally.complete]
  ring

theorem excess_leaf (g : Goal) (depth : Nat) :
    (g.reached (t.enter depth)).2.excess m = t.excess m - if g.keeps then (m : Int) else 0 := by
  cases g with
  | fill => exact excess_enter depth
  | count stopAt =>
      show (t.enter depth).complete.excess m = t.excess m - 0
      rw [excess_complete, excess_enter]
      omega

theorem eq_of_suffix_valuesTo {v : Int} {us : List Int} (h : v :: us <:+ valuesTo m) :
    v = m - us.length := by
  obtain ⟨earlier, hsplit⟩ := h
  have hlen : earlier.length + (us.length + 1) = m := by
    have := congrArg List.length hsplit
    simpa [length_valuesTo] using this
  have hv : (valuesTo m)[earlier.length]? = some v := by
    rw [← hsplit]
    simp
  have hrank : earlier.length < m := by omega
  simp only [valuesTo, Order.toList, Order.ascending, List.getElem?_map, List.getElem?_range hrank,
    Option.map_some, Option.some.injEq] at hv
  omega

end

/-! ## Runs that come back

All values of the frame were tried, so it is made up for. -/

section

variable {p : Plan σ ρ ε} {job : Job} {depth : Nat} {w : Walk σ ρ} {r : Step σ ρ ε} {m : Nat}

/-- A run that comes back has tried all that was left, and `m` values for every frame
that it entered on the way and that was not complete. -/
theorem Runs.excess_proceed (h : Runs p job depth w r)
    (hs : ∀ t, (p.supply.draw t).1.toList.length = m) (hr : r.1 = .ok .proceed) :
    r.2.tally.excess m = w.tally.excess m + job.left.length := by
  induction h with
  | blocked | undrawn | broken | failed | kept | cleared => cases hr
  | @leaf depth w w₁ he =>
      have hk : p.goal.keeps = false := by
        cases hg : p.goal with
        | fill =>
            rw [hg] at hr
            cases hr
        | count => rfl
      show (p.goal.reached w₁.tally).2.excess m = _
      rw [tally_enter he, excess_leaf, hk]
      simp [Job.left]
  | opened he _ _ ih =>
      have hrest := ih hr
      rw [Job.left, hs, tally_enter he, excess_enter] at hrest
      simp only [Job.left, List.length_nil]
      omega
  | spent => simp [Job.left]
  | refused hq _ ih =>
      have hrest := ih hr
      rw [tally_query hq, excess_tryValue] at hrest
      simp only [Job.left, List.length_cons] at hrest ⊢
      omega
  | undone hq _ _ ih ih' =>
      have hdeep := ih rfl
      have hrest := ih' hr
      rw [Walk.tally_put, tally_query hq, excess_tryValue] at hdeep
      rw [Walk.tally_put] at hrest
      simp only [Job.left, List.length_cons, List.length_nil] at hdeep hrest ⊢
      omega

end

/-! ## Runs that end at a complete board

The frames above the board were left in the middle, each of them at the value that
it holds. -/

section

variable {p : Plan (σ × List Sighting) ρ ε} {j : Judge σ ε} {job : Job} {depth i : Nat}
  {v : Int} {cells : List Nat} {us : List Int} {w w₁ w₂ : Walk (σ × List Sighting) ρ}
  {a : Except (SearchFault ε) Signal} {r : Step (σ × List Sighting) ρ ε} {m : Nat}

/-- A walk that ends a search for some cells of a board lacks `m` for each frame above
its last board, and for that board if it was not counted; in return it has the values
on the board. -/
def Walk.Settles (p : Plan (σ × List Sighting) ρ ε) (m : Nat) (b : Board) (cells : List Nat)
    (excess : Int) (w : Walk (σ × List Sighting) ρ) : Prop :=
  ∃ vs, w.EndsAt p.goal b cells vs ∧
    w.tally.excess m + m * cells.length + (if p.goal.keeps then (m : Int) else 0) =
      excess + vs.sum

theorem Walk.Settles.accepted (hp : p.judge = j.watched)
    (hrun : Runs p (.frame cells) (depth + 1) (w₁.put i (some v)) (a, w₂))
    (h : w₂.Settles p m (w₁.put i (some v)).board cells (w₁.tally.excess m))
    (hw : w.board.emptyCells = i :: cells) (hq : query p.judge i v w = (.ok true, w₁))
    (hleft : v :: us <:+ valuesTo m) :
    w₂.Settles p m w.board (i :: cells) (w.tally.excess m + (v :: us).length) := by
  obtain ⟨vs, hends, hsum⟩ := h
  have hv : v = m - us.length := eq_of_suffix_valuesTo hleft
  rw [tally_query hq, excess_tryValue] at hsum
  rw [hp] at hq
  refine ⟨v :: vs, hends.accepted hw hq hrun, ?_⟩
  simp only [List.length_cons, List.sum_cons]
  push_cast
  linear_combination hsum - hv

/-- A run that ends at a complete board settles what was left of its job. -/
theorem Runs.excess_stop (h : Runs p job depth w r) (hp : p.judge = j.watched)
    (hs : ∀ t, (p.supply.draw t).1.toList = valuesTo m) (hw : w.board.emptyCells = job.cells)
    (hleft : job.left <:+ valuesTo m) (hr : r.1 = .ok .stop) :
    r.2.Settles p m w.board job.cells (w.tally.excess m + job.left.length) := by
  induction h with
  | blocked | undrawn | broken | failed | spent => cases hr
  | @leaf depth w w₁ he =>
      have hb := enter_board he
      refine ⟨[], .leaf p.goal hb, ?_⟩
      show (p.goal.reached w₁.tally).2.excess m + _ + _ = _
      rw [tally_enter he, excess_leaf]
      simp [Job.cells, Job.left]
  | opened he _ _ ih =>
      have hb := enter_board he
      rw [hs] at ih
      obtain ⟨vs, hends, hsum⟩ := ih (by rw [hb]; exact hw) (List.suffix_refl _) hr
      rw [tally_enter he, excess_enter, Job.left, length_valuesTo] at hsum
      refine ⟨vs, hb ▸ hends, ?_⟩
      simp only [Job.cells, Job.left, List.length_nil] at hsum ⊢
      omega
  | refused hq _ ih =>
      have hb := query_board hq
      have hrest : _ <:+ valuesTo m := (List.suffix_cons _ _).trans hleft
      obtain ⟨vs, hends, hsum⟩ := ih (by rw [hb]; exact hw) hrest hr
      rw [tally_query hq, excess_tryValue] at hsum
      refine ⟨vs, hb ▸ hends, ?_⟩
      simp only [Job.cells, Job.left, List.length_cons] at hsum ⊢
      omega
  | kept hq hrun _ ih =>
      have hb := query_board hq
      have hdeep := ih (emptyCells_put_some hw hb) List.nil_suffix rfl
      rw [Job.left, List.length_nil, Nat.cast_zero, Int.add_zero] at hdeep
      exact .accepted hp hrun hdeep hw hq hleft
  | cleared hq hrun hk ih =>
      have hb := query_board hq
      have hdeep := ih (emptyCells_put_some hw hb) List.nil_suffix rfl
      rw [Job.left, List.length_nil, Nat.cast_zero, Int.add_zero] at hdeep
      obtain ⟨vs, hends, hsum⟩ := Walk.Settles.accepted hp hrun hdeep hw hq hleft
      exact ⟨vs, hends.cleared hk _, hsum⟩
  | undone hq hrun _ _ ih =>
      have hback := hrun.board_back hw hq
      have hdeep := hrun.excess_proceed (fun t => by rw [hs, length_valuesTo]) rfl
      have hrest : _ <:+ valuesTo m := (List.suffix_cons _ _).trans hleft
      obtain ⟨vs, hends, hsum⟩ := ih (by rw [hback]; exact hw) hrest hr
      rw [Walk.tally_put, tally_query hq, excess_tryValue] at hdeep
      rw [Walk.tally_put] at hsum
      refine ⟨vs, hback ▸ hends, ?_⟩
      simp only [Job.cells, Job.left, List.length_cons, List.length_nil] at hsum hdeep ⊢
      omega

end

end GridFill.Search
