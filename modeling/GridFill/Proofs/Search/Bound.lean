/-
# `GridFill.Proofs.Search.Bound` — how far a search can go

A frame carries nothing that gets smaller: it looks for an empty cell, tries values there,
and enters a frame of the same kind below each value accepted.  Written down in this way
the recursion has to be cut off somewhere (`framesWithin`), and the cut is never met if
more levels are allowed than there are empty cells (`run_within`).  What falls from one
frame to the next is the number of empty cells, and that each frame finds the cells of the
one above it, less the first, rests on every value being taken back exactly.

The frames entered form a tree with at most `m` branches at each frame and no more levels
below the first than there are empty cells, whatever the judge answers and however its
answers change, and the tally grows by no more than that tree has frames and branches
(`Runs.tally_le`).
-/
import Mathlib.Algebra.Ring.GeomSum
import GridFill.Proofs.Search.Count
import GridFill.Proofs.Search.Fill
import GridFill.Proofs.Search.Reach

namespace GridFill.Search

open Relation

variable {σ ρ ε : Type}

/-! ## The recursion with a fresh look at the board

Here a frame is given nothing but the board, and the number of frames that may
still be opened.  It is the search as long as that number is not used up. -/

/-- Tries values in cell `i`, entering frames that may be cut off. -/
def tryWithin (p : Plan σ ρ ε) (deeper : Walk σ ρ → Option (Step σ ρ ε)) (i : Nat) :
    List Int → Walk σ ρ → Option (Step σ ρ ε)
  | [], w => some (.ok .proceed, w)
  | v :: us, w =>
    match query p.judge i v w with
    | (.error e, w) => some (.error e, w)
    | (.ok false, w) => tryWithin p deeper i us w
    | (.ok true, w) =>
      match (deeper (w.put i (some v))).map (leave p.goal i) with
      | some (.ok .proceed, w) => tryWithin p deeper i us w
      | r => r

/-- A frame that looks for the first empty cell of the board as it finds it, with no more
than the given number of frames open; nothing comes back if it is cut off. -/
def framesWithin (p : Plan σ ρ ε) : Nat → Nat → Walk σ ρ → Option (Step σ ρ ε)
  | 0, _, _ => none
  | levels + 1, depth, w =>
    match enter p.conditions depth w with
    | (.error e, w) => some (.error e, w)
    | (.ok _, w) =>
      match w.board.findEmpty with
      | none => some (.ok (p.goal.reached w.tally).1, w.completed p.goal)
      | some i =>
        if p.conditions.lengthLimit < p.supply.listLength then
          some (.error (.fault .lengthWidth), w)
        else
          tryWithin p (framesWithin p levels (depth + 1)) i (w.order p.supply) (w.drawn p.supply)

/-- A job with so many frames open below its own. -/
def Job.within (p : Plan σ ρ ε) (levels : Nat) : Job → Nat → Walk σ ρ → Option (Step σ ρ ε)
  | .frame _, depth, w => framesWithin p (levels + 1) depth w
  | .values i _ us, depth, w => tryWithin p (framesWithin p levels (depth + 1)) i us w

section

variable {p : Plan σ ρ ε} {job : Job} {depth levels : Nat} {w w₁ : Walk σ ρ} {r : Step σ ρ ε}

theorem tryWithin_accepted {deeper : Walk σ ρ → Option (Step σ ρ ε)} {i : Nat} {v : Int}
    {us : List Int} (hq : query p.judge i v w = (.ok true, w₁))
    (hd : deeper (w₁.put i (some v)) = some r) :
    tryWithin p deeper i (v :: us) w =
      match leave p.goal i r with
      | (.ok .proceed, w) => tryWithin p deeper i us w
      | r => some r := by
  rw [tryWithin, hq]
  dsimp only
  rw [hd, Option.map_some]
  rcases leave p.goal i r with ⟨_ | _ | _, _⟩ <;> rfl

theorem Runs.within (h : Runs p job depth w r) (hw : w.board.emptyCells = job.cells)
    (hlevels : job.cells.length ≤ levels) : job.within p levels depth w = some r := by
  induction h generalizing levels with
  | blocked he => rw [Job.within, framesWithin, he]
  | leaf he =>
      have hb := enter_board he
      simp only [Job.within, framesWithin, he, Board.findEmpty_eq_head?, hb, hw, Job.cells,
        List.head?_nil, Walk.completed]
  | undrawn he hroom =>
      have hb := enter_board he
      simp only [Job.within, framesWithin, he, Board.findEmpty_eq_head?, hb, hw, Job.cells,
        List.head?_cons, if_pos (Nat.lt_of_not_le hroom)]
  | opened he hroom _ ih =>
      have hb := enter_board he
      simp only [Job.within, framesWithin, he, Board.findEmpty_eq_head?, hb, hw, Job.cells,
        List.head?_cons, if_neg (Nat.not_lt.mpr hroom)]
      exact ih (by rw [hb]; exact hw) hlevels
  | spent => rfl
  | broken hq => rw [Job.within, tryWithin, hq]
  | refused hq _ ih =>
      have hrest := ih (by rw [query_board hq]; exact hw) hlevels
      rw [Job.within, tryWithin, hq]
      exact hrest
  | failed hq _ ih | kept hq _ hk ih | cleared hq _ hk ih =>
      obtain ⟨below, rfl⟩ := Nat.exists_eq_add_of_le' (Nat.one_le_of_lt hlevels)
      have hdeep := ih (emptyCells_put_some hw (query_board hq)) (Nat.le_of_succ_le_succ hlevels)
      simp only [Job.within] at hdeep ⊢
      rw [tryWithin_accepted hq hdeep]
      simp [leave, *]
  | undone hq hrun _ ih ih' =>
      have hback := hrun.board_back hw hq
      have hrest := ih' (by rw [hback]; exact hw) hlevels
      obtain ⟨below, rfl⟩ := Nat.exists_eq_add_of_le' (Nat.one_le_of_lt hlevels)
      have hdeep := ih (emptyCells_put_some hw (query_board hq)) (Nat.le_of_succ_le_succ hlevels)
      simp only [Job.within] at hdeep hrest ⊢
      rw [tryWithin_accepted hq hdeep]
      exact hrest

/-- A search is not cut off if more frames may be open than there are empty cells. -/
theorem run_within (p : Plan σ ρ ε) (w : Walk σ ρ) (h : w.board.emptyCells.length < levels) :
    framesWithin p levels 0 w = some (run p w) := by
  obtain ⟨below, rfl⟩ := Nat.exists_eq_add_of_le' (Nat.one_le_of_lt h)
  exact (runs_explore p _ 0 w).within rfl (Nat.le_of_lt_succ h)

end

/-! ## No frame is deeper than there are empty cells

Each frame below another has one cell less to fill. -/

section

variable {p : Plan σ ρ ε} {x y : Moment σ ρ}

theorem Leads.depth_add (h : Leads p x y) :
    y.depth + y.job.cells.length = x.depth + x.job.cells.length := by
  cases h with
  | opened | refused | undone => rfl
  | accepted =>
      simp only [Job.cells, List.length_cons]
      omega

theorem reaches_depth_add (h : ReflTransGen (Leads p) x y) :
    y.depth + y.job.cells.length = x.depth + x.job.cells.length := by
  induction h with
  | refl => rfl
  | tail _ hstep ih => exact hstep.depth_add.trans ih

theorem depth_le_of_reaches {w w₁ : Walk σ ρ} {cells : List Nat} {d : Nat}
    (h : ReflTransGen (Leads p) w.start ⟨.frame cells, d, w₁⟩) :
    d ≤ w.board.emptyCells.length := by
  have hsum : d + cells.length = 0 + w.board.emptyCells.length := reaches_depth_add h
  omega

end

/-! ## How many frames and queries there are

A full tree with `m` branches at each place has the most frames that a search can
enter, and a branch for each value that it can try. -/

/-- The branches of a full tree with so many levels below its root and `m` branches at
each place above the last level. -/
def branches (m levels : Nat) : Nat := m * ∑ k ∈ Finset.range levels, m ^ k

theorem branches_add_one (m levels : Nat) :
    branches m levels + 1 = ∑ k ∈ Finset.range (levels + 1), m ^ k :=
  geom_sum_succ.symm

theorem branches_succ (m levels : Nat) :
    branches m (levels + 1) = m * (branches m levels + 1) := by
  rw [branches, branches_add_one]

/-- The most values that a job can try. -/
def Job.mostTried (m : Nat) : Job → Nat
  | .frame cells => branches m cells.length
  | .values _ cells us => us.length * (branches m cells.length + 1)

/-- The most frames that a job can enter: its own if it is one, and one for each value. -/
def Job.mostEntered (m : Nat) : Job → Nat
  | .frame cells => branches m cells.length + 1
  | .values _ cells us => us.length * (branches m cells.length + 1)

section

variable {p : Plan σ ρ ε} {job : Job} {depth : Nat} {w w₁ : Walk σ ρ} {r : Step σ ρ ε} {m : Nat}

theorem nodes_enter_le {c : Conditions} {a : Except (SearchFault ε) Unit}
    (he : enter c depth w = (a, w₁)) : w₁.tally.nodes ≤ w.tally.nodes + 1 := by
  rcases enter_cases he with ⟨-, -, rfl⟩ | ⟨⟨_, rfl⟩, -⟩
  · omega
  · exact Int.le_refl _

/-- A run adds no more to the tally than its job allows, whatever the judge answers. -/
theorem Runs.tally_le (h : Runs p job depth w r)
    (hs : ∀ t, (p.supply.draw t).1.toList.length = m) :
    r.2.tally.nodes ≤ w.tally.nodes + job.mostEntered m ∧
      r.2.tally.validations ≤ w.tally.validations + job.mostTried m := by
  induction h with
  | blocked he | undrawn he =>
      have hn := nodes_enter_le he
      have hv := validations_enter he
      simp only [Job.mostEntered, Job.mostTried]
      omega
  | leaf he =>
      have hn := nodes_enter_le he
      have hv := validations_enter he
      simp only [nodes_reached, validations_reached, Job.mostEntered, Job.mostTried]
      omega
  | opened he _ _ ih =>
      have hn := nodes_enter_le he
      have hv := validations_enter he
      simp only [Job.mostEntered, Job.mostTried, hs, List.length_cons, branches_succ] at ih ⊢
      omega
  | spent =>
      simp only [Job.mostEntered, Job.mostTried]
      omega
  | broken hq | refused hq _ ih =>
      have hn := nodes_query hq
      have hv := validations_query hq
      simp only [Job.mostEntered, Job.mostTried, List.length_cons, Nat.succ_mul] at *
      omega
  | failed hq _ ih | kept hq _ _ ih | cleared hq _ _ ih =>
      have hn := nodes_query hq
      have hv := validations_query hq
      simp only [Job.mostEntered, Job.mostTried, List.length_cons, Nat.succ_mul,
        Walk.tally_put] at *
      omega
  | undone hq _ _ ih ih' =>
      have hn := nodes_query hq
      have hv := validations_query hq
      simp only [Job.mostEntered, Job.mostTried, List.length_cons, Nat.succ_mul,
        Walk.tally_put] at *
      omega

end

/-! ## Whole searches

The three searches are runs, and a judge that breaks down ends a run early. -/

/-- The search on a walk comes to an end with the given result, and on the way it enters
frames and tries values as a tree with a level for each empty cell and `m` branches at
each place allows it. -/
structure Bounded (p : Plan σ ρ ε) (m : Nat) (w : Walk σ ρ) (r : Step σ ρ ε) : Prop where
  ends : ∀ levels, w.board.emptyCells.length < levels → framesWithin p levels 0 w = some r
  depth : ∀ cells d w₁, ReflTransGen (Leads p) w.start ⟨.frame cells, d, w₁⟩ →
    d ≤ w.board.emptyCells.length
  frames : r.2.tally.nodes ≤ w.tally.nodes +
    (∑ k ∈ Finset.range (w.board.emptyCells.length + 1), m ^ k : Nat)
  queries : r.2.tally.validations ≤ w.tally.validations +
    (m * ∑ k ∈ Finset.range w.board.emptyCells.length, m ^ k : Nat)

theorem run_bounded {p : Plan σ ρ ε} {m : Nat} {rel : Int → Int → Prop}
    (hs : p.supply.Draws m rel) (w : Walk σ ρ) : Bounded p m w (run p w) := by
  obtain ⟨hframes, hqueries⟩ := (runs_explore p w.board.emptyCells 0 w).tally_le hs.length_eq
  rw [Job.mostEntered, branches_add_one] at hframes
  exact ⟨fun _ => run_within p w, fun _ _ _ => depth_le_of_reaches, hframes, hqueries⟩

/-- The three searches end on every board, whatever the judge goes by and even if it
breaks down. -/
theorem searches_bounded (j : Judge σ ε) (c : Conditions) (limit : Limit) (m : Nat) :
    (∀ w : Walk σ Unit, limit.resolve w.board = .ok m → ∃ r,
      Bounded (.filling j c (.ascending m)) m w r ∧
        solve j c limit w = (r.1.map fun a => decide (a = .stop), r.2)) ∧
    (∀ w : Walk σ Twister, limit.resolve w.board = .ok m → ∃ r,
      Bounded (.filling j c (.shuffled m)) m w r ∧
        randomSolve j c limit w = (r.1.map fun a => decide (a = .stop), r.2)) ∧
    (∀ w : Walk σ Unit, limit.resolve w.board = .ok m → ∃ r,
      Bounded (.counting j c m w.tally.solutions) m w r ∧
        countCompletions j c limit w =
          (r.1.map fun _ => .since w.tally.solutions r.2.tally, r.2)) := by
  refine ⟨fun w hm => ?_, fun w hm => ?_, fun w hm => ?_⟩
  · exact ⟨_, run_bounded (draws_ascending m) w, by rw [solve_eq_fill hm, fill_eq_map]⟩
  · exact ⟨_, run_bounded (draws_shuffled m) w, by rw [randomSolve_eq_fill hm, fill_eq_map]⟩
  · exact ⟨_, run_bounded (draws_ascending m) w, countCompletions_eq_map hm⟩

/-- A judge that answers yes to every second query, whatever it is asked. -/
def alternating : Judge Bool Empty where
  ask _ _ _ s := (.ok s, !s)

theorem searches_bounded_alternating :
    let w : Walk Bool Unit := { clashing with memory := false }
    let v (t : Twister) : Walk Bool Twister := { w with supply := t }
    (solve alternating {} (.given 3) w).2.tally.nodes ≤ 1 + 3 ∧
      (countCompletions alternating {} (.given 3) w).2.tally.validations ≤ 3 * 1 ∧
      ∀ t, (randomSolve alternating {} (.given 3) (v t)).2.tally.nodes ≤ 1 + 3 := by
  intro w v
  obtain ⟨hsolve, hrandom, hcount⟩ := searches_bounded alternating {} (.given 3) 3
  refine ⟨?_, ?_, fun t => ?_⟩
  · obtain ⟨_, hbound, hr⟩ := hsolve w rfl
    rw [hr]
    exact hbound.frames
  · obtain ⟨_, hbound, hr⟩ := hcount w rfl
    rw [hr]
    exact hbound.queries
  · obtain ⟨_, hbound, hr⟩ := hrandom (v t) rfl
    rw [hr]
    exact hbound.frames

end GridFill.Search
