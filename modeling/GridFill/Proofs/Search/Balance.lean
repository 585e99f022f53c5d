/-
# `GridFill.Proofs.Search.Balance` — numbers that accepted values announce

Every frame but the first is entered after an accepted value, and every complete board
of a search that counts them, unless it was complete from the start, has been completed
by one.  So the frames entered and the boards counted can be told from the answers of
the judge.

Both are a balance (`Plan.Balances`): a number to which each frame adds what the value
above it has taken off.  However a search goes, only its first frame is left in such a
number when it comes to a result (`Runs.balanced`).
-/
import GridFill.Proofs.Search.Watch

namespace GridFill.Search

variable {σ ρ ε : Type}

/-! ## Numbers that accepted values announce

An accepted value takes off what the frame below it will add, so that along a run
everything cancels but the frame it began with. -/

/-- A number that a search keeps.  A frame for some cells adds `own` of them to it; an
accepted value has taken as much off before, so that the two cancel. -/
structure Plan.Balances (p : Plan σ ρ ε) (number : Walk σ ρ → Int) (own : List Nat → Int) :
    Prop where
  leaf : ∀ {depth w w₁}, enter (ε := ε) p.conditions depth w = (.ok (), w₁) →
    number (w₁.completed p.goal) = number w + own []
  opened : ∀ {i cells depth w w₁}, enter (ε := ε) p.conditions depth w = (.ok (), w₁) →
    number (w₁.drawn p.supply) = number w + own (i :: cells)
  refused : ∀ {i v w w₁}, query p.judge i v w = (.ok false, w₁) → number w₁ = number w
  accepted : ∀ {i cells v w w₁}, w.board.emptyCells = i :: cells →
    query p.judge i v w = (.ok true, w₁) → number w₁ + own cells = number w
  put : ∀ w i v, number (w.put i v) = number w

/-- What a job adds to a number that no accepted value has taken off. -/
def Job.due (own : List Nat → Int) : Job → Int
  | .frame cells => own cells
  | .values _ _ _ => 0

/-- In a run that comes to a result only the first frame is left in the number. -/
theorem Runs.balanced {p : Plan σ ρ ε} {number : Walk σ ρ → Int} {own : List Nat → Int}
    {job : Job} {depth : Nat} {w : Walk σ ρ} {r : Step σ ρ ε} (h : Runs p job depth w r)
    (hp : p.Balances number own) (hw : w.board.emptyCells = job.cells)
    (hr : ∃ a, r.1 = .ok a) : number r.2 = number w + job.due own := by
  induction h with
  | blocked | undrawn | broken | failed =>
      obtain ⟨_, hr⟩ := hr
      cases hr
  | leaf he => exact hp.leaf he
  | opened he _ _ ih =>
      have hb := enter_board he
      have hrest := ih (by rw [hb]; exact hw) hr
      exact hrest.trans ((Int.add_zero _).trans (hp.opened he))
  | spent => exact (Int.add_zero _).symm
  | refused hq _ ih =>
      have hb := query_board hq
      have hrest := ih (by rw [hb]; exact hw) hr
      rw [hp.refused hq] at hrest
      exact hrest
  | kept hq _ _ ih | cleared hq _ _ ih =>
      have hb := query_board hq
      have hdeep := ih (emptyCells_put_some hw hb) ⟨_, rfl⟩
      have hacc := hp.accepted hw hq
      simp only [hp.put, Job.due] at hdeep ⊢
      omega
  | undone hq hrun _ ih ih' =>
      have hb := query_board hq
      have hback := hrun.board_back hw hq
      have hdeep := ih (emptyCells_put_some hw hb) ⟨_, rfl⟩
      have hrest := ih' (by rw [hback]; exact hw) hr
      have hacc := hp.accepted hw hq
      simp only [hp.put, Job.due] at hdeep hrest ⊢
      omega

/-! ## Frames and complete boards, as the judge sees them

Each sighting of an accepted value announces a frame; it announces a complete board
if the value left no cell empty. -/

namespace Walk

/-- The sightings of one kind. -/
def sightings (q : Sighting → Bool) (w : Walk (σ × List Sighting) ρ) : Int := w.seen.countP q

@[simp] theorem sightings_drawn (q : Sighting → Bool) (w : Walk (σ × List Sighting) ρ)
    (s : Supply ρ) : (w.drawn s).sightings q = w.sightings q := rfl

@[simp] theorem sightings_completed (q : Sighting → Bool) (w : Walk (σ × List Sighting) ρ)
    (g : Goal) : (w.completed g).sightings q = w.sightings q := rfl

end Walk

section

variable {p : Plan (σ × List Sighting) ρ ε} {j : Judge σ ε} {c : Conditions} {depth i : Nat}
  {v : Int} {cells : List Nat} {w w₁ : Walk (σ × List Sighting) ρ} (q : Sighting → Bool)

theorem sightings_enter {a : Except (SearchFault ε) Unit} (he : enter c depth w = (a, w₁)) :
    w₁.sightings q = w.sightings q := by
  rw [Walk.sightings, seen_enter he, Walk.sightings]

theorem sightings_query {a : Except (SearchFault ε) Bool} (hq : query j.watched i v w = (a, w₁)) :
    w₁.sightings q =
      w.sightings q + if q ⟨w.board, i, v, a.toOption⟩ then 1 else 0 := by
  rw [Walk.sightings, seen_query hq, List.countP_append, List.countP_singleton, Walk.sightings]
  split <;> simp

theorem accepted_sighting (b : Board) (i : Nat) (v : Int) (a : Bool) :
    (Sighting.mk b i v (some a)).accepted = a := by
  cases a <;> rfl

theorem completes_sighting {b : Board} (hb : b.emptyCells = i :: cells) (v : Int) :
    (Sighting.mk b i v (some true)).completes = cells.isEmpty := by
  have hcells := Board.emptyCells_put hb v
  show (b.put i (some v)).isComplete = cells.isEmpty
  rw [Bool.eq_iff_iff, Board.isComplete_iff_emptyCells, hcells, List.isEmpty_iff]

@[simp] theorem tally_drawn (s : Supply ρ) (w : Walk σ ρ) : (w.drawn s).tally = w.tally := rfl

theorem nodes_completed (g : Goal) (w : Walk σ ρ) :
    (w.completed g).tally.nodes = w.tally.nodes :=
  nodes_reached g w.tally

theorem balances_nodes (hp : p.judge = j.watched) :
    p.Balances (fun w => w.tally.nodes - w.sightings Sighting.accepted) fun _ => 1 where
  leaf he := by
    simp only [nodes_completed, Walk.sightings_completed, sightings_enter _ he, tally_enter he,
      Tally.enter]
    omega
  opened he := by
    simp only [tally_drawn, Walk.sightings_drawn, sightings_enter _ he, tally_enter he,
      Tally.enter]
    omega
  refused hq := by
    rw [hp] at hq
    simp [sightings_query _ hq, tally_query hq, Tally.tryValue, Except.toOption, accepted_sighting]
  accepted _ hq := by
    rw [hp] at hq
    simp only [sightings_query _ hq, tally_query hq, Tally.tryValue, Except.toOption,
      accepted_sighting, if_true]
    omega
  put _ _ _ := rfl

theorem balances_solutions (hp : p.judge = j.watched) (hk : p.goal.keeps = false) :
    p.Balances (fun w => w.tally.solutions - w.sightings Sighting.completes)
      fun cells => if cells.isEmpty then 1 else 0 where
  leaf {_ w w₁} he := by
    have hsol := solutions_enter he
    have hone : (w₁.completed p.goal).tally.solutions = w.tally.solutions + 1 := by
      cases hg : p.goal with
      | fill =>
          rw [hg] at hk
          cases hk
      | count stopAt =>
          show w₁.tally.solutions + 1 = _
          rw [hsol]
    simp only [hone, Walk.sightings_completed, sightings_enter _ he, List.isEmpty_nil, if_true]
    omega
  opened he := by
    simp only [tally_drawn, Walk.sightings_drawn, sightings_enter _ he, solutions_enter he,
      List.isEmpty_cons, Bool.false_eq_true, if_false]
    omega
  refused hq := by
    rw [hp] at hq
    simp [sightings_query _ hq, tally_query hq, Tally.tryValue, Except.toOption,
      Sighting.completes, accepted_sighting]
  accepted hw hq := by
    rw [hp] at hq
    simp only [sightings_query _ hq, solutions_query hq, Except.toOption, completes_sighting hw]
    omega
  put _ _ _ := rfl

end

end GridFill.Search
