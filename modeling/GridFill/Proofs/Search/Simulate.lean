/-
# `GridFill.Proofs.Search.Simulate` — two searches in step

One search simulates another if a relation between their walks is kept by each
thing that a search does: entering a frame, drawing an order, asking the judge,
writing into a cell, and meeting a complete board (`Plan.Simulates`).  What they
answer at each of these is the same, so that they go the same way, and whatever
the relation says of the walks at the start it says of them at the end.

There is one induction for all such relations (`Runs.simulated`), and one for
relations between the walks of a single search (`Runs.along`).
-/
import GridFill.Proofs.Search.Run

namespace GridFill.Search

variable {σ ρ σ' ρ' ε : Type}

namespace Walk

/-- The order that a walk draws next. -/
def order (s : Supply ρ) (w : Walk σ ρ) : List Int := (s.draw w.supply).1.toList

/-- The walk after drawing an order. -/
def drawn (s : Supply ρ) (w : Walk σ ρ) : Walk σ ρ :=
  { w with supply := (s.draw w.supply).2 }

/-- The walk after meeting a complete board. -/
def completed (g : Goal) (w : Walk σ ρ) : Walk σ ρ :=
  { w with tally := (g.reached w.tally).2 }

end Walk

/-- Whatever the first plan does from some walk, the second one does from every
walk related to it, and the walks they come to are related again. -/
structure Plan.Simulates (S : Walk σ ρ → Walk σ' ρ' → Prop) (p : Plan σ ρ ε)
    (p' : Plan σ' ρ' ε) : Prop where
  room : p'.HasRoom ↔ p.HasRoom
  enter : ∀ {depth w w' w₁} {a : Except (SearchFault ε) Unit}, S w w' →
    Search.enter p.conditions depth w = (a, w₁) →
    ∃ w₁', Search.enter p'.conditions depth w' = (a, w₁') ∧ S w₁ w₁'
  draw : ∀ {w w'}, S w w' →
    w'.order p'.supply = w.order p.supply ∧ S (w.drawn p.supply) (w'.drawn p'.supply)
  query : ∀ {i v w w' a w₁}, S w w' → Search.query p.judge i v w = (a, w₁) →
    ∃ w₁', Search.query p'.judge i v w' = (a, w₁') ∧ S w₁ w₁'
  put : ∀ {w w'} i v, S w w' → S (w.put i v) (w'.put i v)
  reached : ∀ {w w'}, S w w' → (p'.goal.reached w'.tally).1 = (p.goal.reached w.tally).1 ∧
    S (w.completed p.goal) (w'.completed p'.goal)
  keeps : p'.goal.keeps = p.goal.keeps

section

variable {S : Walk σ ρ → Walk σ' ρ' → Prop} {p : Plan σ ρ ε} {p' : Plan σ' ρ' ε} {job : Job}
  {depth : Nat} {w : Walk σ ρ} {w' : Walk σ' ρ'} {r : Step σ ρ ε}

/-- Every run of the first plan has one of the second beside it. -/
theorem Runs.simulated (h : Runs p job depth w r) (hp : p.Simulates S p') (hw : S w w') :
    ∃ w₂', Runs p' job depth w' (r.1, w₂') ∧ S r.2 w₂' := by
  induction h generalizing w' with
  | blocked he =>
      obtain ⟨w₁', he', hw₁⟩ := hp.enter hw he
      exact ⟨w₁', .blocked he', hw₁⟩
  | leaf he =>
      obtain ⟨w₁', he', hw₁⟩ := hp.enter hw he
      obtain ⟨hsignal, hw₂⟩ := hp.reached hw₁
      refine ⟨w₁'.completed p'.goal, ?_, hw₂⟩
      dsimp only
      rw [← hsignal]
      exact .leaf he'
  | undrawn he hroom =>
      obtain ⟨w₁', he', hw₁⟩ := hp.enter hw he
      exact ⟨w₁', .undrawn he' (mt hp.room.mp hroom), hw₁⟩
  | opened he hroom _ ih =>
      obtain ⟨w₁', he', hw₁⟩ := hp.enter hw he
      obtain ⟨horder, hdrawn⟩ := hp.draw hw₁
      obtain ⟨w₂', hr', hw₂⟩ := ih hdrawn
      refine ⟨w₂', .opened he' (hp.room.mpr hroom) ?_, hw₂⟩
      rw [Walk.order, Walk.order] at horder
      rw [horder]
      exact hr'
  | spent => exact ⟨w', .spent, hw⟩
  | broken hq =>
      obtain ⟨w₁', hq', hw₁⟩ := hp.query hw hq
      exact ⟨w₁', .broken hq', hw₁⟩
  | refused hq _ ih =>
      obtain ⟨w₁', hq', hw₁⟩ := hp.query hw hq
      obtain ⟨w₂', hr', hw₂⟩ := ih hw₁
      exact ⟨w₂', .refused hq' hr', hw₂⟩
  | failed hq _ ih =>
      obtain ⟨w₁', hq', hw₁⟩ := hp.query hw hq
      obtain ⟨w₂', hr', hw₂⟩ := ih (hp.put _ _ hw₁)
      exact ⟨_, .failed hq' hr', hp.put _ _ hw₂⟩
  | kept hq _ hk ih =>
      obtain ⟨w₁', hq', hw₁⟩ := hp.query hw hq
      obtain ⟨w₂', hr', hw₂⟩ := ih (hp.put _ _ hw₁)
      exact ⟨w₂', .kept hq' hr' (hp.keeps.trans hk), hw₂⟩
  | cleared hq _ hk ih =>
      obtain ⟨w₁', hq', hw₁⟩ := hp.query hw hq
      obtain ⟨w₂', hr', hw₂⟩ := ih (hp.put _ _ hw₁)
      exact ⟨_, .cleared hq' hr' (hp.keeps.trans hk), hp.put _ _ hw₂⟩
  | undone hq _ _ ih ih' =>
      obtain ⟨w₁', hq', hw₁⟩ := hp.query hw hq
      obtain ⟨w₂', hr', hw₂⟩ := ih (hp.put _ _ hw₁)
      obtain ⟨w₃', hrest', hw₃⟩ := ih' (hp.put _ _ hw₂)
      exact ⟨w₃', .undone hq' hr' hrest', hw₃⟩

theorem run_simulated (hp : p.Simulates S p') (hw : S w w')
    (hcells : w'.board.emptyCells = w.board.emptyCells) :
    (run p' w').1 = (run p w).1 ∧ S (run p w).2 (run p' w').2 := by
  obtain ⟨w₂', hr', hw₂⟩ := (runs_explore p w.board.emptyCells 0 w).simulated hp hw
  have hrun : run p' w' = ((run p w).1, w₂') := by
    rw [run, hcells]
    exact hr'.eq_explore.symm
  rw [hrun]
  exact ⟨rfl, hw₂⟩

end

/-! ## One search

A relation between earlier and later walks of one search is one that every step
keeps and that can be iterated. -/

/-- A relation that leads from each walk of a search to every later one. -/
structure Plan.Along (R : Walk σ ρ → Walk σ ρ → Prop) (p : Plan σ ρ ε) : Prop where
  refl : ∀ w, R w w
  trans : ∀ {w₁ w₂ w₃}, R w₁ w₂ → R w₂ w₃ → R w₁ w₃
  enter : ∀ {depth w w₁} {a : Except (SearchFault ε) Unit},
    Search.enter p.conditions depth w = (a, w₁) → R w w₁
  draw : ∀ w, R w (w.drawn p.supply)
  query : ∀ {i v w a w₁}, Search.query p.judge i v w = (a, w₁) → R w w₁
  put : ∀ w i v, R w (w.put i v)
  reached : ∀ w, R w (w.completed p.goal)

theorem Runs.along {R : Walk σ ρ → Walk σ ρ → Prop} {p : Plan σ ρ ε} {job : Job} {depth : Nat}
    {w : Walk σ ρ} {r : Step σ ρ ε} (h : Runs p job depth w r) (hp : p.Along R) : R w r.2 := by
  induction h with
  | blocked he | undrawn he => exact hp.enter he
  | leaf he => exact hp.trans (hp.enter he) (hp.reached _)
  | opened he _ _ ih => exact hp.trans (hp.trans (hp.enter he) (hp.draw _)) ih
  | spent => exact hp.refl _
  | broken hq => exact hp.query hq
  | refused hq _ ih => exact hp.trans (hp.query hq) ih
  | kept hq _ _ ih => exact hp.trans (hp.query hq) (hp.trans (hp.put _ _ _) ih)
  | failed hq _ ih | cleared hq _ _ ih =>
      exact hp.trans (hp.query hq) (hp.trans (hp.put _ _ _) (hp.trans ih (hp.put _ _ _)))
  | undone hq _ _ ih ih' =>
      exact hp.trans (hp.query hq)
        (hp.trans (hp.put _ _ _) (hp.trans ih (hp.trans (hp.put _ _ _) ih')))

end GridFill.Search
