/-
# `GridFill.Proofs.Search.Effort` — what it takes to search in vain

A search that comes back has looked at every accepted value of every cell.  What
that took, the frames entered, the values tried and the depth reached, is a sum
over a tree that depends on the board and the test only (`effort`): each cell is
tried with the same values in whatever order, and sums and maxima do not depend
on the order of their terms (`valuesEffort_perm`).

So every search that comes back adds the same to its tally, whichever orders it
draws and whatever its goal is (`Runs.spends`).
-/
import Mathlib.Data.List.Perm.Basic
import GridFill.Proofs.Search.Pure

namespace GridFill.Search

/-- Frames entered, values tried, and how many levels below the first frame the
deepest one lies. -/
structure Effort where
  frames : Nat
  queries : Nat
  height : Nat

namespace Effort

/-- Nothing is done. -/
def zero : Effort := ⟨0, 0, 0⟩

/-- A value is tried and refused. -/
def refusal : Effort := ⟨0, 1, 0⟩

/-- A value is tried and accepted, with the effort of the frame below. -/
def below (e : Effort) : Effort := ⟨e.frames, e.queries + 1, e.height + 1⟩

/-- A frame is entered, with the effort of its values. -/
def entered (e : Effort) : Effort := ⟨e.frames + 1, e.queries, e.height⟩

/-- The efforts of two values of the same cell. -/
def beside (e f : Effort) : Effort :=
  ⟨e.frames + f.frames, e.queries + f.queries, max e.height f.height⟩

theorem beside_left_comm (e f g : Effort) : e.beside (f.beside g) = f.beside (e.beside g) := by
  simp only [beside, mk.injEq]
  omega

end Effort

section

variable (test : Test) (m : Nat)

/-- The effort of one value in cell `i`, given that of the frames that can follow. -/
def branchEffort (b : Board) (i : Nat) (deeper : Board → Effort) (v : Int) : Effort :=
  if test b i v then (deeper (b.put i (some v))).below else .refusal

/-- The efforts of several values together. -/
def valuesEffort (f : Int → Effort) (us : List Int) : Effort :=
  us.foldr (fun v e => (f v).beside e) .zero

/-- The effort of a frame for the given empty cells that comes back. -/
def effort : List Nat → Board → Effort
  | [], _ => Effort.zero.entered
  | i :: cells, b => (valuesEffort (branchEffort test b i (effort cells)) (valuesTo m)).entered

/-- The effort of a job that comes back. -/
def Job.effort (b : Board) : Job → Effort
  | .frame cells => Search.effort test m cells b
  | .values i cells us => valuesEffort (branchEffort test b i (Search.effort test m cells)) us

end

theorem valuesEffort_perm (f : Int → Effort) {us vs : List Int} (h : us.Perm vs) :
    valuesEffort f us = valuesEffort f vs := by
  have hcomm : LeftCommutative fun (v : Int) (e : Effort) => (f v).beside e :=
    ⟨fun u v e => Effort.beside_left_comm (f u) (f v) e⟩
  exact h.foldr_eq Effort.zero

section

variable {test : Test} {m : Nat} {b : Board} {i : Nat} {v : Int} {cells : List Nat}
  {us : List Int}

theorem effort_opened (h : us.Perm (valuesTo m)) :
    (Job.frame (i :: cells)).effort test m b =
      ((Job.values i cells us).effort test m b).entered := by
  rw [Job.effort, Job.effort, effort, valuesEffort_perm _ h]

theorem effort_refused (ht : test b i v = false) :
    (Job.values i cells (v :: us)).effort test m b =
      Effort.refusal.beside ((Job.values i cells us).effort test m b) := by
  simp [Job.effort, valuesEffort, branchEffort, ht]

theorem effort_accepted (ht : test b i v = true) :
    (Job.values i cells (v :: us)).effort test m b =
      ((Job.frame cells).effort test m (b.put i (some v))).below.beside
        ((Job.values i cells us).effort test m b) := by
  simp [Job.effort, valuesEffort, branchEffort, ht]

end

/-! ## What a run adds to the tally

Frames and values are added up; of depths the greatest counts. -/

/-- The second tally is the first one with an effort begun at some depth added. -/
structure Tally.Spent (depth : Nat) (e : Effort) (t t' : Tally) : Prop where
  nodes : t'.nodes = t.nodes + e.frames
  validations : t'.validations = t.validations + e.queries
  maxDepth : t'.maxDepth = max t.maxDepth (depth + e.height)

/-- While the values of a cell are tried, its frame has been counted. -/
def Job.Counted (depth : Nat) (t : Tally) : Job → Prop
  | .frame _ => True
  | .values _ _ _ => depth ≤ t.maxDepth

section

variable {σ ρ ε : Type} {p : Plan σ ρ ε} {job : Job} {depth : Nat} {w w₁ : Walk σ ρ}
  {r : Step σ ρ ε} {test : Test} {m : Nat}

theorem spent_reached (g : Goal) (t : Tally) (depth : Nat) :
    Tally.Spent depth Effort.zero.entered t (g.reached (t.enter depth)).2 := by
  cases g <;> exact ⟨rfl, (Int.add_zero _).symm, rfl⟩

/-- A run that comes back has spent the effort of its job. -/
theorem Runs.spends (h : Runs p job depth w r) (hj : p.judge.Answers test)
    (hs : ∀ t, (p.supply.draw t).1.toList.Perm (valuesTo m))
    (hw : w.board.emptyCells = job.cells) (hd : job.Counted depth w.tally)
    (hr : r.1 = .ok .proceed) :
    Tally.Spent depth (job.effort test m w.board) w.tally r.2.tally := by
  induction h with
  | blocked | undrawn | broken | failed | kept | cleared => cases hr
  | @leaf depth w w₁ he =>
      rw [tally_enter he]
      exact spent_reached p.goal w.tally depth
  | @opened i cells depth w w₁ r he _ _ ih =>
      have hb := enter_board he
      have ht := tally_enter he
      have hcounted : (depth : Int) ≤ (w.tally.enter depth).maxDepth := Int.le_max_right _ _
      obtain ⟨hnodes, hval, hmax⟩ := ih (by rw [hb]; exact hw)
        (by rw [Job.Counted, ht]; exact hcounted) hr
      rw [effort_opened (hs _), ← hb]
      simp only [ht, Tally.enter] at hnodes hval hmax
      refine ⟨?_, hval, ?_⟩
      · rw [hnodes]
        simp only [Effort.entered]
        omega
      · rw [hmax]
        simp only [Effort.entered]
        omega
  | @spent _ _ depth w =>
      have hd : (depth : Int) ≤ w.tally.maxDepth := hd
      refine ⟨(Int.add_zero _).symm, (Int.add_zero _).symm, ?_⟩
      simp only [Job.effort, valuesEffort, List.foldr_nil, Effort.zero]
      omega
  | refused hq _ ih =>
      have hb := query_board hq
      have ht := tally_query hq
      obtain ⟨hnodes, hval, hmax⟩ := ih (by rw [hb]; exact hw)
        (by rw [Job.Counted, ht]; exact hd) hr
      rw [effort_refused (hj.test_eq hq), ← hb]
      simp only [ht, Tally.tryValue] at hnodes hval hmax
      refine ⟨?_, ?_, ?_⟩
      all_goals
        simp only [Effort.beside, Effort.refusal]
        omega
  | @undone _ _ _ _ depth w _ _ _ hq hrun _ ih ih' =>
      have hd : (depth : Int) ≤ w.tally.maxDepth := hd
      have hb := query_board hq
      have ht := tally_query hq
      have hback := hrun.board_back hw hq
      obtain ⟨hnodes, hval, hmax⟩ := ih (emptyCells_put_some hw hb) trivial rfl
      simp only [Walk.tally_put, Walk.board_put, ht, hb, Tally.tryValue] at hnodes hval hmax
      obtain ⟨hnodes', hval', hmax'⟩ := ih' (by rw [hback]; exact hw)
        (by rw [Job.Counted, Walk.tally_put]; omega) hr
      rw [effort_accepted (hj.test_eq hq)]
      rw [hback] at hnodes' hval' hmax'
      simp only [Walk.tally_put] at hnodes' hval' hmax'
      refine ⟨?_, ?_, ?_⟩
      all_goals
        simp only [Effort.beside, Effort.below]
        push_cast
        omega

end

end GridFill.Search
