/-
# `GridFill.Proofs.Search.Count` — counting completions up to two

The counting search keeps its count in the tally, which may start anywhere, and
stops when the tally shows a threshold.  Seen from a job with the threshold not
yet reached, there are two cases (`Runs.counts`): the completions the job has
before it are too few to reach it, and then all of them are counted and the
search comes back; or they are enough, and then the tally ends exactly at the
threshold.  Since the completions are listed without repetition, counting two
leaves is meeting two completions.
-/
import Mathlib.Data.Int.Order.Basic
import Mathlib.Data.Set.Card
import GridFill.Proofs.Search.Pure
import GridFill.Search.Basic

namespace GridFill.Search

variable {σ ρ ε : Type}

/-! ## The completions a job has before it

A value that is refused begins none of them, and one that is accepted begins those
of the frame below it. -/

/-- The values that a job can still place, in the order of meeting them. -/
def Job.completions (test : Test) (m : Nat) (b : Board) : Job → List (List Int)
  | .frame cells => Search.completions test m cells b
  | .values i cells us => us.flatMap (branch test b i (Search.completions test m cells))

section

variable {test : Test} {m : Nat} {b : Board} {i : Nat} {v : Int} {cells : List Nat}
  {us : List Int}

theorem length_completions_refused (ht : test b i v = false) :
    ((Job.values i cells (v :: us)).completions test m b).length =
      ((Job.values i cells us).completions test m b).length := by
  simp [Job.completions, branch, ht]

theorem length_completions_accepted (ht : test b i v = true) :
    ((Job.values i cells (v :: us)).completions test m b).length =
      ((Job.frame cells).completions test m (b.put i (some v))).length +
        ((Job.values i cells us).completions test m b).length := by
  simp [Job.completions, branch, ht]

end

/-! ## What a run counts

Either the threshold is not reached, and then everything was counted, or the run
stops when it is. -/

section

variable {p : Plan σ ρ ε} {job : Job} {depth : Nat} {w : Walk σ ρ} {r : Step σ ρ ε}
  {test : Test} {m : Nat} {stopAt : Int}

/-- A counting search that comes back has counted everything before it, and one
that stops has counted up to the threshold. -/
theorem Runs.counts (h : Runs p job depth w r) (hg : p.goal = .count stopAt)
    (hj : p.judge.Answers test) (hs : ∀ t, (p.supply.draw t).1.toList = valuesTo m)
    (hw : w.board.emptyCells = job.cells) (hlt : w.tally.solutions < stopAt) :
    let n := (job.completions test m w.board).length
    (r.1 = .ok .proceed →
        r.2.tally.solutions = w.tally.solutions + n ∧ r.2.tally.solutions < stopAt) ∧
      (r.1 = .ok .stop → r.2.tally.solutions = stopAt ∧ stopAt ≤ w.tally.solutions + n) := by
  induction h with
  | blocked | undrawn | broken | failed => exact ⟨by rintro ⟨⟩, by rintro ⟨⟩⟩
  | kept _ _ hk =>
      rw [hg] at hk
      cases hk
  | leaf he =>
      have ht := solutions_enter he
      simp only [hg, Goal.reached, Tally.complete, Job.completions, completions,
        List.length_singleton, ht]
      split
      next hle => exact ⟨by rintro ⟨⟩, fun _ => ⟨by omega, by omega⟩⟩
      next hle => exact ⟨fun _ => ⟨by omega, by omega⟩, by rintro ⟨⟩⟩
  | opened he _ _ ih =>
      have hb := enter_board he
      have ht := solutions_enter he
      rw [hs] at ih
      have hcount := ih (by rw [hb]; exact hw) (by rw [ht]; exact hlt)
      rw [hb, ht] at hcount
      exact hcount
  | spent => exact ⟨fun _ => ⟨by simp [Job.completions], hlt⟩, by rintro ⟨⟩⟩
  | refused hq _ ih =>
      have hb := query_board hq
      have ht := solutions_query hq
      have hcount := ih (by rw [hb]; exact hw) (by rw [ht]; exact hlt)
      rw [hb, ht] at hcount
      rw [length_completions_refused (hj.test_eq hq)]
      exact hcount
  | cleared hq _ _ ih =>
      have hb := query_board hq
      have ht := solutions_query hq
      have hcount := ih (emptyCells_put_some hw hb) (by rw [Walk.tally_put, ht]; exact hlt)
      rw [Walk.board_put, Walk.tally_put, hb, ht] at hcount
      obtain ⟨hsol, hle⟩ := hcount.2 rfl
      rw [length_completions_accepted (hj.test_eq hq)]
      exact ⟨by rintro ⟨⟩, fun _ => ⟨hsol, by omega⟩⟩
  | undone hq hrun _ ih ih' =>
      have hb := query_board hq
      have ht := solutions_query hq
      have hback := hrun.board_back hw hq
      have hcount := ih (emptyCells_put_some hw hb) (by rw [Walk.tally_put, ht]; exact hlt)
      rw [Walk.board_put, Walk.tally_put, hb, ht] at hcount
      obtain ⟨hsol, hsub⟩ := hcount.1 rfl
      have hcount' := ih' (by rw [hback]; exact hw) hsub
      rw [hback, Walk.tally_put, hsol] at hcount'
      rw [length_completions_accepted (hj.test_eq hq)]
      refine ⟨fun hr => ?_, fun hr => ?_⟩
      · obtain ⟨h1, h2⟩ := hcount'.1 hr
        exact ⟨by omega, h2⟩
      · obtain ⟨h1, h2⟩ := hcount'.2 hr
        exact ⟨h1, by omega⟩

theorem Runs.threshold (h : Runs p job depth w r) (hg : p.goal = .count stopAt)
    (hlt : w.tally.solutions < stopAt) :
    (r.1 = .ok .proceed → r.2.tally.solutions < stopAt) ∧
      (r.1 = .ok .stop → r.2.tally.solutions = stopAt) := by
  induction h with
  | blocked | undrawn | broken | failed => exact ⟨by rintro ⟨⟩, by rintro ⟨⟩⟩
  | kept _ _ hk =>
      rw [hg] at hk
      cases hk
  | leaf he =>
      have ht := solutions_enter he
      simp only [hg, Goal.reached, Tally.complete, ht]
      split
      next hle => exact ⟨by rintro ⟨⟩, fun _ => by omega⟩
      next hle => exact ⟨fun _ => by omega, by rintro ⟨⟩⟩
  | opened he _ _ ih =>
      have ht := solutions_enter he
      exact ih (by rw [ht]; exact hlt)
  | spent => exact ⟨fun _ => hlt, by rintro ⟨⟩⟩
  | refused hq _ ih =>
      have ht := solutions_query hq
      exact ih (by rw [ht]; exact hlt)
  | cleared hq _ _ ih =>
      have ht := solutions_query hq
      exact ih (by rw [Walk.tally_put, ht]; exact hlt)
  | undone hq _ _ ih ih' =>
      have ht := solutions_query hq
      exact ih' ((ih (by rw [Walk.tally_put, ht]; exact hlt)).1 rfl)

theorem Runs.depth_le_of_counted (h : Runs p job depth w r)
    (hlt : w.tally.solutions < r.2.tally.solutions) :
    depth + job.cells.length ≤ p.conditions.depthLimit := by
  induction h with
  | blocked he | undrawn he => exact absurd hlt (Int.not_lt.mpr (Int.le_of_eq (solutions_enter he)))
  | leaf he => exact enter_depth_le he
  | opened he _ _ ih =>
      have ht := solutions_enter he
      exact ih (by rw [ht]; exact hlt)
  | spent => exact absurd hlt (Int.lt_irrefl _)
  | broken hq => exact absurd hlt (Int.not_lt.mpr (Int.le_of_eq (solutions_query hq)))
  | refused hq _ ih =>
      have ht := solutions_query hq
      exact ih (by rw [ht]; exact hlt)
  | failed hq _ ih | kept hq _ _ ih | cleared hq _ _ ih =>
      have ht := solutions_query hq
      have hdeep := ih (by rw [Walk.tally_put, ht]; exact hlt)
      simp only [Job.cells, List.length_cons] at hdeep ⊢
      omega
  | @undone i cells v us depth w w₁ w₂ r hq _ _ ih ih' =>
      have ht := solutions_query hq
      -- the complete board was counted below this value, or after it
      by_cases hbelow : w₁.tally.solutions < w₂.tally.solutions
      · have hdeep := ih hbelow
        simp only [Job.cells, List.length_cons] at hdeep ⊢
        omega
      · exact ih' (by rw [Walk.tally_put]; omega)

end

/-! ## The set of completions

The list has no repetitions, so its length is the number of completions. -/

section

variable (test : Test) (m : Nat) (b : Board)

theorem setOf_isCompletion :
    {vs | IsCompletion test m b vs} = ↑(completions test m b.emptyCells b).toFinset := by
  ext vs
  simp [IsCompletion, mem_completions]

theorem finite_setOf_isCompletion : {vs | IsCompletion test m b vs}.Finite := by
  rw [setOf_isCompletion]
  exact Finset.finite_toSet _

theorem ncard_setOf_isCompletion :
    {vs | IsCompletion test m b vs}.ncard = (completions test m b.emptyCells b).length := by
  rw [setOf_isCompletion, Set.ncard_coe_finset]
  exact List.toFinset_card_of_nodup (nodup_completions test m _ b)

end

/-! ## Whole searches

The threshold lies two above the tally at the start, and the verdict is the
difference. -/

section

variable {test : Test} {m : Nat} {j : Judge σ ε} {c : Conditions} {limit : Limit}
  {w : Walk σ Unit}

theorem completions_since {first : Int} {t : Tally} {n : Nat}
    (h : t.solutions = first + min 2 n) :
    Completions.since first t = { found := 0 < n, multiple := 1 < n } := by
  have hfound : 0 < t.solutions - first ↔ 0 < n := by omega
  have hmultiple : 1 < t.solutions - first ↔ 1 < n := by omega
  simp only [Completions.since, hfound, hmultiple]

theorem countCompletions_eq_map (hm : limit.resolve w.board = .ok m) :
    countCompletions j c limit w =
      ((run (.counting j c m w.tally.solutions) w).1.map fun _ =>
          .since w.tally.solutions (run (.counting j c m w.tally.solutions) w).2.tally,
        (run (.counting j c m w.tally.solutions) w).2) := by
  unfold countCompletions
  rw [hm]
  dsimp only
  rcases run (.counting j c m w.tally.solutions) w with ⟨_ | _, _⟩ <;> rfl

theorem countCompletions_refused {f : Fault} (hf : limit.resolve w.board = .error f) :
    countCompletions j c limit w = (.error (.fault f), w) := by
  rw [countCompletions, hf]

theorem signal_of_count {n : Completions} (hm : limit.resolve w.board = .ok m)
    (hr : (countCompletions j c limit w).1 = .ok n) :
    let r := run (.counting j c m w.tally.solutions) w
    r.1 = .ok (if n.multiple then .stop else .proceed) ∧
      (n.multiple = true → r.2.tally.solutions - w.tally.solutions = 2) := by
  intro r
  have hrun : Runs _ (.frame w.board.emptyCells) 0 w r := runs_explore _ _ 0 w
  have hlt : w.tally.solutions < w.tally.solutions + ambiguity :=
    Int.lt_add_of_pos_right _ (by decide)
  obtain ⟨hbelow, hreached⟩ := hrun.threshold rfl hlt
  have hr : (r.1.map fun _ => Completions.since w.tally.solutions r.2.tally) = .ok n := by
    rw [countCompletions_eq_map hm] at hr
    exact hr
  have hn : ∀ a, r.1 = .ok a → n.multiple = decide (1 < r.2.tally.solutions - w.tally.solutions) :=
    fun a ha => by
      rw [ha] at hr
      cases hr
      rfl
  simp only [ambiguity] at hbelow hreached
  rcases hsig : r.1 with e | _ | _
  · rw [hsig] at hr
    cases hr
  · have hsol := hbelow hsig
    have hone : n.multiple = false := by
      rw [hn _ hsig, decide_eq_false_iff_not]
      omega
    simp [hone]
  · have hsol := hreached hsig
    have htwo : n.multiple = true := by
      rw [hn _ hsig, decide_eq_true_iff]
      omega
    refine ⟨by simp [htwo], fun _ => ?_⟩
    omega

theorem countCompletions_board (hm : limit.resolve w.board = .ok m) :
    (countCompletions j c limit w).2.board = w.board := by
  rw [countCompletions_eq_map hm]
  exact run_restores _ w fun _ => rfl

theorem countCompletions_depth_le (hm : limit.resolve w.board = .ok m) {n : Completions}
    (hr : (countCompletions j c limit w).1 = .ok n) (hn : n.found = true) :
    w.board.emptyCells.length ≤ c.depthLimit := by
  have hrun := runs_explore (.counting j c m w.tally.solutions) w.board.emptyCells 0 w
  rw [countCompletions_eq_map hm] at hr
  rw [← run] at hrun
  rcases hk : run (.counting j c m w.tally.solutions) w with ⟨e | a, w₁⟩
  · rw [hk] at hr
    cases hr
  · rw [hk] at hr hrun
    cases hr
    have hdeep := hrun.depth_le_of_counted (Int.sub_pos.mp (of_decide_eq_true hn))
    rwa [Nat.zero_add] at hdeep

theorem countCompletions_not_outOfStack (hj : j.Answers test)
    (hm : limit.resolve w.board = .ok m) (hd : w.board.emptyCells.length ≤ c.depthLimit) :
    ¬ OutOfStack (countCompletions j c limit w) := by
  rw [countCompletions_eq_map hm, outOfStack_map]
  exact run_not_outOfStack hj hd

/-- A counting search that is not cut short adds the number of completions to the
tally, but no more than two, and restores the board. -/
theorem countCompletions_outcome (hj : j.Answers test) (hm : limit.resolve w.board = .ok m)
    (hstack : ¬ OutOfStack (countCompletions j c limit w))
    (hreport : ¬ c.ReportFailed (countCompletions j c limit w)) :
    let n := {vs | IsCompletion test m w.board vs}.ncard
    let r := countCompletions j c limit w
    r.1 = .ok { found := 0 < n, multiple := 1 < n } ∧
      r.2.tally.solutions = w.tally.solutions + min 2 n ∧ r.2.board = w.board := by
  have hrun := runs_explore (.counting j c m w.tally.solutions) w.board.emptyCells 0 w
  have hback := hrun.restores rfl fun _ => rfl
  have hcount := hrun.counts rfl hj (fun _ => rfl) rfl
    (show w.tally.solutions < w.tally.solutions + 2 by omega)
  rw [← run] at hback hcount
  simp only [Job.completions] at hcount
  rw [ncard_setOf_isCompletion]
  generalize (completions test m w.board.emptyCells w.board).length = n at hcount ⊢
  rw [countCompletions_eq_map hm] at hstack hreport ⊢
  rw [outOfStack_map] at hstack
  rw [reportFailed_map] at hreport
  obtain ⟨a, hr⟩ := exists_signal hj (.inr (Nat.zero_le _)) hstack hreport
  have hsol : (run (.counting j c m w.tally.solutions) w).2.tally.solutions =
      w.tally.solutions + min 2 n := by
    have htwo : ambiguity = 2 := rfl
    cases a with
    | proceed =>
        obtain ⟨hall, hlt⟩ := hcount.1 hr
        omega
    | stop =>
        obtain ⟨hall, hle⟩ := hcount.2 hr
        omega
  dsimp only
  rw [hr]
  exact ⟨congrArg Except.ok (completions_since hsol), hsol, hback⟩

end

end GridFill.Search
