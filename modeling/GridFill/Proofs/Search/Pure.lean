/-
# `GridFill.Proofs.Search.Pure` — judges that only apply a test

A judge answers by a test if, whatever it remembers, it answers every query,
and as the test says (`Judge.Answers`).  The judges of the rule sets are of this
kind, and so is one of them that keeps a list of its queries.

With such a judge a search fails for three reasons only: it runs out of stack,
which takes more empty cells than the stack has frames, or a report fails, or the
machine has no room for an order (`Runs.error_of_answers`).
-/
import GridFill.Proofs.Search.Completion
import GridFill.Proofs.Search.Restore

namespace GridFill.Search

variable {σ ρ ε α : Type}

/-- A judge that answers every query by a test. -/
def Judge.Answers (j : Judge σ ε) (test : Test) : Prop :=
  ∀ b i v s, (j.ask b i v s).1 = .ok (test b i v)

theorem answers_ofTest (test : Test) : (Judge.ofTest test : Judge σ ε).Answers test :=
  fun _ _ _ _ => rfl

theorem answers_ofRules (r : Rules) : (Judge.ofRules r : Judge σ ε).Answers r.allows :=
  answers_ofTest r.allows

section

variable {j : Judge σ ε} {test : Test} {i : Nat} {v : Int} {w w₁ : Walk σ ρ}

theorem Judge.Answers.query_fst (hj : j.Answers test) (i : Nat) (v : Int) (w : Walk σ ρ) :
    (query j i v w).1 = .ok (test w.board i v) := by
  rw [query_eq, hj w.board i v w.memory]
  rfl

theorem Judge.Answers.test_eq {a : Bool} (hj : j.Answers test)
    (h : query j i v w = (.ok a, w₁)) : test w.board i v = a := by
  have hq := hj.query_fst i v w
  rw [h] at hq
  exact (Except.ok.inj hq).symm

theorem Judge.Answers.not_error {e : SearchFault ε} (hj : j.Answers test) :
    query j i v w ≠ (.error e, w₁) := by
  intro h
  have hq := hj.query_fst i v w
  rw [h] at hq
  cases hq

end

/-! ## How a search can fail

If the judge always answers there are three ways: the stack, a report, and the room
for an order.  Each of them is ruled out by a condition of its own. -/

/-- The search ran out of stack. -/
def OutOfStack (r : Except (SearchFault ε) α × Walk σ ρ) : Prop :=
  ∃ cells, r.1 = .error (.fault (.depthExceeded cells))

theorem outOfStack_map {β : Type} {r : Except (SearchFault ε) α × Walk σ ρ} {f : α → β} :
    OutOfStack (r.1.map f, r.2) ↔ OutOfStack r := by
  rcases r with ⟨_ | _, _⟩ <;> simp [OutOfStack, Except.map]

theorem not_outOfStack_of_ok {r : Except (SearchFault ε) α × Walk σ ρ} {a : α}
    (h : r.1 = .ok a) : ¬ OutOfStack r := by
  rintro ⟨cells, hcells⟩
  rw [h] at hcells
  cases hcells

/-- The search ended with a report that failed. -/
def Conditions.ReportFailed (c : Conditions) (r : Except (SearchFault ε) α × Walk σ ρ) : Prop :=
  ∃ f, c.ReportFault f ∧ r.1 = .error (.fault f)

theorem reportFailed_map {β : Type} {c : Conditions} {r : Except (SearchFault ε) α × Walk σ ρ}
    {f : α → β} : c.ReportFailed (r.1.map f, r.2) ↔ c.ReportFailed r := by
  rcases r with ⟨_ | _, _⟩ <;> simp [Conditions.ReportFailed, Except.map]

theorem not_reportFailed_of_ok {c : Conditions} {r : Except (SearchFault ε) α × Walk σ ρ} {a : α}
    (h : r.1 = .ok a) : ¬ c.ReportFailed r := by
  rintro ⟨f, -, hf⟩
  rw [h] at hf
  cases hf

theorem not_reportFailed_of_none {c : Conditions} (hc : c.interval = none)
    (r : Except (SearchFault ε) α × Walk σ ρ) : ¬ c.ReportFailed r :=
  fun ⟨f, hf, _⟩ => c.not_reportFault_of_none hc f hf

section

variable {p : Plan σ ρ ε} {job : Job} {depth : Nat} {w : Walk σ ρ} {r : Step σ ρ ε} {test : Test}

theorem Runs.error_of_answers (h : Runs p job depth w r) (hj : p.judge.Answers test)
    (hw : w.board.emptyCells = job.cells) {e : SearchFault ε} (hr : r.1 = .error e) :
    p.conditions.depthLimit < depth + job.cells.length ∧
        e = .fault (.depthExceeded w.board.listed) ∨
      (∃ f, p.conditions.ReportFault f ∧ e = .fault f) ∨
      (job.cells ≠ [] ∧ ¬ p.HasRoom) ∧ e = .fault .lengthWidth := by
  induction h with
  | blocked he =>
      cases hr
      rcases enter_cases he with ⟨hd, he, -⟩ | ⟨-, he | ⟨f, hf, he⟩⟩
      · exact .inl ⟨by omega, Except.error.inj he⟩
      · cases he
      · exact .inr (.inl ⟨f, hf, Except.error.inj he⟩)
  | undrawn _ hroom =>
      exact .inr (.inr ⟨⟨List.cons_ne_nil _ _, hroom⟩, (Except.error.inj hr).symm⟩)
  | leaf | spent | kept | cleared => cases hr
  | opened he _ _ ih =>
      have hb := enter_board he
      have hcase := ih (by rw [hb]; exact hw) hr
      rw [hb] at hcase
      exact hcase
  | broken hq => exact absurd hq hj.not_error
  | refused hq _ ih =>
      have hb := query_board hq
      have hcase := ih (by rw [hb]; exact hw) hr
      rw [hb] at hcase
      exact hcase
  | failed hq _ ih =>
      have hb := query_board hq
      have hcase := ih (emptyCells_put_some hw hb) hr
      rw [Walk.board_put, Board.put_listed, hb] at hcase
      rcases hcase with ⟨hd, he⟩ | hreport | ⟨⟨-, hroom⟩, he⟩
      · refine .inl ⟨?_, he⟩
        simp only [Job.cells, List.length_cons] at hd ⊢
        omega
      · exact .inr (.inl hreport)
      · exact .inr (.inr ⟨⟨List.cons_ne_nil _ _, hroom⟩, he⟩)
  | undone hq hrun _ _ ih =>
      have hb := query_board hq
      have hback := hrun.board_back hw hq
      have hcase := ih (by rw [hback]; exact hw) hr
      rw [hback] at hcase
      exact hcase

theorem run_error_of_answers (hj : p.judge.Answers test) {e : SearchFault ε}
    (hr : (run p w).1 = .error e) :
    p.conditions.depthLimit < w.board.emptyCells.length ∧
        e = .fault (.depthExceeded w.board.listed) ∨
      (∃ f, p.conditions.ReportFault f ∧ e = .fault f) ∨
      (w.board.emptyCells ≠ [] ∧ ¬ p.HasRoom) ∧ e = .fault .lengthWidth := by
  have hcase := (runs_explore p w.board.emptyCells 0 w).error_of_answers hj rfl hr
  rw [Nat.zero_add] at hcase
  exact hcase

theorem exists_signal (hj : p.judge.Answers test)
    (hroom : w.board.emptyCells = [] ∨ p.HasRoom) (hstack : ¬ OutOfStack (run p w))
    (hreport : ¬ p.conditions.ReportFailed (run p w)) : ∃ a, (run p w).1 = .ok a := by
  cases hr : (run p w).1 with
  | ok a => exact ⟨a, rfl⟩
  | error e =>
      rcases run_error_of_answers hj hr with ⟨_, rfl⟩ | ⟨f, hf, rfl⟩ | ⟨⟨hcells, hfull⟩, _⟩
      · exact absurd ⟨_, hr⟩ hstack
      · exact absurd ⟨f, hf, hr⟩ hreport
      · exact absurd (hroom.resolve_left hcells) hfull

theorem run_of_not_room (hroom : ¬ p.HasRoom) (hc : ∀ f, ¬ p.conditions.ReportFault f)
    (hw : w.board.emptyCells ≠ []) : (run p w).1 = .error (.fault .lengthWidth) := by
  obtain ⟨i, cells, hcells⟩ := List.exists_cons_of_ne_nil hw
  obtain ⟨reports, he⟩ := enter_of_le (ε := ε) (w := w) hc (Nat.zero_le _)
  rw [run, hcells, explore, he]
  dsimp only
  rw [if_pos (Nat.lt_of_not_le hroom)]

theorem enter_depth_le {c : Conditions} {w₁ : Walk σ ρ}
    (h : enter (ε := ε) c depth w = (.ok (), w₁)) : depth ≤ c.depthLimit := by
  cases Entering.of_enter h with
  | quiet hd | written hd => exact hd

theorem Runs.depth_le (h : Runs p job depth w r) (hr : r.1 = .ok .stop) :
    depth + job.cells.length ≤ p.conditions.depthLimit := by
  induction h with
  | blocked | undrawn | broken | failed | spent => cases hr
  | leaf he => exact enter_depth_le he
  | opened _ _ _ ih | refused _ _ ih | undone _ _ _ _ ih => exact ih hr
  | kept _ _ _ ih | cleared _ _ _ ih =>
      have hdeep := ih rfl
      simp only [Job.cells, List.length_cons] at hdeep ⊢
      omega

/-- A stack with a frame for every empty cell suffices. -/
theorem run_not_outOfStack (hj : p.judge.Answers test)
    (hd : w.board.emptyCells.length ≤ p.conditions.depthLimit) : ¬ OutOfStack (run p w) := by
  rintro ⟨n, hn⟩
  rcases run_error_of_answers hj hn with ⟨hlt, -⟩ | ⟨f, hf, he⟩ | ⟨-, he⟩
  · omega
  · cases he
    cases hf
  · cases he

end

/-! ## A small walk

Examples of what is said of all searches begin from it. -/

/-- A walk on a row of three cells, the first two of which are given and clash.
Five completions have been counted before. -/
def clashing : Walk Unit Unit where
  board := ((Board.blank (.rectangle 3 1 (by decide) (by decide))).put 0 (some 1)).put 1 (some 1)
  tally := { solutions := 5 }
  memory := ()
  supply := ()

theorem emptyCells_clashing : clashing.board.emptyCells = [2] := by decide

end GridFill.Search
