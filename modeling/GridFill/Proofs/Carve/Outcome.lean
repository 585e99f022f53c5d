/-
# `GridFill.Proofs.Carve.Outcome` — what is left of any board that was carved

Nothing is asked of the board here.  Its givens may be out of range, they may
clash, and it may have no completion or many; nor is anything asked of the test
but that it answers.  A carving still accounts for what it did: the voids are the
cells it emptied, all of them had a value, and the rest is untouched
(`Carving.Carved`).  And if there are any voids, the board is left with exactly
one completion (`carvings_outcome`).  The attempts that come after the last void
do not spoil that, because an attempt that fails leaves the board as it was.
-/
import GridFill.Proofs.Carve.Visit

namespace GridFill

open Search

namespace Board

/-- Carving any board, in any order and with any bound, by a test that answers every
query, on any machine whose stack suffices: the voids are cells that had a value, in
ascending order and no more than allowed; they were emptied and nothing else was
changed; and if there are any, counting finds exactly one completion of what is left.
A stack that sufficed for the carving suffices for that count. -/
theorem carvings_outcome {σ ε : Type} (machine : Machine) (test : Test) (b : Board) (memory : σ)
    (maxHoles : Option Int) :
    let all : Set (Except (SearchFault ε) Unit × Carving σ) :=
      b.carvings (.ofTest test) memory maxHoles machine
    (∀ t, b.carve (.ofTest test) memory maxHoles t machine ∈ all) ∧
      ∀ r ∈ all, (∀ k, r.1 ≠ .error (.fault (.depthExceeded k))) →
        ∃ c, r = (.ok (), c) ∧ Carving.Carved b c ∧
          (∀ n, maxHoles = some n → (c.voids.length : Int) ≤ max 0 n) ∧
          (c.voids ≠ [] →
            ∀ (τ δ : Type) (cond : Conditions) (w : Walk τ Unit), w.board = c.board →
              let count := countCompletions (.ofTest test : Judge τ δ) cond (.given b.width) w
              (machine.depthLimit ≤ cond.depthLimit → ¬ OutOfStack count) ∧
                (¬ OutOfStack count → ¬ cond.ReportFailed count →
                  count.1 = .ok ⟨true, false⟩)) := by
  refine ⟨fun t => carve_mem_carvings, fun r hr hstack => ?_⟩
  obtain ⟨is, c, his, rfl, hvisits⟩ := visits_of_mem_carvings (answers_ofTest test) hr hstack
  have hcarved := hvisits.carved_of_perm his
  refine ⟨c, rfl, hcarved, fun n hn => hvisits.length_voids hn (Int.le_max_left 0 n), ?_⟩
  intro hvoids τ δ cond w hw count
  obtain ⟨hone, hdeep⟩ := hvisits.voids_determined (fun hnil => absurd rfl hnil) hvoids
  rw [← hw] at hone hdeep
  have hwidth : b.width = w.board.width := by
    rw [hw]
    exact congrArg Frame.width hcarved.cleared.frame.symm
  have hresolve : (Limit.given b.width).resolve w.board = .ok w.board.width := by
    rw [hwidth]
    exact resolve_width _ _
  constructor
  · intro hd
    exact countCompletions_not_outOfStack (answers_ofTest test) hresolve (Nat.le_trans hdeep hd)
  · intro hcount hreport
    obtain ⟨hanswer, -⟩ :=
      countCompletions_outcome (answers_ofTest test) hresolve hcount hreport
    rw [hanswer, Board.determined_iff_ncard.mp hone]
    rfl

theorem carvings_outcome_ones :
    let test : Test := fun _ _ v => v == 1
    let r := Carving.visit {} (.ofTest test : Judge Unit Empty) (some 2) [1, 0]
      ⟨clashing.board, [], ()⟩
    r.2.voids = [0, 1] ∧
      (countCompletions (.ofTest test : Judge Unit Empty) {} (.given 3)
        ⟨r.2.board, {}, (), (), #[]⟩).1 = .ok ⟨true, false⟩ := by
  intro test r
  have hr : r ∈ clashing.board.carvings (.ofTest test) () (some 2) := ⟨[1, 0], by decide, rfl⟩
  have hstack (k : Nat) : r.1 ≠ .error (.fault (.depthExceeded k)) :=
    carvings_ne_depthExceeded (answers_ofTest test) hr (by decide) k
  obtain ⟨-, hall⟩ :=
    carvings_outcome (ε := Empty) {} test clashing.board () (some 2)
  obtain ⟨c, hc, -, -, hcount⟩ := hall r hr hstack
  have hvoids : r.2.voids = [0, 1] := by decide
  rw [hc] at hvoids ⊢
  have hne : c.voids ≠ [] := fun hnil => List.cons_ne_nil _ _ (hvoids.symm.trans hnil)
  obtain ⟨hd, hone⟩ := hcount hne Unit Empty {} ⟨c.board, {}, (), (), #[]⟩ rfl
  exact ⟨hvoids, hone (hd (Nat.le_refl _)) (not_reportFailed_of_none rfl _)⟩

end Board

end GridFill
