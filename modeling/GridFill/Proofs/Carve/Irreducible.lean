/-
# `GridFill.Proofs.Carve.Irreducible` — no given of a carved board can be spared

Carving tests every given once, and a given that it puts back is never tested
again.  It was put back because the board without it had a second completion at
that moment, when other givens were still there that have been cleared since.
Clearing them cannot take the second completion away, as long as the givens are
sound (`Sound.determined_between`), so the given is still needed at the end
(`not_determined_of_visits`).

Hence in a carved board every given is needed: without it counting finds two
completions, and carving the board again changes nothing
(`carvings_irreducible`).
-/
import GridFill.Proofs.Carve.Completed

namespace GridFill.Rules

open Search

variable {σ ε : Type} {r : Rules} {b b₁ b₂ : Board}

theorem Sound.determined_between (hs : r.Sound b) (hb : b.Rectangular)
    (h₁ : b.Loosened b₁) (h₂ : b₁.Loosened b₂) (hsome : (b.completed r.allows).Nonempty)
    (hone : b₂.Determined r.allows) : b₁.Determined r.allows := by
  have hb₁ : b₁.Rectangular := hb.congr h₁.frame h₁.listed
  have hb₂ : b₂.Rectangular := hb₁.congr h₂.frame h₂.listed
  obtain ⟨x, hx⟩ := (determined_iff_completed hb₂).mp hone
  have hsome₁ : (b₁.completed r.allows).Nonempty := hsome.mono (hs.completed_subset hb h₁)
  have hsub := (hs.loosened h₁).completed_subset hb₁ h₂
  rw [hx, hsome₁.subset_singleton_iff] at hsub
  exact (determined_iff_completed hb₁).mpr ⟨x, hsub⟩

/-- A cell that still has its value after a visit of all given cells cannot be
spared. -/
theorem not_determined_of_visits {machine : Machine} {is : List Nat} {memory : σ} {c : Carving σ}
    (hs : r.Sound b) (hb : b.Rectangular) (hsome : (b.completed r.allows).Nonempty)
    (hvisits : Carving.Visits machine r.allows none is ⟨b, [], memory⟩ c)
    (his : is.Perm b.filledCells)
    {i : Nat} (hi : i ∈ c.board.filledCells) : ¬ (c.board.put i none).Determined r.allows := by
  have hmem : i ∈ is := his.mem_iff.mpr (hvisits.loosened.filled hi)
  rcases hvisits.tested rfl hmem with hvoid | ⟨b₁, hstart, hend, hmany⟩
  · have hempty := (hvisits.carved_of_perm his).cleared.void i hvoid
    exact absurd hempty (Board.mem_filledCells.mp hi).2
  · intro hone
    have hbetween : b.Loosened (b₁.put i none) :=
      hstart.trans (Board.loosened_put_none b₁ i)
    exact hmany (hs.determined_between hb hbetween (hend.put_none i) hsome hone)

theorem countCompletions_ambiguous {test : Test} {j : Judge σ ε} {c : Conditions}
    {w : Walk σ Unit} (hj : j.Answers test) (hsome : (w.board.completed test).Nonempty)
    (hmany : ¬ w.board.Determined test)
    (hstack : ¬ OutOfStack (countCompletions j c (.given w.board.width) w))
    (hreport : ¬ c.ReportFailed (countCompletions j c (.given w.board.width) w)) :
    (countCompletions j c (.given w.board.width) w).1 = .ok ⟨true, true⟩ := by
  obtain ⟨hanswer, -⟩ := countCompletions_outcome hj (resolve_width _ _) hstack hreport
  obtain ⟨x, vs, hvs, -⟩ := hsome
  have hpos := (Set.ncard_pos (finite_setOf_isCompletion test w.board.width w.board)).mpr ⟨vs, hvs⟩
  have hne := mt Board.determined_iff_ncard.mpr hmany
  rw [hanswer, decide_eq_true hpos, decide_eq_true (show 1 < _ by omega)]

/-- Carving a full rectangle with sound givens and exactly one completion, in any
order and without a bound, on any machine whose stack suffices: of the carved board no
given can be spared, counting without it finds two completions; and carving it again,
in any order, with or without a bound, on this machine or another one, makes no voids
and changes nothing. -/
theorem carvings_irreducible (machine : Machine) (r : Rules) (b : Board) (hb : b.Rectangular)
    (hs : r.Sound b) (hone : b.Determined r.allows) (memory : σ) :
    let all : Set (Except (SearchFault ε) Unit × Carving σ) :=
      b.carvings (.ofRules r) memory none machine
    (∀ t, b.carve (.ofRules r) memory none t machine ∈ all) ∧
      ∀ k ∈ all, (∀ cells, k.1 ≠ .error (.fault (.depthExceeded cells))) →
        ∃ c, k = (.ok (), c) ∧
          (∀ i ∈ c.board.filledCells, ∀ (τ δ : Type) (cond : Conditions) (w : Walk τ Unit),
            w.board = c.board.put i none →
            let count := countCompletions (.ofRules r : Judge τ δ) cond (.given b.width) w
            ¬ OutOfStack count → ¬ cond.ReportFailed count → count.1 = .ok ⟨true, true⟩) ∧
          ∀ (τ δ : Type) (memory' : τ) (maxHoles : Option Int) (machine' : Machine),
            let again : Set (Except (SearchFault δ) Unit × Carving τ) :=
              c.board.carvings (.ofRules r) memory' maxHoles machine'
            (∀ t, c.board.carve (.ofRules r) memory' maxHoles t machine' ∈ again) ∧
              ∀ k' ∈ again, (∀ cells, k'.1 ≠ .error (.fault (.depthExceeded cells))) →
                ∃ c', k' = (.ok (), c') ∧ c'.voids = [] ∧ c'.board = c.board := by
  refine ⟨fun t => Board.carve_mem_carvings, fun k hk hstack => ?_⟩
  obtain ⟨is, c, his, rfl, hvisits⟩ :=
    Board.visits_of_mem_carvings (answers_ofRules r) hk hstack
  obtain ⟨x, hx⟩ := (determined_iff_completed hb).mp hone
  have hsome : (b.completed r.allows).Nonempty := hx ▸ Set.singleton_nonempty x
  have hneeded (i : Nat) (hi : i ∈ c.board.filledCells) :
      ¬ (c.board.put i none).Determined r.allows :=
    not_determined_of_visits hs hb hsome hvisits his hi
  refine ⟨c, rfl, ?_, ?_⟩
  · intro i hi τ δ cond w hw
    have hl : b.Loosened w.board := by
      rw [hw]
      exact hvisits.loosened.trans (Board.loosened_put_none c.board i)
    have hwidth : b.width = w.board.width := congrArg Frame.width hl.frame.symm
    have hmany : ¬ w.board.Determined r.allows := by
      rw [hw]
      exact hneeded i hi
    rw [hwidth]
    exact countCompletions_ambiguous (answers_ofRules r)
      (hsome.mono (hs.completed_subset hb hl)) hmany
  · intro τ δ memory' maxHoles machine'
    refine ⟨fun t => Board.carve_mem_carvings, fun k' hk' hstack' => ?_⟩
    obtain ⟨is', c', his', rfl, hvisits'⟩ :=
      Board.visits_of_mem_carvings (answers_ofRules r) hk' hstack'
    obtain ⟨hboard, hvoids⟩ :=
      hvisits'.unchanged fun i hi => hneeded i (his'.mem_iff.mp hi)
    exact ⟨c', rfl, hvoids, hboard⟩

theorem carvings_irreducible_corners :
    let r := Carving.visit {} (.ofRules .sudoku : Judge Unit Empty) none [0, 3]
      ⟨corners.board, [], ()⟩
    r.2.voids = [0] ∧
      (countCompletions (.ofRules .sudoku : Judge Unit Empty) {} (.given 2)
        ⟨r.2.board.put 3 none, {}, (), (), #[]⟩).1 = .ok ⟨true, true⟩ ∧
      ∃ c, r.2.board.carve (.ofRules .sudoku : Judge Unit Empty) () none (.ofSeed 7) =
        (.ok (), c) ∧ c.voids = [] ∧ c.board = r.2.board := by
  intro r
  have hr : r ∈ corners.board.carvings (.ofRules .sudoku) () none := ⟨[0, 3], by decide, rfl⟩
  have hstack (cells : Nat) : r.1 ≠ .error (.fault (.depthExceeded cells)) :=
    Board.carvings_ne_depthExceeded (answers_ofRules _) hr (by decide) cells
  obtain ⟨-, hall⟩ := carvings_irreducible (ε := Empty) {} .sudoku corners.board ⟨rfl, rfl⟩
    sound_corners determined_corners ()
  obtain ⟨c, hc, hneeded, hagain⟩ := hall r hr hstack
  have hvoids : r.2.voids = [0] := by decide
  have hfilled : 3 ∈ r.2.board.filledCells := by decide
  have hcells : r.2.board.listed ≤ stackDepth := by decide
  have hempty : (r.2.board.put 3 none).emptyCells.length ≤ stackDepth := by decide
  rw [hc] at hvoids hfilled hcells hempty ⊢
  refine ⟨hvoids, ?_, ?_⟩
  · refine hneeded 3 hfilled Unit Empty {} ⟨c.board.put 3 none, {}, (), (), #[]⟩ rfl ?_
      (not_reportFailed_of_none rfl _)
    exact countCompletions_not_outOfStack (m := 2) (answers_ofRules _) rfl hempty
  · obtain ⟨hcarve, hsame⟩ := hagain Unit Empty () none {}
    exact hsame _ (hcarve (.ofSeed 7)) (Board.carve_ne_depthExceeded (answers_ofRules _) hcells)

end GridFill.Rules
