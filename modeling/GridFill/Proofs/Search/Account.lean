/-
# `GridFill.Proofs.Search.Account` — what a search has counted when it is over

The numbers in a tally are not independent.  The frames entered and the complete boards
counted are told by the answers of the judge, and the values tried by the frames, the
boards counted and the values on the board at which the search ended.

Nothing is asked of the judge but that it answers: it may remember what it has seen and
answer the same query differently each time.
-/
import GridFill.Proofs.Search.Balance
import GridFill.Proofs.Search.Excess

namespace GridFill.Search

variable {σ ρ ε : Type}

/-! ## Complete boards that are not counted

A search that fills a board stops at the first complete one and leaves the number
of complete boards as it was. -/

section

variable {p : Plan σ ρ ε} {job : Job} {depth : Nat} {w : Walk σ ρ} {r : Step σ ρ ε}

theorem along_uncounted (hg : p.goal = .fill) :
    p.Along fun w w₁ => w₁.tally.solutions = w.tally.solutions where
  refl _ := rfl
  trans h h' := h'.trans h
  enter he := solutions_enter he
  draw _ := rfl
  query hq := solutions_query hq
  put _ _ _ := rfl
  reached _ := by
    rw [Walk.completed, hg]
    rfl

theorem Runs.solutions_eq (h : Runs p job depth w r) (hg : p.goal = .fill) :
    r.2.tally.solutions = w.tally.solutions :=
  h.along (along_uncounted hg)

end

/-! ## What a search adds to its tally

The sightings of the judge tell the frames and complete boards (`Plan.Balances`),
and the excess tells the values tried. -/

/-- The frames, the values and the complete boards added to a tally. -/
structure Growth where
  nodes : Int
  validations : Int
  solutions : Int

/-- What has been added to the first tally when it has become the second. -/
def Tally.growth (t t' : Tally) : Growth where
  nodes := t'.nodes - t.nodes
  validations := t'.validations - t.validations
  solutions := t'.solutions - t.solutions

theorem validations_growth {m : Nat} {t t' : Tally} {x : Int} (h : t'.excess m = t.excess m + x) :
    (t.growth t').validations = m * ((t.growth t').nodes - (t.growth t').solutions) + x := by
  simp only [Tally.excess] at h
  simp only [Tally.growth]
  linear_combination h

theorem filter_eq_pair {α : Type} {q : α → Bool} {l : List α} {x : α} (hlast : l.getLast? = some x)
    (hx : q x = true) (h : l.countP q = 2) : ∃ y, l.filter q = [y, x] := by
  obtain ⟨l, rfl⟩ := List.getLast?_eq_some_iff.mp hlast
  rw [List.countP_append, List.countP_singleton, if_pos hx] at h
  have hone : (l.filter q).length = 1 := by
    rw [← List.countP_eq_length_filter]
    omega
  obtain ⟨y, hy⟩ := List.length_eq_one_iff.mp hone
  exact ⟨y, by rw [List.filter_append, hy, List.filter_cons_of_pos hx, List.filter_nil,
    List.singleton_append]⟩

section

variable {p : Plan (σ × List Sighting) ρ ε} {j : Judge σ ε} {w : Walk σ ρ} {m : Nat}
  {r : Step (σ × List Sighting) ρ ε}
  (h : Runs p (.frame w.board.emptyCells) 0 w.watching r) (hp : p.judge = j.watched)

include h hp

theorem Runs.nodes_growth (hr : ∃ a, r.1 = .ok a) :
    (w.tally.growth r.2.tally).nodes = 1 + r.2.seen.countP Sighting.accepted := by
  have hbalance : r.2.tally.nodes - r.2.seen.countP Sighting.accepted = w.tally.nodes - 0 + 1 :=
    h.balanced (balances_nodes hp) rfl hr
  simp only [Tally.growth]
  omega

/-- A board that is kept holds the values that were tried for it. -/
theorem Runs.first_settled (hg : p.goal = .fill) (hs : ∀ t, (p.supply.draw t).1.toList = valuesTo m)
    (hr : r.1 = .ok .stop) :
    let d := w.tally.growth r.2.tally
    ∃ vs, w.board.FilledWith vs r.2.board ∧
      d.validations = m * (d.nodes - w.board.emptyCells.length - 1) + vs.sum := by
  intro d
  have hsol : d.solutions = 0 := Int.sub_eq_zero.mpr (h.solutions_eq hg)
  obtain ⟨vs, hends, hsum⟩ := h.excess_stop hp hs rfl List.nil_suffix hr
  rw [hg] at hends hsum
  have hsum : r.2.tally.excess m + m * w.board.emptyCells.length + m =
      w.tally.excess m + (0 : Nat) + vs.sum := hsum
  have hexcess : r.2.tally.excess m =
      w.tally.excess m + (vs.sum - m * w.board.emptyCells.length - m) := by omega
  have hval := validations_growth hexcess
  refine ⟨vs, Board.filledWith_iff.mpr ⟨hends.length, hends.kept rfl⟩, ?_⟩
  linear_combination hval - m * hsol

theorem Runs.second_settled (hk : p.goal.keeps = false)
    (hs : ∀ t, (p.supply.draw t).1.toList = valuesTo m) (hr : r.1 = .ok .stop)
    (htwo : (w.tally.growth r.2.tally).solutions = 2) :
    let d := w.tally.growth r.2.tally
    ∃ first second vs, (r.2.seen.filter Sighting.completes).map Sighting.after = [first, second] ∧
      w.board.FilledWith vs second ∧
      d.validations = m * (d.nodes - w.board.emptyCells.length - 2) + vs.sum := by
  intro d
  have hsol : r.2.tally.solutions - w.tally.solutions = 2 := htwo
  have hbalance : r.2.tally.solutions - r.2.seen.countP Sighting.completes =
      w.tally.solutions - 0 + if w.board.emptyCells.isEmpty then 1 else 0 :=
    h.balanced (balances_solutions hp hk) rfl ⟨_, hr⟩
  obtain ⟨vs, hends, hsum⟩ := h.excess_stop hp hs rfl List.nil_suffix hr
  -- without an empty cell only one board is complete, and it is never asked about
  have hopen : w.board.emptyCells ≠ [] := by
    intro hnil
    have hseen : r.2.seen = [] := h.seen_leaf hnil
    simp only [hseen, hnil, List.countP_nil, List.isEmpty_nil, if_true] at hbalance
    omega
  have hfilled : w.board.FilledWith vs (w.board.place w.board.emptyCells vs) :=
    Board.filledWith_place hends.length
  obtain ⟨s, hlast, hacc, -, hafter⟩ := hends.last hopen
  have hcompletes : s.completes = true := by
    rw [Sighting.completes, hacc, hafter]
    exact hfilled.isComplete
  rw [if_neg (by simpa using hopen)] at hbalance
  obtain ⟨s₁, hpair⟩ := filter_eq_pair hlast hcompletes (by omega)
  refine ⟨s₁.after, _, vs, ?_, hfilled, ?_⟩
  · rw [hpair, List.map_cons, List.map_singleton, hafter]
    rfl
  · rw [hk] at hsum
    have hsum : r.2.tally.excess m + m * w.board.emptyCells.length + 0 =
        w.tally.excess m + (0 : Nat) + vs.sum := hsum
    have hexcess : r.2.tally.excess m =
        w.tally.excess m + (vs.sum - m * w.board.emptyCells.length) := by omega
    have hval := validations_growth hexcess
    linear_combination hval - m * htwo

end

/-- A run that comes back has tried `m` values for each frame that was not complete. -/
theorem Runs.exhausted {p : Plan σ ρ ε} {cells : List Nat} {depth : Nat} {w : Walk σ ρ}
    {r : Step σ ρ ε} {m : Nat} (h : Runs p (.frame cells) depth w r)
    (hs : ∀ t, (p.supply.draw t).1.toList.length = m) (hr : r.1 = .ok .proceed) :
    let d := w.tally.growth r.2.tally
    d.validations = m * (d.nodes - d.solutions) := by
  intro d
  have hval := validations_growth (h.excess_proceed hs hr)
  rwa [Job.left, List.length_nil, Nat.cast_zero, Int.add_zero] at hval

/-! ## Whole searches

What holds of runs is read off the answer of each search: a search in vain has come
back, and one with a result has stopped. -/

section

variable {j : Judge σ ε} {c : Conditions} {s : Supply ρ} {w : Walk σ ρ} {m : Nat} {found : Bool}

theorem fill_nodes (hr : (fill j.watched c s w.watching).1 = .ok found) :
    let r := fill j.watched c s w.watching
    (w.tally.growth r.2.tally).nodes = 1 + r.2.seen.countP Sighting.accepted := by
  rw [fill_eq_map]
  exact (runs_explore _ _ _ _).nodes_growth rfl ⟨_, signal_of_fill hr⟩

theorem fill_exhausted (hs : ∀ t, (s.draw t).1.toList.length = m)
    (hr : (fill j c s w).1 = .ok false) :
    let d := w.tally.growth (fill j c s w).2.tally
    d.validations = m * d.nodes := by
  rw [fill_eq_map]
  intro d
  have hrun := runs_explore (.filling j c s) w.board.emptyCells 0 w
  have hsol : d.solutions = 0 := Int.sub_eq_zero.mpr (hrun.solutions_eq rfl)
  have hval : d.validations = m * (d.nodes - d.solutions) := hrun.exhausted hs (signal_of_fill hr)
  rwa [hsol, Int.sub_zero] at hval

theorem fill_settled (hs : ∀ t, (s.draw t).1.toList = valuesTo m)
    (hr : (fill j.watched c s w.watching).1 = .ok true) :
    let r := fill j.watched c s w.watching
    let d := w.tally.growth r.2.tally
    ∃ vs, w.board.FilledWith vs r.2.board ∧
      d.validations = m * (d.nodes - w.board.emptyCells.length - 1) + vs.sum := by
  rw [fill_eq_map]
  exact (runs_explore _ _ _ _).first_settled rfl rfl hs (signal_of_fill hr)

end

section

variable {j : Judge σ ε} {c : Conditions} {limit : Limit} {w : Walk σ Unit} {m : Nat}
  {n : Completions}

theorem countCompletions_nodes (hm : limit.resolve w.board = .ok m)
    (hr : (countCompletions j.watched c limit w.watching).1 = .ok n) :
    let r := countCompletions j.watched c limit w.watching
    (w.tally.growth r.2.tally).nodes = 1 + r.2.seen.countP Sighting.accepted := by
  have hm : limit.resolve w.watching.board = .ok m := hm
  obtain ⟨hsignal, -⟩ := signal_of_count hm hr
  rw [countCompletions_eq_map hm]
  exact (runs_explore _ _ _ _).nodes_growth rfl ⟨_, hsignal⟩

theorem countCompletions_exhausted (hm : limit.resolve w.board = .ok m)
    (hr : (countCompletions j c limit w).1 = .ok n) (hn : n.multiple = false) :
    let d := w.tally.growth (countCompletions j c limit w).2.tally
    d.validations = m * (d.nodes - d.solutions) := by
  obtain ⟨hsignal, -⟩ := signal_of_count hm hr
  rw [hn] at hsignal
  rw [countCompletions_eq_map hm]
  exact (runs_explore _ _ _ _).exhausted (fun _ => length_valuesTo m) hsignal

theorem countCompletions_settled (hm : limit.resolve w.board = .ok m)
    (hr : (countCompletions j.watched c limit w.watching).1 = .ok n) (hn : n.multiple = true) :
    let r := countCompletions j.watched c limit w.watching
    let d := w.tally.growth r.2.tally
    ∃ first second vs, (r.2.seen.filter Sighting.completes).map Sighting.after = [first, second] ∧
      w.board.FilledWith vs second ∧
      d.validations = m * (d.nodes - w.board.emptyCells.length - 2) + vs.sum := by
  have hm : limit.resolve w.watching.board = .ok m := hm
  obtain ⟨hsignal, htwo⟩ := signal_of_count hm hr
  rw [hn] at hsignal
  rw [countCompletions_eq_map hm]
  exact (runs_explore _ _ _ _).second_settled rfl rfl (fun _ => rfl) hsignal (htwo hn)

end

/-- What a search adds to its tally, if it comes to a result and whatever the judge goes
by, is told by what the judge has seen.  There is a frame for each accepted value, and
the first one.  A search in vain has tried `m` values for each frame.  A search that
ends at a complete board has tried `m` for each frame that is neither that board nor
above it, and in the frames above it as many as the values they hold; and a count also
has its complete boards, which tried none. -/
theorem searches_accounted (j : Judge σ ε) (c : Conditions) (limit : Limit) (m : Nat) :
    (∀ w : Walk σ Unit, limit.resolve w.board = .ok m →
      let r := solve j.watched c limit w.watching
      let d := w.tally.growth r.2.tally
      solve j c limit w = (r.1, r.2.mapMemory Prod.fst) ∧
        ∀ found, r.1 = .ok found →
          d.nodes = 1 + r.2.seen.countP Sighting.accepted ∧
          (found = false → d.validations = m * d.nodes) ∧
          (found = true → ∃ vs, w.board.FilledWith vs r.2.board ∧
            d.validations = m * (d.nodes - w.board.emptyCells.length - 1) + vs.sum)) ∧
    (∀ w : Walk σ Twister, limit.resolve w.board = .ok m →
      let r := randomSolve j.watched c limit w.watching
      let d := w.tally.growth r.2.tally
      randomSolve j c limit w = (r.1, r.2.mapMemory Prod.fst) ∧
        ∀ found, r.1 = .ok found →
          d.nodes = 1 + r.2.seen.countP Sighting.accepted ∧
          (found = false → d.validations = m * d.nodes)) ∧
    (∀ w : Walk σ Unit, limit.resolve w.board = .ok m →
      let r := countCompletions j.watched c limit w.watching
      let d := w.tally.growth r.2.tally
      countCompletions j c limit w = (r.1, r.2.mapMemory Prod.fst) ∧
        ∀ n, r.1 = .ok n →
          d.nodes = 1 + r.2.seen.countP Sighting.accepted ∧
          (n.multiple = false → d.validations = m * (d.nodes - d.solutions)) ∧
          (n.multiple = true → ∃ first second vs,
            (r.2.seen.filter Sighting.completes).map Sighting.after = [first, second] ∧
            w.board.FilledWith vs second ∧
            d.validations = m * (d.nodes - w.board.emptyCells.length - 2) + vs.sum)) := by
  refine ⟨fun w hm => ?_, fun w hm => ?_, fun w hm => ?_⟩
  · refine ⟨solve_watched j c limit w, ?_⟩
    have hm' : limit.resolve w.watching.board = .ok m := hm
    rw [solve_eq_fill hm']
    intro found hr
    refine ⟨fill_nodes hr, ?_, ?_⟩
    · rintro rfl
      exact fill_exhausted (w := w.watching) (fun _ => length_valuesTo m) hr
    · rintro rfl
      exact fill_settled (fun _ => rfl) hr
  · refine ⟨randomSolve_watched j c limit w, ?_⟩
    have hm' : limit.resolve w.watching.board = .ok m := hm
    rw [randomSolve_eq_fill hm']
    intro found hr
    refine ⟨fill_nodes hr, ?_⟩
    rintro rfl
    have hlen : ∀ t, ((Supply.shuffled m).draw t).1.toList.length = m := fun t =>
      ((draws_shuffled m).perm t).length_eq.trans (length_valuesTo m)
    exact fill_exhausted (w := w.watching) hlen hr
  · refine ⟨countCompletions_watched j c limit w, fun n hr => ?_⟩
    have hm' : limit.resolve w.watching.board = .ok m := hm
    exact ⟨countCompletions_nodes hm hr, countCompletions_exhausted hm' hr,
      countCompletions_settled hm hr⟩

theorem searches_accounted_clashing :
    let j : Judge Unit Empty := .ofTest Rules.rowUnique.allows
    let r := countCompletions j.watched {} (.given 3) clashing.watching
    let d := clashing.tally.growth r.2.tally
    r.1 = .ok { found := true, multiple := true } ∧
      d.nodes = 1 + r.2.seen.countP Sighting.accepted ∧
      ∃ first second vs, (r.2.seen.filter Sighting.completes).map Sighting.after = [first, second] ∧
        clashing.board.FilledWith vs second ∧
        d.validations = 3 * (d.nodes - clashing.board.emptyCells.length - 2) + vs.sum := by
  intro j r d
  obtain ⟨-, -, hcount⟩ := searches_accounted j {} (.given 3) 3
  obtain ⟨-, hanswer⟩ := hcount clashing rfl
  have hr : r.1 = .ok { found := true, multiple := true } := rfl
  obtain ⟨hnodes, -, hmultiple⟩ := hanswer _ hr
  exact ⟨hr, hnodes, hmultiple rfl⟩

/-- A judge that answers yes to every second query, whatever it is asked. -/
example :
    let j : Judge Bool Empty := { ask := fun _ _ _ s => (.ok s, !s) }
    let w : Walk Bool Unit := { clashing with memory := false }
    let d := w.tally.growth (countCompletions j {} (.given 3) w).2.tally
    (d.nodes, d.validations, d.solutions) = (2, 3, 1) := by decide

end GridFill.Search
