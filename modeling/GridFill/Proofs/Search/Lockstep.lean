/-
# `GridFill.Proofs.Search.Lockstep` — filling is the beginning of counting

A search for one complete board and a search that counts them differ at a complete board
only.  Until the first one has found its board both do the same; if it finds none, they
are the same run (`Runs.aimingAt`), and if it does, the other one goes on from
there, so that what has been asked so far is the beginning of all that will be
(`Runs.counting_of_stop`).  This holds whatever the judge goes by.

For a judge that applies a test, and with values tried in ascending order, the board at
which a search ends is told by the list of completions: a search for one board ends at
the first, and a count that may pass `k` of them at the one with the number `k`
(`Runs.stops_at`).  Its last query is the one that completed that board.
-/
import GridFill.Proofs.Search.Count
import GridFill.Proofs.Search.Fill
import GridFill.Proofs.Search.Watch

namespace GridFill.Search

variable {σ ρ ε : Type}

/-! ## One plan with two goals

The goal is looked at when a board is complete and when a frame is left, so a run
that meets no complete board serves every goal. -/

/-- The same plan with another goal. -/
def Plan.aimingAt (p : Plan σ ρ ε) (g : Goal) : Plan σ ρ ε := { p with goal := g }

section

variable {p : Plan σ ρ ε} {job : Job} {depth : Nat} {w : Walk σ ρ} {r : Step σ ρ ε}

theorem Runs.aimingAt (h : Runs p job depth w r) (hg : p.goal = .fill) (hr : r.1 ≠ .ok .stop)
    (g : Goal) : Runs (p.aimingAt g) job depth w r := by
  induction h with
  | blocked he => exact .blocked he
  | leaf he =>
      rw [hg] at hr
      exact absurd rfl hr
  | undrawn he hroom => exact .undrawn he hroom
  | opened he hroom _ ih => exact .opened he hroom (ih hr)
  | spent => exact .spent
  | broken hq => exact .broken hq
  | refused hq _ ih => exact .refused hq (ih hr)
  | failed hq _ ih => exact .failed hq (ih (by rintro ⟨⟩))
  | kept | cleared => exact absurd rfl hr
  | undone hq _ _ ih ih' => exact .undone hq (ih (by rintro ⟨⟩)) (ih' hr)

end

section

variable {p : Plan (σ × List Sighting) ρ ε} {j : Judge σ ε} {job : Job} {depth : Nat}
  {w : Walk (σ × List Sighting) ρ} {r : Step (σ × List Sighting) ρ ε} {stopAt : Int}

/-- A run that counts goes on where a run for one complete board has ended. -/
theorem Runs.counting_of_stop (h : Runs p job depth w r) (hp : p.judge = j.watched)
    (hg : p.goal = .fill) (hr : r.1 = .ok .stop) (stopAt : Int) :
    ∃ r', Runs (p.aimingAt (.count stopAt)) job depth w r' ∧ r.2.seen <+: r'.2.seen := by
  induction h with
  | blocked | undrawn | broken | failed | spent => cases hr
  | leaf he => exact ⟨_, .leaf he, List.prefix_refl _⟩
  | opened he hroom _ ih =>
      obtain ⟨r', hr', hle⟩ := ih hr
      exact ⟨r', .opened he hroom hr', hle⟩
  | refused hq _ ih =>
      obtain ⟨r', hr', hle⟩ := ih hr
      exact ⟨r', .refused hq hr', hle⟩
  | @kept i cells v us depth w w₁ w₂ hq _ _ ih =>
      obtain ⟨⟨a, w₃⟩, hdeep, hle⟩ := ih rfl
      rcases a with e | _ | _
      · exact ⟨_, .failed hq hdeep, hle⟩
      · obtain ⟨r', hrest⟩ : ∃ r', Runs (p.aimingAt (.count stopAt)) (.values i cells us) depth
            (w₃.put i none) r' := ⟨_, runs_values (runs_explore _ cells) us depth _⟩
        exact ⟨_, .undone hq hdeep hrest, hle.trans (hrest.seen_extends hp)⟩
      · exact ⟨_, .cleared hq hdeep rfl, hle⟩
  | cleared _ _ hk =>
      rw [hg] at hk
      cases hk
  | undone hq hrun _ _ ih =>
      obtain ⟨r', hr', hle⟩ := ih hr
      exact ⟨r', .undone hq (hrun.aimingAt hg (by rintro ⟨⟩) _) hr', hle⟩

theorem Runs.seen_counting {r' : Step (σ × List Sighting) ρ ε} {cells : List Nat}
    (h : Runs p (.frame cells) depth w r) (hp : p.judge = j.watched) (hg : p.goal = .fill)
    (h' : Runs (p.aimingAt (.count stopAt)) (.frame cells) depth w r') :
    r.2.seen <+: r'.2.seen := by
  by_cases hr : r.1 = .ok .stop
  · obtain ⟨r₁, hr₁, hle⟩ := h.counting_of_stop hp hg hr stopAt
    rwa [h'.eq_explore, ← hr₁.eq_explore]
  · rw [h'.eq_explore, ← (h.aimingAt hg hr _).eq_explore]

end

/-! ## The completion at which a search ends

A search passes the completions that its goal lets it pass, in their order, and
ends at the next. -/

/-- How many complete boards a search still passes before it ends at one. -/
def Goal.passes : Goal → Tally → Nat
  | .fill, _ => 0
  | .count stopAt, t => (stopAt - t.solutions - 1).toNat

/-- The goal has not been reached before. -/
def Goal.Open : Goal → Tally → Prop
  | .fill, _ => True
  | .count stopAt, t => t.solutions < stopAt

theorem passes_congr (g : Goal) {t t' : Tally} (h : t'.solutions = t.solutions) :
    g.passes t' = g.passes t := by
  cases g with
  | fill => rfl
  | count stopAt => rw [Goal.passes, h, Goal.passes]

theorem open_congr {g : Goal} {t t' : Tally} (h : t'.solutions = t.solutions) :
    g.Open t' ↔ g.Open t := by
  cases g with
  | fill => rfl
  | count stopAt => rw [Goal.Open, h, Goal.Open]

section

variable {test : Test} {m : Nat} {b : Board} {i : Nat} {v : Int} {cells : List Nat}
  {us : List Int}

theorem completions_refused (ht : test b i v = false) :
    (Job.values i cells (v :: us)).completions test m b =
      (Job.values i cells us).completions test m b := by
  simp [Job.completions, branch, ht]

theorem completions_accepted (ht : test b i v = true) :
    (Job.values i cells (v :: us)).completions test m b =
      ((Job.frame cells).completions test m (b.put i (some v))).map (v :: ·) ++
        (Job.values i cells us).completions test m b := by
  simp [Job.completions, branch, ht]

theorem getElem?_completions_below (ht : test b i v = true) {k : Nat} {vs : List Int}
    (h : ((Job.frame cells).completions test m (b.put i (some v)))[k]? = some vs) :
    ((Job.values i cells (v :: us)).completions test m b)[k]? = some (v :: vs) := by
  obtain ⟨hk, -⟩ := List.getElem?_eq_some_iff.mp h
  rw [completions_accepted ht, List.getElem?_append_left (by rwa [List.length_map]),
    List.getElem?_map, h, Option.map_some]

theorem getElem?_completions_after (ht : test b i v = true) (k : Nat) :
    ((Job.values i cells (v :: us)).completions test m b)[
        ((Job.frame cells).completions test m (b.put i (some v))).length + k]? =
      ((Job.values i cells us).completions test m b)[k]? := by
  rw [completions_accepted ht, List.getElem?_append_right (by simp), List.length_map,
    Nat.add_sub_cancel_left]

end

section

variable {p : Plan σ ρ ε} {cells : List Nat} {depth : Nat} {w : Walk σ ρ} {r : Step σ ρ ε}
  {test : Test} {m : Nat}

theorem Runs.passed (h : Runs p (.frame cells) depth w r) (hj : p.judge.Answers test)
    (hs : ∀ t, (p.supply.draw t).1.toList = valuesTo m) (hw : w.board.emptyCells = cells)
    (ho : p.goal.Open w.tally) (hr : r.1 = .ok .proceed) :
    p.goal.Open r.2.tally ∧ p.goal.passes w.tally =
      (completions test m cells w.board).length + p.goal.passes r.2.tally := by
  cases hg : p.goal with
  | fill =>
      have hdraws : p.supply.Draws m fun _ _ => True := draws_of_perm fun t => by rw [hs]
      have hnone : completions test m cells w.board = [] :=
        List.eq_nil_iff_forall_not_mem.mpr fun vs hvs =>
          h.not_admits hg hj hdraws hw hr vs (mem_completions.mp hvs)
      rw [hnone]
      exact ⟨trivial, rfl⟩
  | count stopAt =>
      rw [hg] at ho
      have hlt : w.tally.solutions < stopAt := ho
      obtain ⟨hsol, hopen⟩ := (h.counts hg hj hs hw hlt).1 hr
      refine ⟨hopen, ?_⟩
      simp only [Job.completions] at hsol
      simp only [Goal.passes, hsol]
      omega

end

section

variable {p : Plan (σ × List Sighting) ρ ε} {j : Judge σ ε} {job : Job} {depth : Nat}
  {w : Walk (σ × List Sighting) ρ} {r : Step (σ × List Sighting) ρ ε} {test : Test} {m : Nat}

/-- A run that ends at a complete board ends at the completion that comes after those
that it had to pass. -/
theorem Runs.stops_at (h : Runs p job depth w r) (hp : p.judge = j.watched)
    (hj : p.judge.Answers test) (hs : ∀ t, (p.supply.draw t).1.toList = valuesTo m)
    (hw : w.board.emptyCells = job.cells) (ho : p.goal.Open w.tally) (hr : r.1 = .ok .stop) :
    ∃ vs, (job.completions test m w.board)[p.goal.passes w.tally]? = some vs ∧
      r.2.EndsAt p.goal w.board job.cells vs := by
  induction h with
  | blocked | undrawn | broken | failed | spent => cases hr
  | @leaf depth w w₁ he =>
      have hb := enter_board he
      have ht := solutions_enter he
      refine ⟨[], ?_, .leaf p.goal hb⟩
      have hzero : p.goal.passes w.tally = 0 := by
        cases hg : p.goal with
        | fill => rfl
        | count stopAt =>
            simp only [hg, Goal.reached, Tally.complete, ht] at hr
            split at hr
            next hle =>
              simp only [Goal.passes]
              omega
            next => cases hr
      rw [hzero]
      rfl
  | opened he _ _ ih =>
      have hb := enter_board he
      have ht := solutions_enter he
      rw [hs] at ih
      obtain ⟨vs, hvs, hends⟩ := ih (by rw [hb]; exact hw) ((open_congr ht).mpr ho) hr
      rw [hb, passes_congr _ ht] at hvs
      exact ⟨vs, hvs, hb ▸ hends⟩
  | refused hq _ ih =>
      have hb := query_board hq
      have ht := solutions_query hq
      obtain ⟨vs, hvs, hends⟩ := ih (by rw [hb]; exact hw) ((open_congr ht).mpr ho) hr
      rw [hb, passes_congr _ ht] at hvs
      rw [completions_refused (hj.test_eq hq)]
      exact ⟨vs, hvs, hb ▸ hends⟩
  | kept hq hrun _ ih =>
      have hb := query_board hq
      have ht := solutions_query hq
      obtain ⟨vs, hvs, hends⟩ := ih (emptyCells_put_some hw hb) ((open_congr ht).mpr ho) rfl
      rw [Walk.board_put, hb, Walk.tally_put, passes_congr _ ht] at hvs
      refine ⟨_, getElem?_completions_below (hj.test_eq hq) hvs, ?_⟩
      rw [hp] at hq
      exact hends.accepted hw hq hrun
  | cleared hq hrun hk ih =>
      have hb := query_board hq
      have ht := solutions_query hq
      obtain ⟨vs, hvs, hends⟩ := ih (emptyCells_put_some hw hb) ((open_congr ht).mpr ho) rfl
      rw [Walk.board_put, hb, Walk.tally_put, passes_congr _ ht] at hvs
      refine ⟨_, getElem?_completions_below (hj.test_eq hq) hvs, ?_⟩
      rw [hp] at hq
      exact (hends.accepted hw hq hrun).cleared hk _
  | undone hq hrun _ _ ih =>
      have hb := query_board hq
      have ht := solutions_query hq
      have hback := hrun.board_back hw hq
      obtain ⟨hopen, hpassed⟩ := hrun.passed hj hs (emptyCells_put_some hw hb)
        ((open_congr ht).mpr ho) rfl
      rw [Walk.board_put, hb, Walk.tally_put, passes_congr _ ht] at hpassed
      obtain ⟨vs, hvs, hends⟩ := ih (by rw [hback]; exact hw) hopen hr
      rw [hback] at hvs hends
      refine ⟨vs, ?_, hends⟩
      rw [hpassed]
      exact (getElem?_completions_after (hj.test_eq hq) _).trans hvs

end

/-! ## The first and the second completion

Filling ends at the first completion of the list, and counting at the second. -/

section

variable {test : Test} {m : Nat} {b : Board} {vs : List Int}

theorem isLeast_of_first (h : (completions test m b.emptyCells b)[0]? = some vs) :
    IsLeast {vs | IsCompletion test m b vs} vs := by
  have hsorted := pairwise_completions test m b.emptyCells b
  refine ⟨mem_completions.mp (List.mem_of_getElem? h), fun us hus => ?_⟩
  have hus : us ∈ completions test m b.emptyCells b := mem_completions.mpr hus
  rcases hl : completions test m b.emptyCells b with _ | ⟨first, others⟩
  · rw [hl] at h
    cases h
  · rw [hl] at h hus hsorted
    cases h
    rcases List.mem_cons.mp hus with rfl | hin
    · exact le_refl us
    · exact le_of_lt (List.rel_of_pairwise_cons hsorted hin)

theorem isLeast_of_second (h : (completions test m b.emptyCells b)[1]? = some vs) :
    ∃ first, IsLeast {vs | IsCompletion test m b vs} first ∧
      IsLeast ({vs | IsCompletion test m b vs} \ {first}) vs := by
  have hsorted := pairwise_completions test m b.emptyCells b
  have hvs : IsCompletion test m b vs := mem_completions.mp (List.mem_of_getElem? h)
  have hmem : ∀ us, IsCompletion test m b us → us ∈ completions test m b.emptyCells b :=
    fun us hus => mem_completions.mpr hus
  have hfirst : ∀ us, (completions test m b.emptyCells b)[0]? = some us →
      IsLeast {vs | IsCompletion test m b vs} us := fun us => isLeast_of_first
  rcases hl : completions test m b.emptyCells b with _ | ⟨first, _ | ⟨second, others⟩⟩
  · rw [hl] at h
    cases h
  · rw [hl] at h
    cases h
  · rw [hl] at h hmem hsorted hfirst
    cases h
    obtain ⟨hbefore, hafter⟩ := List.pairwise_cons.mp hsorted
    refine ⟨first, hfirst first rfl, ⟨hvs, ?_⟩, ?_⟩
    · exact (hbefore vs List.mem_cons_self).ne'
    · rintro us ⟨hus, hne⟩
      rcases List.mem_cons.mp ((List.mem_cons.mp (hmem us hus)).resolve_left hne) with rfl | hin
      · exact le_refl us
      · exact le_of_lt (List.rel_of_pairwise_cons hafter hin)

end

/-! ## Whole searches

A watched search shows its queries, and at its end the last of them has completed
the board. -/

/-- The last query of the list has completed the board `b` with the values `vs`. -/
def LastCompletes (b : Board) (vs : List Int) (seen : List Sighting) : Prop :=
  ∃ s, seen.getLast? = some s ∧ s.accepted = true ∧ s.board.value s.cell = none ∧
    b.FilledWith vs s.after

theorem Walk.EndsAt.lastCompletes {g : Goal} {b : Board} {vs : List Int}
    {w : Walk (σ × List Sighting) ρ} (h : w.EndsAt g b b.emptyCells vs)
    (hne : b.emptyCells ≠ []) : LastCompletes b vs w.seen := by
  obtain ⟨s, hlast, hacc, hempty, hafter⟩ := h.last hne
  exact ⟨s, hlast, hacc, hempty, Board.filledWith_iff.mpr ⟨h.length, hafter⟩⟩

section

variable {j : Judge σ ε} {c : Conditions} {test : Test} {m : Nat} {limit : Limit}
  {w : Walk σ Unit}

theorem solve_seen_before (hm : limit.resolve w.board = .ok m) :
    (solve j.watched c limit w.watching).2.seen <+:
      (countCompletions j.watched c limit w.watching).2.seen := by
  have hm : limit.resolve w.watching.board = .ok m := hm
  rw [solve_eq_fill hm, fill_eq_map, countCompletions_eq_map hm]
  exact (runs_explore (.filling j.watched c (.ascending m)) _ _ _).seen_counting rfl rfl
    (runs_explore _ _ _ _)

theorem solve_walk_of_false (hm : limit.resolve w.board = .ok m)
    (hr : (solve j c limit w).1 = .ok false) :
    (countCompletions j c limit w).2 = (solve j c limit w).2 := by
  rw [solve_eq_fill hm] at hr ⊢
  have hsignal := signal_of_fill hr
  have hrun := runs_explore (.filling j c (.ascending m)) w.board.emptyCells 0 w
  have hcounting := hrun.aimingAt rfl (by rw [← run, hsignal]; rintro ⟨⟩)
    (.count (w.tally.solutions + ambiguity))
  rw [fill_eq_map, countCompletions_eq_map hm]
  exact congrArg Prod.snd hcounting.eq_explore.symm

theorem solve_first (hj : j.Answers test) (hm : limit.resolve w.board = .ok m)
    (hr : (solve j.watched c limit w.watching).1 = .ok true) :
    let r := solve j.watched c limit w.watching
    ∃ vs, IsLeast {vs | IsCompletion test m w.board vs} vs ∧ w.board.FilledWith vs r.2.board ∧
      (w.board.emptyCells = [] ∧ r.2.seen = [] ∨ LastCompletes w.board vs r.2.seen) := by
  have hm : limit.resolve w.watching.board = .ok m := hm
  rw [solve_eq_fill hm] at hr ⊢
  have hrun := runs_explore (.filling j.watched c (.ascending m)) w.board.emptyCells 0 w.watching
  obtain ⟨vs, hvs, hends⟩ := hrun.stops_at rfl (answers_watched hj) (fun _ => rfl) rfl trivial
    (signal_of_fill hr)
  rw [fill_eq_map]
  refine ⟨vs, isLeast_of_first hvs, Board.filledWith_iff.mpr ⟨hends.length, hends.kept rfl⟩, ?_⟩
  by_cases hne : w.board.emptyCells = []
  · exact .inl ⟨hne, hrun.seen_leaf hne⟩
  · exact .inr (hends.lastCompletes hne)

theorem countCompletions_second (hj : j.Answers test) (hm : limit.resolve w.board = .ok m)
    {n : Completions} (hr : (countCompletions j.watched c limit w.watching).1 = .ok n)
    (hn : n.multiple = true) :
    let r := countCompletions j.watched c limit w.watching
    ∃ first second, IsLeast {vs | IsCompletion test m w.board vs} first ∧
      IsLeast ({vs | IsCompletion test m w.board vs} \ {first}) second ∧
      LastCompletes w.board second r.2.seen := by
  have hm : limit.resolve w.watching.board = .ok m := hm
  obtain ⟨hsignal, -⟩ := signal_of_count hm hr
  rw [hn] at hsignal
  have hrun := runs_explore (.counting j.watched c m w.tally.solutions) w.board.emptyCells 0
    w.watching
  have hlt : w.tally.solutions < w.tally.solutions + ambiguity :=
    Int.lt_add_of_pos_right _ (by decide)
  obtain ⟨vs, hvs, hends⟩ := hrun.stops_at rfl (answers_watched hj) (fun _ => rfl) rfl hlt hsignal
  have hone : (Goal.count (w.tally.solutions + ambiguity)).passes w.tally = 1 := by
    simp only [Goal.passes, ambiguity]
    omega
  have hvs : (completions test m w.board.emptyCells w.board)[1]? = some vs := hone ▸ hvs
  obtain ⟨first, hfirst, hsecond⟩ := isLeast_of_second hvs
  -- two different lists of values do not both have the length zero
  have hne : w.board.emptyCells ≠ [] := by
    intro hnil
    rw [hnil] at hvs
    cases hvs
  rw [countCompletions_eq_map hm]
  exact ⟨first, vs, hfirst, hsecond, hends.lastCompletes hne⟩

end

/-- From equal tallies, and for a judge that applies a test, what a search for one
completion asks is the beginning of what a count asks.  If it finds a completion, it is
the least one, and the last query has completed it, unless there was nothing to ask; if
it finds none, the count has asked the same and its tally is the same.  And if a count
finds more than one completion, its last query has completed the second of them. -/
theorem searches_lockstep (test : Test) (c : Conditions) (limit : Limit) (w : Walk σ Unit)
    (m : Nat) (hm : limit.resolve w.board = .ok m) :
    let j : Judge σ ε := .ofTest test
    let S := {vs | IsCompletion test m w.board vs}
    let r := solve j.watched c limit w.watching
    let k := countCompletions j.watched c limit w.watching
    (solve j c limit w = (r.1, r.2.mapMemory Prod.fst) ∧
      countCompletions j c limit w = (k.1, k.2.mapMemory Prod.fst)) ∧
    r.2.seen <+: k.2.seen ∧
    (r.1 = .ok true → ∃ first, IsLeast S first ∧ w.board.FilledWith first r.2.board ∧
      (w.board.emptyCells = [] ∧ r.2.seen = [] ∨ LastCompletes w.board first r.2.seen)) ∧
    (r.1 = .ok false → k.2.seen = r.2.seen ∧ k.2.tally = r.2.tally) ∧
    (∀ n, k.1 = .ok n → n.multiple = true → ∃ first second, IsLeast S first ∧
      IsLeast (S \ {first}) second ∧ LastCompletes w.board second k.2.seen) := by
  intro j S r k
  have hj : j.Answers test := answers_ofTest test
  have hm' : limit.resolve w.watching.board = .ok m := hm
  refine ⟨⟨solve_watched j c limit w, countCompletions_watched j c limit w⟩,
    solve_seen_before hm, solve_first hj hm, fun hr => ?_,
    fun n hr hn => countCompletions_second hj hm hr hn⟩
  have hsame : k.2 = r.2 := solve_walk_of_false hm' hr
  rw [hsame]
  exact ⟨rfl, rfl⟩

theorem searches_lockstep_clashing :
    let j : Judge Unit Empty := .ofTest Rules.rowUnique.allows
    let r := solve j.watched {} (.given 3) clashing.watching
    let k := countCompletions j.watched {} (.given 3) clashing.watching
    r.2.seen <+: k.2.seen ∧ r.2.seen.length = 2 ∧ k.2.seen.length = 3 ∧
      ∃ first second, IsLeast {vs | IsCompletion Rules.rowUnique.allows 3 clashing.board vs} first ∧
        LastCompletes clashing.board second k.2.seen := by
  intro j r k
  obtain ⟨-, hbefore, -, -, hmultiple⟩ :=
    searches_lockstep (ε := Empty) Rules.rowUnique.allows {} (.given 3) clashing 3 rfl
  obtain ⟨first, second, hfirst, -, hlast⟩ := hmultiple { found := true, multiple := true } rfl rfl
  exact ⟨hbefore, rfl, rfl, first, second, hfirst, hlast⟩

end GridFill.Search
