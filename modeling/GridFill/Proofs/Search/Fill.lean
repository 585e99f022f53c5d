/-
# `GridFill.Proofs.Search.Fill` — filling a board finds its first completion

A search that fills a board stops at a completion and comes back empty-handed
only if there is none.  The completion is the first one in the order of trying:
if the orders drawn are sorted by a relation on values, no completion comes
before it in the lexicographic order of that relation (`fill_outcome`).  For
ascending orders that is the least completion; for orders in which nothing is
known of the sequence the relation holds of all values, and only soundness and
completeness are left.

The induction is on the runs.  While the values of a cell are tried, the
completions still to be met are those that begin with one of the values left
(`Job.Admits`): a refused value takes none away, and neither does a value after
which the search came back.
-/
import Mathlib.Data.Int.Order.Basic
import Mathlib.Data.List.Lex
import Mathlib.Order.Bounds.Defs
import GridFill.Proofs.Search.Pure
import GridFill.Search.Basic

namespace GridFill.Search

variable {σ ρ ε : Type}

/-! ## The orders a supply draws

Nothing is used of them but that they hold the values from `1` to `m`, and how they
are sorted. -/

/-- Every order drawn holds the values from `1` to `m`, sorted by `rel`. -/
structure Supply.Draws (s : Supply ρ) (m : Nat) (rel : Int → Int → Prop) : Prop where
  perm : ∀ t, (s.draw t).1.toList.Perm (valuesTo m)
  sorted : ∀ t, (s.draw t).1.toList.Pairwise rel

theorem Supply.Draws.length_eq {s : Supply ρ} {m : Nat} {rel : Int → Int → Prop}
    (h : s.Draws m rel) (t : ρ) : (s.draw t).1.toList.length = m :=
  (h.perm t).length_eq.trans (length_valuesTo m)

theorem draws_ascending (m : Nat) : (Supply.ascending m).Draws m (· < ·) where
  perm _ := List.Perm.refl _
  sorted _ := pairwise_valuesTo m

theorem draws_of_perm {s : Supply ρ} {m : Nat}
    (h : ∀ t, (s.draw t).1.toList.Perm (valuesTo m)) : s.Draws m fun _ _ => True where
  perm := h
  sorted _ := List.pairwise_of_forall fun _ _ => trivial

theorem Order.toList_ofArray (a : Array Int) : (Order.ofArray a).toList = a.toList := by
  refine List.ext_getElem (by simp [toList, ofArray]) fun k hk hk' => ?_
  have hlt : k < a.size := by simpa using hk'
  simp [toList, ofArray, hlt]

theorem draws_shuffled (m : Nat) : (Supply.shuffled m).Draws m fun _ _ => True := by
  refine draws_of_perm fun t => ?_
  have hperm := Array.perm_iff_toList_perm.mp (t.shuffle_perm (valuesTo m).toArray)
  rw [Supply.shuffled]
  dsimp only
  rw [Order.toList_ofArray]
  exact hperm

/-! ## The completions a job has before it

A job can still place values in its cells in the ways that are left to it; each
value tried and given up takes away those that begin with it. -/

/-- The values that a job can still place: in all its cells, the first of them
one of the values not yet tried. -/
def Job.Admits (test : Test) (m : Nat) (b : Board) : Job → List Int → Prop
  | .frame cells, vs => Placeable test m b cells vs
  | .values i cells us, vs =>
      ∃ v ∈ us, ∃ vs', vs = v :: vs' ∧ test b i v = true ∧
        Placeable test m (b.put i (some v)) cells vs'

/-- The values not yet tried are sorted. -/
def Job.Sorted (rel : Int → Int → Prop) : Job → Prop
  | .frame _ => True
  | .values _ _ us => us.Pairwise rel

section

variable {test : Test} {m : Nat} {b : Board} {i : Nat} {v : Int} {cells : List Nat}
  {us vs : List Int}

theorem admits_opened (h : us.Perm (valuesTo m)) :
    (Job.frame (i :: cells)).Admits test m b vs ↔ (Job.values i cells us).Admits test m b vs := by
  rw [Job.Admits, placeable_cons]
  constructor
  · rintro ⟨v, vs', rfl, hv, ht, hp⟩
    exact ⟨v, h.mem_iff.mpr hv, vs', rfl, ht, hp⟩
  · rintro ⟨v, hv, vs', rfl, ht, hp⟩
    exact ⟨v, vs', rfl, h.mem_iff.mp hv, ht, hp⟩

theorem admits_cons : (Job.values i cells (v :: us)).Admits test m b vs ↔
    (∃ vs', vs = v :: vs' ∧ test b i v = true ∧ Placeable test m (b.put i (some v)) cells vs') ∨
      (Job.values i cells us).Admits test m b vs := by
  constructor
  · rintro ⟨u, hu, hrest⟩
    rcases List.mem_cons.mp hu with rfl | hu
    · exact .inl hrest
    · exact .inr ⟨u, hu, hrest⟩
  · rintro (hrest | ⟨u, hu, hrest⟩)
    · exact ⟨v, List.mem_cons_self, hrest⟩
    · exact ⟨u, List.mem_cons_of_mem _ hu, hrest⟩

theorem admits_refused (ht : test b i v = false) :
    (Job.values i cells (v :: us)).Admits test m b vs ↔
      (Job.values i cells us).Admits test m b vs := by
  rw [admits_cons]
  constructor
  · rintro (⟨_, _, hv, _⟩ | h)
    · rw [ht] at hv
      cases hv
    · exact h
  · exact .inr

theorem admits_undone
    (hp : ∀ vs, ¬ (Job.frame cells).Admits test m (b.put i (some v)) vs) :
    (Job.values i cells (v :: us)).Admits test m b vs ↔
      (Job.values i cells us).Admits test m b vs := by
  rw [admits_cons]
  constructor
  · rintro (⟨vs', _, _, h⟩ | h)
    · exact absurd h (hp vs')
    · exact h
  · exact .inr

end

/-! ## Soundness, completeness and order

Coming back means that nothing could be placed, and stopping that what was placed
came first. -/

section

variable {p : Plan σ ρ ε} {job : Job} {depth : Nat} {w : Walk σ ρ} {r : Step σ ρ ε}
  {test : Test} {m : Nat} {rel : Int → Int → Prop}

/-- If a filling search comes back, nothing could be placed. -/
theorem Runs.not_admits (h : Runs p job depth w r) (hg : p.goal = .fill)
    (hj : p.judge.Answers test) (hs : p.supply.Draws m rel)
    (hw : w.board.emptyCells = job.cells) (hr : r.1 = .ok .proceed) (vs : List Int) :
    ¬ job.Admits test m w.board vs := by
  induction h generalizing vs with
  | blocked | undrawn | broken | failed | kept | cleared => cases hr
  | leaf =>
      rw [hg] at hr
      cases hr
  | opened he _ _ ih =>
      have hb := enter_board he
      rw [admits_opened (hs.perm _), ← hb]
      exact ih (by rw [hb]; exact hw) hr vs
  | spent =>
      rintro ⟨_, hv, _⟩
      cases hv
  | refused hq _ ih =>
      have hb := query_board hq
      rw [admits_refused (hj.test_eq hq), ← hb]
      exact ih (by rw [hb]; exact hw) hr vs
  | undone hq hrun _ ih ih' =>
      have hb := query_board hq
      have hback := hrun.board_back hw hq
      have hnone := ih (emptyCells_put_some hw hb) rfl
      rw [Walk.board_put, hb] at hnone
      rw [admits_undone hnone, ← hback]
      exact ih' (by rw [hback]; exact hw) hr vs

/-- If a filling search stops, it has placed the first values that fit. -/
theorem Runs.admits_first (h : Runs p job depth w r) (hg : p.goal = .fill)
    (hj : p.judge.Answers test) (hs : p.supply.Draws m rel)
    (hw : w.board.emptyCells = job.cells) (hsort : job.Sorted rel) (hr : r.1 = .ok .stop) :
    ∃ vs, job.Admits test m w.board vs ∧ r.2.board = w.board.place job.cells vs ∧
      ∀ us, job.Admits test m w.board us → us = vs ∨ List.Lex rel vs us := by
  induction h with
  | blocked | undrawn | broken | failed | spent => cases hr
  | cleared _ _ hk =>
      rw [hg] at hk
      cases hk
  | leaf he =>
      have hb := enter_board he
      exact ⟨[], placeable_nil.mpr rfl, hb, fun us hus => .inl (placeable_nil.mp hus)⟩
  | opened he _ _ ih =>
      have hb := enter_board he
      obtain ⟨vs, hvs, hplace, hfirst⟩ := ih (by rw [hb]; exact hw) (hs.sorted _) hr
      rw [hb] at hvs hplace hfirst
      exact ⟨vs, (admits_opened (hs.perm _)).mpr hvs, hplace,
        fun us hus => hfirst us ((admits_opened (hs.perm _)).mp hus)⟩
  | refused hq _ ih =>
      have hb := query_board hq
      obtain ⟨vs, hvs, hplace, hfirst⟩ := ih (by rw [hb]; exact hw) hsort.of_cons hr
      rw [hb] at hvs hplace hfirst
      simp only [admits_refused (hj.test_eq hq)]
      exact ⟨vs, hvs, hplace, hfirst⟩
  | kept hq _ _ ih =>
      have hb := query_board hq
      obtain ⟨vs, hvs, hplace, hfirst⟩ := ih (emptyCells_put_some hw hb) trivial rfl
      rw [Walk.board_put, hb] at hvs hplace hfirst
      refine ⟨_ :: vs, admits_cons.mpr (.inl ⟨vs, rfl, hj.test_eq hq, hvs⟩), hplace, ?_⟩
      intro us hus
      rcases admits_cons.mp hus with ⟨us', rfl, _, hus'⟩ | ⟨u, hu, us', rfl, _⟩
      · rcases hfirst us' hus' with rfl | hlex
        · exact .inl rfl
        · exact .inr (.cons hlex)
      · exact .inr (.rel (List.rel_of_pairwise_cons hsort hu))
  | undone hq hrun _ _ ih =>
      have hb := query_board hq
      have hback := hrun.board_back hw hq
      have hnone := hrun.not_admits hg hj hs (emptyCells_put_some hw hb) rfl
      rw [Walk.board_put, hb] at hnone
      obtain ⟨vs, hvs, hplace, hfirst⟩ := ih (by rw [hback]; exact hw) hsort.of_cons hr
      rw [hback] at hvs hplace hfirst
      simp only [admits_undone hnone]
      exact ⟨vs, hvs, hplace, hfirst⟩

end

/-! ## Whole searches

A search that is not cut short has either come back or stopped. -/

section

variable {test : Test} {m : Nat} {rel : Int → Int → Prop} {j : Judge σ ε} {c : Conditions}
  {s : Supply ρ}

theorem fill_eq_map (j : Judge σ ε) (c : Conditions) (s : Supply ρ) (w : Walk σ ρ) :
    fill j c s w = ((run (.filling j c s) w).1.map fun a => decide (a = .stop),
      (run (.filling j c s) w).2) := by
  unfold fill
  rcases run (.filling j c s) w with ⟨_ | _, _⟩ <;> rfl

theorem signal_of_fill {w : Walk σ ρ} {found : Bool} (hr : (fill j c s w).1 = .ok found) :
    (run (.filling j c s) w).1 = .ok (if found then .stop else .proceed) := by
  rw [fill_eq_map] at hr
  rcases hrun : (run (.filling j c s) w).1 with e | a
  · rw [hrun] at hr
    cases hr
  · rw [hrun] at hr
    cases a <;> (cases hr; rfl)

theorem fill_not_outOfStack {w : Walk σ ρ} (hj : j.Answers test)
    (hd : w.board.emptyCells.length ≤ c.depthLimit) : ¬ OutOfStack (fill j c s w) := by
  rw [fill_eq_map, outOfStack_map]
  exact run_not_outOfStack hj hd

theorem fill_of_not_room {w : Walk σ ρ} (hroom : ¬ s.listLength ≤ c.lengthLimit)
    (hc : ∀ f, ¬ c.ReportFault f) (hw : w.board.emptyCells ≠ []) :
    (fill j c s w).1 = .error (.fault .lengthWidth) := by
  rw [fill_eq_map, run_of_not_room (p := .filling j c s) hroom hc hw]
  rfl

theorem fill_depth_le {w : Walk σ ρ} (hr : (fill j c s w).1 = .ok true) :
    w.board.emptyCells.length ≤ c.depthLimit := by
  have hrun := runs_explore (.filling j c s) w.board.emptyCells 0 w
  have hdepth := hrun.depth_le (signal_of_fill hr)
  rwa [Nat.zero_add] at hdepth

theorem solve_eq_fill {limit : Limit} {w : Walk σ Unit} (hm : limit.resolve w.board = .ok m) :
    solve j c limit w = fill j c (.ascending m) w := by
  rw [solve, hm]

theorem solve_refused {limit : Limit} {w : Walk σ Unit} {f : Fault}
    (hf : limit.resolve w.board = .error f) : solve j c limit w = (.error (.fault f), w) := by
  rw [solve, hf]

theorem solve_not_outOfStack {limit : Limit} {w : Walk σ Unit} (hj : j.Answers test)
    (hm : limit.resolve w.board = .ok m) (hd : w.board.emptyCells.length ≤ c.depthLimit) :
    ¬ OutOfStack (solve j c limit w) := by
  rw [solve_eq_fill hm]
  exact fill_not_outOfStack hj hd

theorem randomSolve_eq_fill {limit : Limit} {w : Walk σ Twister}
    (hm : limit.resolve w.board = .ok m) :
    randomSolve j c limit w = fill j c (.shuffled m) w := by
  rw [randomSolve, hm]

theorem randomSolve_refused {limit : Limit} {w : Walk σ Twister} {f : Fault}
    (hf : limit.resolve w.board = .error f) :
    randomSolve j c limit w = (.error (.fault f), w) := by
  rw [randomSolve, hf]

/-- A board that is reported as filled holds the first completion in the order of
trying. -/
theorem fill_first (hj : j.Answers test) (hs : s.Draws m rel) {w : Walk σ ρ}
    (hr : (fill j c s w).1 = .ok true) :
    ∃ vs, IsCompletion test m w.board vs ∧ w.board.FilledWith vs (fill j c s w).2.board ∧
      ∀ us, IsCompletion test m w.board us → us = vs ∨ List.Lex rel vs us := by
  have hrun := runs_explore (.filling j c s) w.board.emptyCells 0 w
  obtain ⟨vs, hvs, hplace, hfirst⟩ :=
    hrun.admits_first rfl hj hs rfl trivial (signal_of_fill hr)
  refine ⟨vs, hvs, ?_, hfirst⟩
  rw [fill_eq_map]
  exact Board.filledWith_iff.mpr ⟨Placeable.length_eq hvs, hplace⟩

/-- A search that fills a board and is not cut short finds the first completion in
its order of trying, or finds that there is none and leaves the board as it was. -/
theorem fill_outcome (hj : j.Answers test) (hs : s.Draws m rel)
    (w : Walk σ ρ) (hroom : w.board.emptyCells = [] ∨ s.listLength ≤ c.lengthLimit)
    (hstack : ¬ OutOfStack (fill j c s w)) (hreport : ¬ c.ReportFailed (fill j c s w)) :
    (fill j c s w).1 = .ok true ∧
        (∃ vs, IsCompletion test m w.board vs ∧ w.board.FilledWith vs (fill j c s w).2.board ∧
          ∀ us, IsCompletion test m w.board us → us = vs ∨ List.Lex rel vs us) ∨
      (fill j c s w).1 = .ok false ∧ (∀ vs, ¬ IsCompletion test m w.board vs) ∧
        (fill j c s w).2.board = w.board := by
  have hrun : Runs (.filling j c s) (.frame w.board.emptyCells) 0 w (run (.filling j c s) w) :=
    runs_explore _ _ 0 w
  rw [fill_eq_map, outOfStack_map] at hstack
  rw [fill_eq_map, reportFailed_map] at hreport
  obtain ⟨a, hr⟩ := exists_signal hj hroom hstack hreport
  cases a with
  | proceed =>
      have hback := hrun.restores rfl fun hstop => by
        rw [hr] at hstop
        cases hstop
      rw [fill_eq_map, hr]
      exact .inr ⟨rfl, hrun.not_admits rfl hj hs rfl hr, hback⟩
  | stop =>
      have hfound : (fill j c s w).1 = .ok true := by
        rw [fill_eq_map, hr]
        rfl
      exact .inl ⟨hfound, fill_first hj hs hfound⟩

end

end GridFill.Search
