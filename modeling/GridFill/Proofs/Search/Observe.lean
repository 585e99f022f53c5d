/-
# `GridFill.Proofs.Search.Observe` — observation does not influence a search

A tally counts what a search does, and one search reads it: counting completions
ends when the tally shows two more of them than at the start.  Reports are written
from inside the frames.  Neither makes a difference.  Two searches whose tallies
start at different numbers, or of which one reports and the other does not, or not
as often, are in step (`Walk.Alongside`): they ask the same, answer the same, leave
the same board and add the same to their tallies.  What a search reports are the
multiples of its interval that its frames pass (`Reports`).

So searches that share a tally add up to what each of them would have counted from
zero (`searches_unobserved`).  All this is said of searches that do not end at a report
that fails, which takes a report that is wanted and a number too long to be written.
-/
import GridFill.Proofs.Search.Asked
import GridFill.Proofs.Search.Count
import GridFill.Proofs.Search.Fill
import GridFill.Proofs.Search.Reach
import GridFill.Proofs.Search.Reports

namespace GridFill.Search

open Relation

variable {σ ρ ε α β : Type}

/-! ## Two searches in step

The walks differ in their tallies and reports.  What one adds to its tally the
other adds too, and the goal of counting is moved by as much as the tally at the
start. -/

/-- What is added from `t` to `t₁` is added from `t'` to `t₁'`. -/
structure Tally.SameGrowth (t t₁ t' t₁' : Tally) : Prop where
  nodes : t₁'.nodes - t'.nodes = t₁.nodes - t.nodes
  validations : t₁'.validations - t'.validations = t₁.validations - t.validations
  solutions : t₁'.solutions - t'.solutions = t₁.solutions - t.solutions

/-- Two walks that began with the tallies `t` and `t'`, and since then differ in
their reports and in how deep they have been at most. -/
structure Walk.Alongside (t t' : Tally) (w w' : Walk σ ρ) : Prop where
  board : w'.board = w.board
  memory : w'.memory = w.memory
  supply : w'.supply = w.supply
  growth : t.SameGrowth w.tally t' w'.tally

/-- The same goal, with `n` complete boards in the tally beforehand. -/
def Goal.shift (n : Int) : Goal → Goal
  | .fill => .fill
  | .count stopAt => .count (stopAt + n)

namespace Walk.Alongside

variable {t t' : Tally} {w w' w₁ : Walk σ ρ} {c c' : Conditions} {depth i : Nat} {v : Int}

theorem enter {a : Except (SearchFault ε) Unit} (h : w.Alongside t t' w')
    (hc : ∀ f, ¬ c.ReportFault f) (hc' : ∀ f, ¬ c'.ReportFault f)
    (hd : c'.depthLimit = c.depthLimit) (he : Search.enter c depth w = (a, w₁)) :
    ∃ w₁', Search.enter c' depth w' = (a, w₁') ∧ w₁.Alongside t t' w₁' := by
  obtain ⟨hboard, hmemory, hsupply, hnodes, hval, hsol⟩ := h
  rcases Nat.lt_or_ge c.depthLimit depth with hlt | hle
  · rw [enter_of_lt hlt] at he
    cases he
    refine ⟨w', ?_, hboard, hmemory, hsupply, hnodes, hval, hsol⟩
    rw [enter_of_lt (hd ▸ hlt), hboard]
  · obtain ⟨reports, he₁⟩ := enter_of_le (ε := ε) (w := w) hc hle
    obtain ⟨reports', he'⟩ := enter_of_le (ε := ε) (w := w') hc' (hd ▸ hle)
    rw [he₁] at he
    cases he
    refine ⟨_, he', hboard, hmemory, hsupply, ?_, hval, hsol⟩
    simp only [Tally.enter]
    omega

theorem query {j : Judge σ ε} {a : Except (SearchFault ε) Bool} (h : w.Alongside t t' w')
    (hq : Search.query j i v w = (a, w₁)) :
    ∃ w₁', Search.query j i v w' = (a, w₁') ∧ w₁.Alongside t t' w₁' := by
  obtain ⟨hboard, hmemory, hsupply, hnodes, hval, hsol⟩ := h
  have hgrown : t.SameGrowth w.tally.tryValue t' w'.tally.tryValue := by
    refine ⟨hnodes, ?_, hsol⟩
    simp only [Tally.tryValue]
    omega
  rw [query_eq] at hq
  cases hq
  rw [query_eq, hboard, hmemory]
  exact ⟨_, rfl, rfl, rfl, hsupply, hgrown⟩

theorem reached {g : Goal} (h : w.Alongside t t' w') :
    ((g.shift (t'.solutions - t.solutions)).reached w'.tally).1 = (g.reached w.tally).1 ∧
      (w.completed g).Alongside t t' (w'.completed (g.shift (t'.solutions - t.solutions))) := by
  obtain ⟨hboard, hmemory, hsupply, hnodes, hval, hsol⟩ := h
  cases g with
  | fill => exact ⟨rfl, hboard, hmemory, hsupply, hnodes, hval, hsol⟩
  | count stopAt =>
      refine ⟨?_, hboard, hmemory, hsupply, hnodes, hval, ?_⟩
      · simp only [Goal.reached, Goal.shift, Tally.complete]
        congr 1
        exact propext (by omega)
      · simp only [completed, Goal.reached, Goal.shift, Tally.complete]
        omega

end Walk.Alongside

/-- Two plans for one machine that differ in when reports are due, and in what their
tallies show at the start. -/
structure Plan.Observed (t t' : Tally) (p p' : Plan σ ρ ε) : Prop where
  judge : p'.judge = p.judge
  supply : p'.supply = p.supply
  goal : p'.goal = p.goal.shift (t'.solutions - t.solutions)
  machine : p'.conditions.toMachine = p.conditions.toMachine
  regular : p.conditions.Regular
  regular' : p'.conditions.Regular

theorem Conditions.Regular.not_reportFault {c : Conditions} (hc : c.Regular) (f : Fault) :
    ¬ c.unlimited.ReportFault f := by
  rintro (hzero | ⟨-, hmost⟩)
  · exact absurd (hc 0 hzero) (by decide)
  · cases hmost

namespace Plan.Observed

variable {t t' : Tally} {p p' : Plan σ ρ ε}

theorem depthLimit (h : p.Observed t t' p') :
    p'.conditions.depthLimit = p.conditions.depthLimit :=
  congrArg Machine.depthLimit h.machine

theorem unlimited (h : p.Observed t t' p') : p.unlimited.Observed t t' p'.unlimited where
  judge := h.judge
  supply := h.supply
  goal := h.goal
  machine := congrArg (fun machine => { machine with digitLimit := none }) h.machine
  regular := h.regular
  regular' := h.regular'

theorem simulates (h : p.Observed t t' p') (hc : ∀ f, ¬ p.conditions.ReportFault f)
    (hc' : ∀ f, ¬ p'.conditions.ReportFault f) : p.Simulates (Walk.Alongside t t') p' where
  room := by rw [Plan.HasRoom, Plan.HasRoom, h.supply, h.machine]
  enter hw he := hw.enter hc hc' h.depthLimit he
  draw := by
    rintro w w' ⟨hboard, hmemory, hsupply, hgrowth⟩
    rw [h.supply, Walk.order, Walk.order, Walk.drawn, Walk.drawn, hsupply]
    exact ⟨rfl, hboard, hmemory, rfl, hgrowth⟩
  query hw hq := by
    rw [h.judge]
    exact hw.query hq
  put i v hw := ⟨congrArg (·.put i v) hw.board, hw.memory, hw.supply, hw.growth⟩
  reached hw := by
    rw [h.goal]
    exact hw.reached
  keeps := by
    rw [h.goal]
    cases p.goal <;> rfl

theorem unlimited_simulates (h : p.Observed t t' p') :
    p.unlimited.Simulates (Walk.Alongside t t') p'.unlimited :=
  h.unlimited.simulates h.regular.not_reportFault h.regular'.not_reportFault

end Plan.Observed

/-! ## The frames of a search that has not met the limit on digits

The limit is met by the reports only.  A search that does not end at one goes the
way of the search without the limit, moment by moment. -/

section

variable {p : Plan σ ρ ε} {x y : Moment σ ρ} {r : Step σ ρ ε}

theorem Leads.unlimited (h : Leads p x y) : Leads p.unlimited x y := by
  cases h with
  | opened he hroom => exact .opened (enter_ok_unlimited he) hroom
  | refused hq => exact .refused hq
  | accepted hq => exact .accepted hq
  | undone hq hrun => exact .undone hq (hrun.unlimited (not_reportFailed_of_ok rfl))

/-- A search that does not end at a report that fails goes on as the one without the
limit does, and neither does the rest of it. -/
theorem Leads.limited (h : Leads p.unlimited x y) (hr : Runs p x.job x.depth x.walk r)
    (hok : ¬ p.conditions.ReportFailed r) :
    Leads p x y ∧ ∃ r', Runs p y.job y.depth y.walk r' ∧ ¬ p.conditions.ReportFailed r' := by
  cases h with
  | opened he hroom =>
      cases hr with
      | blocked he' => cases he.symm.trans (enter_error_unlimited he' hok)
      | undrawn _ hfull => exact absurd hroom hfull
      | opened he' _ hrest =>
          cases he.symm.trans (enter_ok_unlimited he')
          exact ⟨.opened he' hroom, r, hrest, hok⟩
  | refused hq =>
      cases hr with
      | refused hq' hrest =>
          cases hq.symm.trans hq'
          exact ⟨.refused hq', r, hrest, hok⟩
      | broken hq' | failed hq' | kept hq' | cleared hq' | undone hq' => cases hq.symm.trans hq'
  | accepted hq =>
      cases hr with
      | broken hq' | refused hq' => cases hq.symm.trans hq'
      | failed hq' hrun =>
          cases hq.symm.trans hq'
          exact ⟨.accepted hq', _, hrun, hok⟩
      | kept hq' hrun | cleared hq' hrun | undone hq' hrun =>
          cases hq.symm.trans hq'
          exact ⟨.accepted hq', _, hrun, not_reportFailed_of_ok rfl⟩
  | undone hq hproceed =>
      have hback := hproceed.eq_explore
      cases hr with
      | broken hq' | refused hq' => cases hq.symm.trans hq'
      | failed hq' hrun =>
          cases hq.symm.trans hq'
          cases hback.trans (hrun.unlimited hok).eq_explore.symm
      | kept hq' hrun | cleared hq' hrun =>
          cases hq.symm.trans hq'
          cases hback.trans (hrun.unlimited (not_reportFailed_of_ok rfl)).eq_explore.symm
      | undone hq' hrun hrest =>
          cases hq.symm.trans hq'
          cases hback.trans (hrun.unlimited (not_reportFailed_of_ok rfl)).eq_explore.symm
          exact ⟨.undone hq' hrun, r, hrest, hok⟩

theorem reaches_limited (h : ReflTransGen (Leads p.unlimited) x y)
    (hr : Runs p x.job x.depth x.walk r) (hok : ¬ p.conditions.ReportFailed r) :
    ReflTransGen (Leads p) x y := by
  induction h using ReflTransGen.head_induction_on generalizing r with
  | refl => exact .refl
  | head hstep _ ih =>
      obtain ⟨hlead, r', hr', hok'⟩ := hstep.limited hr hok
      exact (ih hr' hok').head hlead

theorem enters_unlimited {w : Walk σ ρ} {d : Nat} (hok : ¬ p.conditions.ReportFailed (run p w)) :
    w.start.Enters p.unlimited d ↔ w.start.Enters p d := by
  constructor
  · rintro ⟨hd, cells, w', hreach⟩
    exact ⟨hd, cells, w', reaches_limited hreach (runs_explore p _ 0 w) hok⟩
  · rintro ⟨hd, cells, w', hreach⟩
    exact ⟨hd, cells, w', ReflTransGen.mono (fun _ _ h => h.unlimited) _ _ hreach⟩

end

/-! ## Whole searches

The three searches are told by their plans; a limit that is refused leaves nothing
to compare. -/

/-- Two walks with nothing but their tallies and reports to tell them apart. -/
structure Walk.Beside (w w' : Walk σ ρ) : Prop where
  board : w'.board = w.board
  memory : w'.memory = w.memory
  supply : w'.supply = w.supply

theorem Walk.Beside.alongside {w w' : Walk σ ρ} (h : w.Beside w') :
    w.Alongside w.tally w'.tally w' where
  board := h.board
  memory := h.memory
  supply := h.supply
  growth := ⟨by omega, by omega, by omega⟩

/-- A search from `w` and one from `w'`, the same but for what is observed of them:
they answer alike, come to the same board, memory and supply, add the same to their
tallies, and report when they have to. -/
structure Unobserved (c c' : Conditions) (w w' : Walk σ ρ)
    (r r' : Except (SearchFault ε) α × Walk σ ρ) : Prop where
  answer : r'.1 = r.1
  beside : r.2.Beside r'.2
  growth : w.tally.SameGrowth r.2.tally w'.tally r'.2.tally
  reports : ∃ rs, Reports c w r.2 rs
  reports' : ∃ rs, Reports c' w' r'.2 rs

/-- The deepest frame that is entered by the plan `p` from `w` is also the deepest by `p'`
from `w'`, and the tallies show it unless they showed a greater depth before. -/
def SameDepth (p p' : Plan σ ρ ε) (w w' : Walk σ ρ) (t t' : Tally) : Prop :=
  ∃ d, IsGreatest {d | w.start.Enters p d} d ∧ IsGreatest {d | w'.start.Enters p' d} d ∧
    t.maxDepth = max w.tally.maxDepth d ∧ t'.maxDepth = max w'.tally.maxDepth d

section

variable {p p' : Plan σ ρ ε} {c c' : Conditions} {w w' : Walk σ ρ}

theorem Goal.shift_shift (g : Goal) (n : Int) : (g.shift n).shift (-n) = g := by
  cases g with
  | fill => rfl
  | count stopAt =>
      rw [shift, shift]
      congr 1
      omega

theorem Plan.Observed.symm {t t' : Tally} (h : p.Observed t t' p') : p'.Observed t' t p where
  judge := h.judge.symm
  supply := h.supply.symm
  goal := by
    have hback : t.solutions - t'.solutions = -(t'.solutions - t.solutions) := by omega
    rw [h.goal, hback, Goal.shift_shift]
  machine := h.machine.symm
  regular := h.regular'
  regular' := h.regular

theorem Walk.Beside.symm (h : w.Beside w') : w'.Beside w :=
  ⟨h.board.symm, h.memory.symm, h.supply.symm⟩

theorem Plan.Observed.unobserved (h : p.Observed w.tally w'.tally p') (hw : w.Beside w')
    (hr : ¬ p.conditions.ReportFailed (run p w))
    (hr' : ¬ p'.conditions.ReportFailed (run p' w')) :
    Unobserved p.conditions p'.conditions w w' (run p w) (run p' w') := by
  have hsame := run_simulated h.unlimited_simulates hw.alongside (by rw [hw.board])
  rw [run_unlimited hr, run_unlimited hr'] at hsame
  obtain ⟨hanswer, hboard, hmemory, hsupply, hgrowth⟩ := hsame
  exact ⟨hanswer, ⟨hboard, hmemory, hsupply⟩, hgrowth, run_reports h.regular hr,
    run_reports h.regular' hr'⟩

theorem Plan.Observed.enters (h : p.Observed w.tally w'.tally p') (hw : w.Beside w')
    (hr : ¬ p.conditions.ReportFailed (run p w))
    (hr' : ¬ p'.conditions.ReportFailed (run p' w')) {d : Nat} (hd : w.start.Enters p d) :
    w'.start.Enters p' d := by
  have hd' := ((enters_unlimited hr).mpr hd).simulated h.unlimited_simulates
    h.unlimited.depthLimit hw.alongside
  rw [← enters_unlimited hr', Walk.start, hw.board]
  exact hd'

theorem Plan.Observed.sameDepth (h : p.Observed w.tally w'.tally p') (hw : w.Beside w')
    (hr : ¬ p.conditions.ReportFailed (run p w))
    (hr' : ¬ p'.conditions.ReportFailed (run p' w')) :
    SameDepth p p' w w' (run p w).2.tally (run p' w').2.tally := by
  obtain ⟨d, hd⟩ := exists_deepest p w
  have hsame : {d | w'.start.Enters p' d} = {d | w.start.Enters p d} :=
    Set.ext fun d => ⟨fun hd => h.symm.enters hw.symm hr' hr hd, fun hd => h.enters hw hr hr' hd⟩
  have hd' : IsGreatest {d | w'.start.Enters p' d} d := by rwa [hsame]
  exact ⟨d, hd, hd', run_deepest hd, run_deepest hd'⟩

/-- Reading the answers alike makes no difference. -/
theorem Unobserved.map {r r' : Except (SearchFault ε) α × Walk σ ρ}
    (h : Unobserved c c' w w' r r') {f f' : α → β} (hf : f' = f) :
    Unobserved c c' w w' (r.1.map f, r.2) (r'.1.map f', r'.2) where
  answer := by rw [hf, h.answer]
  beside := h.beside
  growth := h.growth
  reports := h.reports
  reports' := h.reports'

theorem unobserved_refused (f : SearchFault ε) (hc : c.Regular) (hc' : c'.Regular)
    (hw : w.Beside w') : Unobserved (α := α) c c' w w' (.error f, w) (.error f, w') where
  answer := rfl
  beside := hw
  growth := hw.alongside.growth
  reports := (Walk.reported_of_eq c rfl rfl).reports hc
  reports' := (Walk.reported_of_eq c' rfl rfl).reports hc'

end

section

variable {j : Judge σ ε} {c c' : Conditions} (hc : c.Regular) (hc' : c'.Regular)
  (hm : c'.toMachine = c.toMachine)

include hc hc' hm

theorem observed_filling (j : Judge σ ε) (s : Supply ρ) (t t' : Tally) :
    (Plan.filling j c s).Observed t t' (.filling j c' s) :=
  ⟨rfl, rfl, rfl, hm, hc, hc'⟩

theorem observed_counting (j : Judge σ ε) (m : Nat) (t t' : Tally) :
    (Plan.counting j c m t.solutions).Observed t t' (.counting j c' m t'.solutions) where
  judge := rfl
  supply := rfl
  goal := by
    simp only [Plan.counting, Goal.shift]
    congr 1
    omega
  machine := hm
  regular := hc
  regular' := hc'

theorem fill_unobserved {s : Supply ρ} {w w' : Walk σ ρ} (hw : w.Beside w')
    (hr : ¬ c.ReportFailed (fill j c s w)) (hr' : ¬ c'.ReportFailed (fill j c' s w')) :
    Unobserved c c' w w' (fill j c s w) (fill j c' s w') ∧
      SameDepth (.filling j c s) (.filling j c' s) w w' (fill j c s w).2.tally
        (fill j c' s w').2.tally := by
  have hobs := observed_filling hc hc' hm j s w.tally w'.tally
  rw [fill_eq_map, fill_eq_map]
  rw [fill_eq_map, reportFailed_map] at hr hr'
  exact ⟨(hobs.unobserved hw hr hr').map rfl, hobs.sameDepth hw hr hr'⟩

variable {limit : Limit} {m : Nat}

theorem countCompletions_unobserved {w w' : Walk σ Unit} (hw : w.Beside w')
    (hlimit : limit.resolve w.board = .ok m)
    (hr : ¬ c.ReportFailed (countCompletions j c limit w))
    (hr' : ¬ c'.ReportFailed (countCompletions j c' limit w')) :
    Unobserved c c' w w' (countCompletions j c limit w) (countCompletions j c' limit w') ∧
      SameDepth (.counting j c m w.tally.solutions) (.counting j c' m w'.tally.solutions) w w'
        (countCompletions j c limit w).2.tally (countCompletions j c' limit w').2.tally := by
  have hlimit' : limit.resolve w'.board = .ok m := by rw [hw.board, hlimit]
  have hobs := observed_counting hc hc' hm j m w.tally w'.tally
  rw [countCompletions_eq_map hlimit, countCompletions_eq_map hlimit']
  rw [countCompletions_eq_map hlimit, reportFailed_map] at hr
  rw [countCompletions_eq_map hlimit', reportFailed_map] at hr'
  have hsame := hobs.unobserved hw hr hr'
  refine ⟨hsame.map (funext fun _ => ?_), hobs.sameDepth hw hr hr'⟩
  rw [Completions.since, Completions.since, hsame.growth.solutions]

theorem solve_unobserved {w w' : Walk σ Unit} (hw : w.Beside w')
    (hr : ¬ c.ReportFailed (solve j c limit w)) (hr' : ¬ c'.ReportFailed (solve j c' limit w')) :
    Unobserved c c' w w' (solve j c limit w) (solve j c' limit w') ∧
      ∀ m, limit.resolve w.board = .ok m →
        SameDepth (.filling j c (.ascending m)) (.filling j c' (.ascending m)) w w'
          (solve j c limit w).2.tally (solve j c' limit w').2.tally := by
  cases hlimit : limit.resolve w.board with
  | error f =>
      have hlimit' : limit.resolve w'.board = .error f := by rw [hw.board, hlimit]
      rw [solve_refused hlimit, solve_refused hlimit']
      exact ⟨unobserved_refused (.fault f) hc hc' hw, by rintro m ⟨⟩⟩
  | ok m =>
      have hlimit' : limit.resolve w'.board = .ok m := by rw [hw.board, hlimit]
      rw [solve_eq_fill hlimit] at hr ⊢
      rw [solve_eq_fill hlimit'] at hr' ⊢
      obtain ⟨hsame, hdepth⟩ := fill_unobserved hc hc' hm hw hr hr'
      refine ⟨hsame, ?_⟩
      rintro _ ⟨⟩
      exact hdepth

theorem randomSolve_unobserved {w w' : Walk σ Twister} (hw : w.Beside w')
    (hr : ¬ c.ReportFailed (randomSolve j c limit w))
    (hr' : ¬ c'.ReportFailed (randomSolve j c' limit w')) :
    Unobserved c c' w w' (randomSolve j c limit w) (randomSolve j c' limit w') ∧
      ∀ m, limit.resolve w.board = .ok m →
        SameDepth (.filling j c (.shuffled m)) (.filling j c' (.shuffled m)) w w'
          (randomSolve j c limit w).2.tally (randomSolve j c' limit w').2.tally := by
  cases hlimit : limit.resolve w.board with
  | error f =>
      have hlimit' : limit.resolve w'.board = .error f := by rw [hw.board, hlimit]
      rw [randomSolve_refused hlimit, randomSolve_refused hlimit']
      exact ⟨unobserved_refused (.fault f) hc hc' hw, by rintro m ⟨⟩⟩
  | ok m =>
      have hlimit' : limit.resolve w'.board = .ok m := by rw [hw.board, hlimit]
      rw [randomSolve_eq_fill hlimit] at hr ⊢
      rw [randomSolve_eq_fill hlimit'] at hr' ⊢
      obtain ⟨hsame, hdepth⟩ := fill_unobserved hc hc' hm hw hr hr'
      refine ⟨hsame, ?_⟩
      rintro _ ⟨⟩
      exact hdepth

theorem count_unobserved {w w' : Walk σ Unit} (hw : w.Beside w')
    (hr : ¬ c.ReportFailed (countCompletions j c limit w))
    (hr' : ¬ c'.ReportFailed (countCompletions j c' limit w')) :
    Unobserved c c' w w' (countCompletions j c limit w) (countCompletions j c' limit w') ∧
      ∀ m, limit.resolve w.board = .ok m →
        SameDepth (.counting j c m w.tally.solutions) (.counting j c' m w'.tally.solutions) w w'
          (countCompletions j c limit w).2.tally (countCompletions j c' limit w').2.tally := by
  cases hlimit : limit.resolve w.board with
  | error f =>
      have hlimit' : limit.resolve w'.board = .error f := by rw [hw.board, hlimit]
      rw [countCompletions_refused hlimit, countCompletions_refused hlimit']
      exact ⟨unobserved_refused (.fault f) hc hc' hw, by rintro m ⟨⟩⟩
  | ok m =>
      obtain ⟨hsame, hdepth⟩ := countCompletions_unobserved hc hc' hm hw hlimit hr hr'
      refine ⟨hsame, ?_⟩
      rintro _ ⟨⟩
      exact hdepth

end

/-! ## Searches that share a tally

A task is a search without a tally.  It adds the same to every tally it is given,
so a sequence of tasks adds up. -/

/-- One of the three searches. -/
inductive Kind where
  | solve
  | randomSolve (state : Twister)
  | count

/-- A search that has still to be given a tally. -/
structure Task (σ ε : Type) where
  kind : Kind
  judge : Judge σ ε
  memory : σ
  conditions : Conditions
  limit : Limit
  board : Board

namespace Task

/-- The walk on which a task begins. -/
def walk (k : Task σ ε) (supply : ρ) (t : Tally) : Walk σ ρ where
  board := k.board
  tally := t
  memory := k.memory
  supply := supply

/-- What the tally that a task is given shows after it. -/
def tally (k : Task σ ε) (t : Tally) : Tally :=
  match k.kind with
  | .solve => (Search.solve k.judge k.conditions k.limit (k.walk () t)).2.tally
  | .randomSolve state =>
      (Search.randomSolve k.judge k.conditions k.limit (k.walk state t)).2.tally
  | .count => (countCompletions k.judge k.conditions k.limit (k.walk () t)).2.tally

/-- A task that is given a tally ends at a report that fails. -/
def ReportFailed (k : Task σ ε) (t : Tally) : Prop :=
  match k.kind with
  | .solve =>
      k.conditions.ReportFailed (Search.solve k.judge k.conditions k.limit (k.walk () t))
  | .randomSolve state =>
      k.conditions.ReportFailed (Search.randomSolve k.judge k.conditions k.limit (k.walk state t))
  | .count =>
      k.conditions.ReportFailed (countCompletions k.judge k.conditions k.limit (k.walk () t))

/-- Tasks that do not end at a report that fails, neither with the tally that the tasks
before them leave nor with one of their own. -/
def Reported : List (Task σ ε) → Tally → Prop
  | [], _ => True
  | k :: ks, t => ¬ k.ReportFailed t ∧ ¬ k.ReportFailed {} ∧ Reported ks (k.tally t)

end Task

/-- The numbers in a tally that are added to. -/
def Tally.counters (t : Tally) : Int × Int × Int := (t.nodes, t.validations, t.solutions)

theorem Tally.SameGrowth.counters {t t₁ t' t₁' : Tally} (h : t.SameGrowth t₁ t' t₁') :
    t₁'.counters - t'.counters = t₁.counters - t.counters :=
  Prod.ext h.nodes (Prod.ext h.validations h.solutions)

section

variable {k : Task σ ε} {t t' : Tally}

theorem Task.beside (k : Task σ ε) (supply : ρ) (t t' : Tally) :
    (k.walk supply t).Beside (k.walk supply t') :=
  ⟨rfl, rfl, rfl⟩

/-- A task adds the same to whatever tally it is given. -/
theorem Task.sameGrowth (hk : k.conditions.Regular) (hr : ¬ k.ReportFailed t)
    (hr' : ¬ k.ReportFailed t') : t.SameGrowth (k.tally t) t' (k.tally t') := by
  unfold Task.ReportFailed at hr hr'
  unfold Task.tally
  cases hkind : k.kind with
  | solve =>
      rw [hkind] at hr hr'
      exact (solve_unobserved hk hk rfl (k.beside () t t') hr hr').1.growth
  | randomSolve state =>
      rw [hkind] at hr hr'
      exact (randomSolve_unobserved hk hk rfl (k.beside state t t') hr hr').1.growth
  | count =>
      rw [hkind] at hr hr'
      exact (count_unobserved hk hk rfl (k.beside () t t') hr hr').1.growth

theorem counters_tally (hk : k.conditions.Regular) (hr : ¬ k.ReportFailed t)
    (hr' : ¬ k.ReportFailed {}) : (k.tally t).counters = t.counters + (k.tally {}).counters := by
  have hgrowth := (Task.sameGrowth hk hr' hr).counters
  have hzero : ({} : Tally).counters = 0 := rfl
  rw [hzero, sub_zero] at hgrowth
  rw [← hgrowth, add_sub_cancel]

/-- Tasks that are given the tally one after the other. -/
theorem counters_foldl (ks : List (Task σ ε)) (hks : ∀ k ∈ ks, k.conditions.Regular)
    (t : Tally) (hr : Task.Reported ks t) : (ks.foldl (fun t k => k.tally t) t).counters =
      t.counters + (ks.map fun k => (k.tally {}).counters).sum := by
  induction ks generalizing t with
  | nil => exact (add_zero _).symm
  | cons k ks ih =>
      obtain ⟨hfirst, hown, hrest⟩ := hr
      rw [List.foldl_cons, ih (fun k hk => hks k (List.mem_cons_of_mem _ hk)) _ hrest,
        counters_tally (hks k List.mem_cons_self) hfirst hown, List.map_cons, List.sum_cons,
        add_assoc]

end

/-! ## What makes a report fail

At an interval of at least one frame it takes a number that is too long to be written. -/

/-- A search from `w` has ended at a report that was wanted, and a number that could not be
written is still shown, by the tally or the number of cells of the same board. -/
structure Unwritable (c : Conditions) (w : Walk σ ρ)
    (r : Except (SearchFault ε) α × Walk σ ρ) : Prop where
  board : r.2.board = w.board
  wanted : c.interval ≠ none
  number : ∃ most, c.digitLimit = some most ∧ ∃ n ∈ r.2.counts, most < Text.digitCount n

theorem not_reportFailed_refused {c : Conditions} {limit : Limit} {b : Board} {f : Fault}
    {w : Walk σ ρ} (hf : limit.resolve b = .error f) :
    ¬ c.ReportFailed ((.error (.fault f), w) : Except (SearchFault ε) α × Walk σ ρ) := by
  have hbad : ∃ shown, f = .badLimit shown := by
    cases limit with
    | cells => cases hf
    | given n =>
        rw [Limit.resolve] at hf
        split at hf <;> cases hf
        exact ⟨_, rfl⟩
    | other shown =>
        cases hf
        exact ⟨_, rfl⟩
  obtain ⟨shown, rfl⟩ := hbad
  rintro ⟨f, hf, hfail⟩
  cases hfail
  cases hf

theorem run_unwritable {p : Plan σ ρ ε} {w : Walk σ ρ} (hc : p.conditions.Regular)
    (hr : p.conditions.ReportFailed (run p w)) : Unwritable p.conditions w (run p w) := by
  obtain ⟨f, hf, hfail⟩ := hr
  cases hf with
  | zero hzero => exact absurd (hc 0 hzero) (by decide)
  | digits hk hmost =>
      refine ⟨run_restores p w fun hstop => ?_, fun hnone => ?_, _, hmost, ?_⟩
      · rw [hfail] at hstop
        cases hstop
      · rw [hk] at hnone
        cases hnone
      · exact (runs_explore p w.board.emptyCells 0 w).unwritable hfail

section

variable {j : Judge σ ε} {c : Conditions} (hc : c.Regular)

include hc

theorem fill_unwritable {s : Supply ρ} {w : Walk σ ρ} (hr : c.ReportFailed (fill j c s w)) :
    Unwritable c w (fill j c s w) := by
  rw [fill_eq_map] at hr ⊢
  obtain ⟨hboard, hwanted, hnumber⟩ :=
    run_unwritable (p := .filling j c s) hc (reportFailed_map.mp hr)
  exact ⟨hboard, hwanted, hnumber⟩

theorem solve_unwritable {limit : Limit} {w : Walk σ Unit}
    (hr : c.ReportFailed (solve j c limit w)) : Unwritable c w (solve j c limit w) := by
  cases hlimit : limit.resolve w.board with
  | error f =>
      rw [solve_refused hlimit] at hr
      exact absurd hr (not_reportFailed_refused hlimit)
  | ok m =>
      rw [solve_eq_fill hlimit] at hr ⊢
      exact fill_unwritable hc hr

theorem randomSolve_unwritable {limit : Limit} {w : Walk σ Twister}
    (hr : c.ReportFailed (randomSolve j c limit w)) :
    Unwritable c w (randomSolve j c limit w) := by
  cases hlimit : limit.resolve w.board with
  | error f =>
      rw [randomSolve_refused hlimit] at hr
      exact absurd hr (not_reportFailed_refused hlimit)
  | ok m =>
      rw [randomSolve_eq_fill hlimit] at hr ⊢
      exact fill_unwritable hc hr

theorem countCompletions_unwritable {limit : Limit} {w : Walk σ Unit}
    (hr : c.ReportFailed (countCompletions j c limit w)) :
    Unwritable c w (countCompletions j c limit w) := by
  cases hlimit : limit.resolve w.board with
  | error f =>
      rw [countCompletions_refused hlimit] at hr
      exact absurd hr (not_reportFailed_refused hlimit)
  | ok m =>
      rw [countCompletions_eq_map hlimit] at hr ⊢
      obtain ⟨hboard, hwanted, hnumber⟩ :=
        run_unwritable (p := .counting j c m w.tally.solutions) hc (reportFailed_map.mp hr)
      exact ⟨hboard, hwanted, hnumber⟩

end

example :
    let w := { clashing with tally := { nodes := 3 } }
    let r := countCompletions (.ofTest Rules.rowUnique.allows : Judge Unit Empty)
      { interval := some 2 } (.given 3) w
    r.2.reports.toList.map (·.tally.nodes) = [4, 6] := by decide

end GridFill.Search
