/-
# `GridFill.Proofs.Search.Run` — the runs of a search, as derivations

`Runs p job depth w r` says that the job, begun at the walk `w`, ends with `r`.
A job is a frame for some empty cells, or what is left of one: the values that
are still to be tried in its cell.  There is one rule for each thing that can
happen, so whatever is true of all runs is shown by one induction with these
cases and never by opening `explore` again.

The relation is the graph of the search: every job has the run that `explore`
computes (`runs_explore`) and no other (`Runs.eq_exec`).
-/
import GridFill.Proofs.Board.Empty
import GridFill.Proofs.Text.Numeral
import GridFill.Search.Explore

namespace GridFill.Search

variable {σ ρ ε : Type}

/-! ## The values of an order as a list

An order is a function of ranks for the search, and a list for all that is said of
it. -/

/-- The values at the last `left` ranks of an order. -/
def Order.rest (o : Order) (left : Nat) : List Int :=
  (List.range' (o.count - left) left).map o.value

theorem Order.rest_succ (o : Order) {left : Nat} (h : left + 1 ≤ o.count) :
    o.rest (left + 1) = o.value (o.count - (left + 1)) :: o.rest left := by
  have hnext : o.count - (left + 1) + 1 = o.count - left := by omega
  rw [rest, List.range'_succ, List.map_cons, hnext, rest]

theorem Order.rest_count (o : Order) : o.rest o.count = o.toList := by
  rw [rest, toList, Nat.sub_self, List.range_eq_range']

/-- Tries the values of a list in turn, until one of them ends the search. -/
def tryValues (step : Int → Walk σ ρ → Step σ ρ ε) : List Int → Walk σ ρ → Step σ ρ ε
  | [], w => (.ok .proceed, w)
  | v :: vs, w =>
    match step v w with
    | (.ok .proceed, w) => tryValues step vs w
    | r => r

theorem tryOrder_eq_tryValues (step : Int → Walk σ ρ → Step σ ρ ε) (o : Order) {left : Nat}
    (h : left ≤ o.count) (w : Walk σ ρ) :
    tryOrder step o left w = tryValues step (o.rest left) w := by
  induction left generalizing w with
  | zero => rfl
  | succ left ih =>
      rw [tryOrder, o.rest_succ h, tryValues]
      rcases step (o.value (o.count - (left + 1))) w with ⟨_ | _ | _, w₁⟩
      · rfl
      · exact ih (Nat.le_of_succ_le h) w₁
      · rfl

/-! ## Circumstances that end a search

Apart from a judge that breaks down there are three: a stack without room for another
frame, reports that fail, and orders that take longer lists than the machine has. -/

/-- The ways in which a report can fail: it is due every zero frames, or it shows a
number of more digits than the machine writes. -/
inductive Conditions.ReportFault (c : Conditions) : Fault → Prop
  | zero : c.interval = some 0 → c.ReportFault .zeroModulus
  | digits {k : Int} {most : Nat} : c.interval = some k → c.digitLimit = some most →
      c.ReportFault (.digitCount most)

theorem Conditions.not_reportFault_of_none {c : Conditions} (hc : c.interval = none)
    (f : Fault) : ¬ c.ReportFault f := by
  rintro (hk | ⟨hk, -⟩) <;> (rw [hc] at hk; cases hk)

/-- There is room for the lists that the orders of a search take. -/
def Plan.HasRoom (p : Plan σ ρ ε) : Prop := p.supply.listLength ≤ p.conditions.lengthLimit

/-! ## What the parts of a frame do

Everything that entering a frame can come to has a rule of `Entering`, and asking the
judge is one equation (`query_eq`), so that no later proof opens the two again. -/

section Parts

variable {c : Conditions} {j : Judge σ ε} {depth i : Nat} {v : Int} {w w₁ : Walk σ ρ}

/-- The walk with a frame counted. -/
def Walk.entered (w : Walk σ ρ) (depth : Nat) : Walk σ ρ :=
  { w with tally := w.tally.enter depth }

/-- What entering a frame comes to.  It is `blocked` if it lies too deep.  Otherwise it is
counted, and then no report is due (`quiet`), or one is due every zero frames (`never`), or
one is due and is `written`, or it is `unwritable`. -/
inductive Entering (c : Conditions) (depth : Nat) (w : Walk σ ρ) :
    Except (SearchFault ε) Unit × Walk σ ρ → Prop
  | blocked (hd : c.depthLimit < depth) :
      Entering c depth w (.error (.fault (.depthExceeded w.board.listed)), w)
  | quiet (hd : depth ≤ c.depthLimit)
      (hdue : ∀ k, c.interval = some k → k ≠ 0 ∧ (w.entered depth).tally.nodes % k ≠ 0) :
      Entering c depth w (.ok (), w.entered depth)
  | never (hd : depth ≤ c.depthLimit) (hk : c.interval = some 0) :
      Entering c depth w (.error (.fault .zeroModulus), w.entered depth)
  | written {k : Int} (hd : depth ≤ c.depthLimit) (hk : c.interval = some k) (hz : k ≠ 0)
      (hdue : (w.entered depth).tally.nodes % k = 0)
      (hcheck : Text.checkDigits c.digitLimit (w.entered depth).report.numbers = .ok ()) :
      Entering c depth w (.ok (), { w.entered depth with
        reports := (w.entered depth).reports.push (w.entered depth).report })
  | unwritable {k : Int} {f : Fault} (hd : depth ≤ c.depthLimit) (hk : c.interval = some k)
      (hz : k ≠ 0) (hdue : (w.entered depth).tally.nodes % k = 0)
      (hcheck : Text.checkDigits c.digitLimit (w.entered depth).report.numbers = .error f) :
      Entering c depth w (.error (.fault f), w.entered depth)

theorem enter_of_lt (h : c.depthLimit < depth) :
    enter (ε := ε) c depth w = (.error (.fault (.depthExceeded w.board.listed)), w) := by
  rw [enter, if_pos h]

theorem enter_eq (hd : depth ≤ c.depthLimit) : enter (ε := ε) c depth w =
    match c.interval with
    | none => (.ok (), w.entered depth)
    | some k =>
      if k = 0 then (.error (.fault .zeroModulus), w.entered depth)
      else if (w.entered depth).tally.nodes % k = 0 then
        match Text.checkDigits c.digitLimit (w.entered depth).report.numbers with
        | .error f => (.error (.fault f), w.entered depth)
        | .ok _ => (.ok (), { w.entered depth with
            reports := (w.entered depth).reports.push (w.entered depth).report })
      else (.ok (), w.entered depth) := by
  rw [enter, if_neg (Nat.not_lt.mpr hd)]
  rfl

theorem entering (c : Conditions) (depth : Nat) (w : Walk σ ρ) :
    Entering c depth w (enter (ε := ε) c depth w) := by
  rcases Nat.lt_or_ge c.depthLimit depth with hd | hd
  · rw [enter_of_lt hd]
    exact .blocked hd
  rw [enter_eq hd]
  cases hk : c.interval with
  | none => exact .quiet hd (by rw [hk]; rintro k ⟨⟩)
  | some k =>
      dsimp only
      by_cases hz : k = 0
      · subst hz
        exact .never hd hk
      rw [if_neg hz]
      by_cases hdue : (w.entered depth).tally.nodes % k = 0
      case neg =>
        rw [if_neg hdue]
        refine .quiet hd ?_
        rw [hk]
        rintro _ ⟨⟩
        exact ⟨hz, hdue⟩
      rw [if_pos hdue]
      cases hcheck : Text.checkDigits c.digitLimit (w.entered depth).report.numbers with
      | ok _ => exact .written hd hk hz hdue hcheck
      | error f => exact .unwritable hd hk hz hdue hcheck

theorem Entering.of_enter {r : Except (SearchFault ε) Unit × Walk σ ρ}
    (h : enter c depth w = r) : Entering c depth w r :=
  h ▸ entering c depth w

theorem Entering.eq_enter {r : Except (SearchFault ε) Unit × Walk σ ρ}
    (h : Entering c depth w r) : enter c depth w = r := by
  cases h with
  | blocked hd => exact enter_of_lt hd
  | quiet hd hdue =>
      rw [enter_eq hd]
      cases hk : c.interval with
      | none => rfl
      | some k =>
          obtain ⟨hz, hnot⟩ := hdue k hk
          exact (if_neg hz).trans (if_neg hnot)
  | never hd hk =>
      rw [enter_eq hd, hk]
      rfl
  | written hd hk hz hdue hcheck | unwritable hd hk hz hdue hcheck =>
      rw [enter_eq hd, hk]
      dsimp only
      rw [if_neg hz, if_pos hdue, hcheck]

/-- Entering a frame: it lies too deep, or it is counted, and then it is
entered unless a report fails. -/
theorem enter_cases {a : Except (SearchFault ε) Unit} (h : enter c depth w = (a, w₁)) :
    c.depthLimit < depth ∧ a = .error (.fault (.depthExceeded w.board.listed)) ∧ w₁ = w ∨
      (∃ reports, w₁ = { w with tally := w.tally.enter depth, reports := reports }) ∧
        (a = .ok () ∨ ∃ f, c.ReportFault f ∧ a = .error (.fault f)) := by
  cases Entering.of_enter h with
  | blocked hd => exact .inl ⟨hd, rfl, rfl⟩
  | quiet | written => exact .inr ⟨⟨_, rfl⟩, .inl rfl⟩
  | never _ hk => exact .inr ⟨⟨_, rfl⟩, .inr ⟨_, .zero hk, rfl⟩⟩
  | unwritable _ hk _ _ hcheck =>
      obtain ⟨most, hmost, rfl, -⟩ := Text.checkDigits_eq_error hcheck
      exact .inr ⟨⟨_, rfl⟩, .inr ⟨_, .digits hk hmost, rfl⟩⟩

theorem enter_of_le (hc : ∀ f, ¬ c.ReportFault f) (h : depth ≤ c.depthLimit) :
    ∃ reports, enter (ε := ε) c depth w =
      (.ok (), { w with tally := w.tally.enter depth, reports := reports }) := by
  rcases he : enter (ε := ε) c depth w with ⟨a, w₁⟩
  rcases enter_cases he with ⟨hlt, -, -⟩ | ⟨⟨reports, rfl⟩, rfl | ⟨f, hf, -⟩⟩
  · exact absurd h (Nat.not_le.mpr hlt)
  · exact ⟨reports, rfl⟩
  · exact absurd hf (hc f)

section

variable {a : Except (SearchFault ε) Unit} (h : enter c depth w = (a, w₁))

include h

theorem enter_board : w₁.board = w.board := by
  rcases enter_cases h with ⟨-, -, rfl⟩ | ⟨⟨_, rfl⟩, -⟩ <;> rfl

theorem enter_memory : w₁.memory = w.memory := by
  rcases enter_cases h with ⟨-, -, rfl⟩ | ⟨⟨_, rfl⟩, -⟩ <;> rfl

theorem enter_supply : w₁.supply = w.supply := by
  rcases enter_cases h with ⟨-, -, rfl⟩ | ⟨⟨_, rfl⟩, -⟩ <;> rfl

theorem validations_enter : w₁.tally.validations = w.tally.validations := by
  rcases enter_cases h with ⟨-, -, rfl⟩ | ⟨⟨_, rfl⟩, -⟩ <;> rfl

theorem solutions_enter : w₁.tally.solutions = w.tally.solutions := by
  rcases enter_cases h with ⟨-, -, rfl⟩ | ⟨⟨_, rfl⟩, -⟩ <;> rfl

end

theorem tally_enter (h : enter (ε := ε) c depth w = (.ok (), w₁)) :
    w₁.tally = w.tally.enter depth := by
  rcases enter_cases h with ⟨-, he, -⟩ | ⟨⟨_, rfl⟩, -⟩
  · cases he
  · rfl

theorem query_eq (j : Judge σ ε) (i : Nat) (v : Int) (w : Walk σ ρ) : query j i v w =
    ((j.ask w.board i v w.memory).1.mapError (.ofBreakdown w.board.listed),
      { w with tally := w.tally.tryValue, memory := (j.ask w.board i v w.memory).2 }) := by
  rw [query]
  dsimp only
  rcases j.ask w.board i v w.memory with ⟨_ | _, _⟩ <;> rfl

theorem query_cases {a : Except (SearchFault ε) Bool} (h : query j i v w = (a, w₁)) :
    ∃ memory, w₁ = { w with tally := w.tally.tryValue, memory := memory } := by
  rw [query_eq] at h
  cases h
  exact ⟨_, rfl⟩

section

variable {a : Except (SearchFault ε) Bool} (h : query j i v w = (a, w₁))

include h

theorem query_board : w₁.board = w.board := by
  obtain ⟨_, rfl⟩ := query_cases h
  rfl

theorem query_supply : w₁.supply = w.supply := by
  obtain ⟨_, rfl⟩ := query_cases h
  rfl

theorem tally_query : w₁.tally = w.tally.tryValue := by
  obtain ⟨_, rfl⟩ := query_cases h
  rfl

theorem validations_query : w₁.tally.validations = w.tally.validations + 1 := by
  rw [tally_query h, Tally.tryValue]

theorem solutions_query : w₁.tally.solutions = w.tally.solutions := by
  rw [tally_query h, Tally.tryValue]

theorem nodes_query : w₁.tally.nodes = w.tally.nodes := by
  rw [tally_query h, Tally.tryValue]

end

theorem validations_reached (g : Goal) (t : Tally) :
    (g.reached t).2.validations = t.validations := by
  cases g <;> rfl

theorem nodes_reached (g : Goal) (t : Tally) : (g.reached t).2.nodes = t.nodes := by
  cases g <;> rfl

@[simp] theorem Walk.board_put (w : Walk σ ρ) (i : Nat) (v : Option Int) :
    (w.put i v).board = w.board.put i v := rfl

@[simp] theorem Walk.tally_put (w : Walk σ ρ) (i : Nat) (v : Option Int) :
    (w.put i v).tally = w.tally := rfl

end Parts

/-! ## Runs -/

/-- What a search has before it: a frame for the given empty cells, or the
values still to be tried in cell `i`, before the cells that follow it. -/
inductive Job where
  | frame (cells : List Nat)
  | values (i : Nat) (cells : List Nat) (us : List Int)

/-- The empty cells that a job is about. -/
def Job.cells : Job → List Nat
  | frame cells => cells
  | values i cells _ => i :: cells

/-- The job begun at the first walk ends with the given result.  A frame is
`blocked` before it is entered, or it is a `leaf`, or it has no room for an order of
values (`undrawn`), or is `opened` with one.  Values are `spent`; or the judge is
`broken` or has `refused` the first of them; or it has accepted it, and then the search
has `failed` deeper down, ended there (`kept`, `cleared`), or come back for the next
value (`undone`). -/
inductive Runs (p : Plan σ ρ ε) : Job → Nat → Walk σ ρ → Step σ ρ ε → Prop
  | blocked {cells : List Nat} {depth : Nat} {w w₁ : Walk σ ρ} {e : SearchFault ε} :
      enter p.conditions depth w = (.error e, w₁) →
      Runs p (.frame cells) depth w (.error e, w₁)
  | leaf {depth : Nat} {w w₁ : Walk σ ρ} :
      enter (ε := ε) p.conditions depth w = (.ok (), w₁) →
      Runs p (.frame []) depth w
        (.ok (p.goal.reached w₁.tally).1, { w₁ with tally := (p.goal.reached w₁.tally).2 })
  | undrawn {i : Nat} {cells : List Nat} {depth : Nat} {w w₁ : Walk σ ρ} :
      enter (ε := ε) p.conditions depth w = (.ok (), w₁) →
      ¬ p.HasRoom →
      Runs p (.frame (i :: cells)) depth w (.error (.fault .lengthWidth), w₁)
  | opened {i : Nat} {cells : List Nat} {depth : Nat} {w w₁ : Walk σ ρ} {r : Step σ ρ ε} :
      enter (ε := ε) p.conditions depth w = (.ok (), w₁) →
      p.HasRoom →
      Runs p (.values i cells (p.supply.draw w₁.supply).1.toList) depth
        { w₁ with supply := (p.supply.draw w₁.supply).2 } r →
      Runs p (.frame (i :: cells)) depth w r
  | spent {i : Nat} {cells : List Nat} {depth : Nat} {w : Walk σ ρ} :
      Runs p (.values i cells []) depth w (.ok .proceed, w)
  | broken {i : Nat} {cells : List Nat} {v : Int} {us : List Int} {depth : Nat}
      {w w₁ : Walk σ ρ} {e : SearchFault ε} :
      query p.judge i v w = (.error e, w₁) →
      Runs p (.values i cells (v :: us)) depth w (.error e, w₁)
  | refused {i : Nat} {cells : List Nat} {v : Int} {us : List Int} {depth : Nat}
      {w w₁ : Walk σ ρ} {r : Step σ ρ ε} :
      query p.judge i v w = (.ok false, w₁) →
      Runs p (.values i cells us) depth w₁ r →
      Runs p (.values i cells (v :: us)) depth w r
  | failed {i : Nat} {cells : List Nat} {v : Int} {us : List Int} {depth : Nat}
      {w w₁ w₂ : Walk σ ρ} {e : SearchFault ε} :
      query p.judge i v w = (.ok true, w₁) →
      Runs p (.frame cells) (depth + 1) (w₁.put i (some v)) (.error e, w₂) →
      Runs p (.values i cells (v :: us)) depth w (.error e, w₂.put i none)
  | kept {i : Nat} {cells : List Nat} {v : Int} {us : List Int} {depth : Nat}
      {w w₁ w₂ : Walk σ ρ} :
      query p.judge i v w = (.ok true, w₁) →
      Runs p (.frame cells) (depth + 1) (w₁.put i (some v)) (.ok .stop, w₂) →
      p.goal.keeps = true →
      Runs p (.values i cells (v :: us)) depth w (.ok .stop, w₂)
  | cleared {i : Nat} {cells : List Nat} {v : Int} {us : List Int} {depth : Nat}
      {w w₁ w₂ : Walk σ ρ} :
      query p.judge i v w = (.ok true, w₁) →
      Runs p (.frame cells) (depth + 1) (w₁.put i (some v)) (.ok .stop, w₂) →
      p.goal.keeps = false →
      Runs p (.values i cells (v :: us)) depth w (.ok .stop, w₂.put i none)
  | undone {i : Nat} {cells : List Nat} {v : Int} {us : List Int} {depth : Nat}
      {w w₁ w₂ : Walk σ ρ} {r : Step σ ρ ε} :
      query p.judge i v w = (.ok true, w₁) →
      Runs p (.frame cells) (depth + 1) (w₁.put i (some v)) (.ok .proceed, w₂) →
      Runs p (.values i cells us) depth (w₂.put i none) r →
      Runs p (.values i cells (v :: us)) depth w r

section

variable {p : Plan σ ρ ε} {job : Job} {depth : Nat} {w : Walk σ ρ} {r : Step σ ρ ε}

/-! ## The relation is the search

Whatever the search computes has a derivation, and a derivation leaves no choice. -/

/-- What the search makes of a job. -/
def Job.exec (p : Plan σ ρ ε) : Job → Nat → Walk σ ρ → Step σ ρ ε
  | frame cells, depth, w => explore p cells depth w
  | values i cells us, depth, w =>
      tryValues (tryValue p (explore p cells (depth + 1)) i) us w

theorem explore_cons (p : Plan σ ρ ε) (i : Nat) (cells : List Nat) (depth : Nat)
    (w : Walk σ ρ) :
    explore p (i :: cells) depth w =
      match enter p.conditions depth w with
      | (.error e, w₁) => (.error e, w₁)
      | (.ok _, w₁) =>
        if p.conditions.lengthLimit < p.supply.listLength then
          (.error (.fault .lengthWidth), w₁)
        else
          (Job.values i cells (p.supply.draw w₁.supply).1.toList).exec p depth
            { w₁ with supply := (p.supply.draw w₁.supply).2 } := by
  rw [explore]
  rcases enter p.conditions depth w with ⟨_ | _, w₁⟩
  · rfl
  · dsimp only
    rw [tryOrder_eq_tryValues _ _ (Nat.le_refl _), Order.rest_count, Job.exec]

theorem runs_values {i : Nat} {cells : List Nat}
    (deeper : ∀ depth w, Runs p (.frame cells) depth w (explore p cells depth w))
    (us : List Int) (depth : Nat) (w : Walk σ ρ) :
    Runs p (.values i cells us) depth w ((Job.values i cells us).exec p depth w) := by
  induction us generalizing w with
  | nil => exact .spent
  | cons v us ih =>
      rw [Job.exec, tryValues, tryValue]
      rcases hq : query p.judge i v w with ⟨e | _ | _, w₁⟩
      · exact .broken hq
      · exact .refused hq (ih w₁)
      · have hd := deeper (depth + 1) (w₁.put i (some v))
        dsimp only
        rcases he : explore p cells (depth + 1) (w₁.put i (some v)) with ⟨e | _ | _, w₂⟩
        · rw [he] at hd
          exact .failed hq hd
        · rw [he] at hd
          exact .undone hq hd (ih (w₂.put i none))
        · rw [he] at hd
          cases hk : p.goal.keeps with
          | true =>
              simp only [leave, hk, if_true]
              exact .kept hq hd hk
          | false =>
              simp only [leave, hk, Bool.false_eq_true, if_false]
              exact .cleared hq hd hk

/-- Every frame has the run that the search computes. -/
theorem runs_explore (p : Plan σ ρ ε) (cells : List Nat) (depth : Nat) (w : Walk σ ρ) :
    Runs p (.frame cells) depth w (explore p cells depth w) := by
  induction cells generalizing depth w with
  | nil =>
      rw [explore]
      rcases he : enter p.conditions depth w with ⟨e | _, w₁⟩
      · exact .blocked he
      · exact .leaf he
  | cons i cells ih =>
      rw [explore_cons]
      rcases he : enter p.conditions depth w with ⟨e | _, w₁⟩
      · exact .blocked he
      · dsimp only
        split
        next hroom => exact .undrawn he (Nat.not_le.mpr hroom)
        next hroom => exact .opened he (Nat.le_of_not_lt hroom) (runs_values ih _ _ _)

/-- A job has no other run than the one that the search computes. -/
theorem Runs.eq_exec (h : Runs p job depth w r) : r = job.exec p depth w := by
  induction h with
  | @blocked cells _ _ _ _ he =>
      cases cells with
      | nil => rw [Job.exec, explore, he]
      | cons i cells => rw [Job.exec, explore_cons, he]
  | leaf he => rw [Job.exec, explore, he]
  | undrawn he hroom =>
      rw [Job.exec, explore_cons, he]
      exact (if_pos (Nat.lt_of_not_le hroom)).symm
  | opened he hroom _ ih =>
      rw [Job.exec, explore_cons, he, ih]
      exact (if_neg (Nat.not_lt.mpr hroom)).symm
  | spent => rfl
  | broken hq => simp only [Job.exec, tryValues, tryValue, hq]
  | refused hq _ ih =>
      rw [ih]
      simp only [Job.exec, tryValues, tryValue, hq]
  | failed hq _ ih =>
      rw [Job.exec] at ih
      simp only [Job.exec, tryValues, tryValue, hq, ← ih, leave]
  | kept hq _ hk ih =>
      rw [Job.exec] at ih
      simp only [Job.exec, tryValues, tryValue, hq, ← ih, leave, hk, if_true]
  | cleared hq _ hk ih =>
      rw [Job.exec] at ih
      simp only [Job.exec, tryValues, tryValue, hq, ← ih, leave, hk, Bool.false_eq_true,
        if_false]
  | undone hq _ _ ih ih' =>
      rw [Job.exec] at ih
      simp only [ih', Job.exec, tryValues, tryValue, hq, ← ih, leave]

theorem Runs.eq_explore {cells : List Nat} (h : Runs p (.frame cells) depth w r) :
    r = explore p cells depth w :=
  h.eq_exec

end

end GridFill.Search
