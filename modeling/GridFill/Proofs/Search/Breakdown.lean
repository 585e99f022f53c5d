/-
# `GridFill.Proofs.Search.Breakdown` — a judge that breaks down in the middle

Two searches are compared that differ in the judge only: the judge of the first
answers every query by a test, the judge of the second answers `n` queries in
the same way and breaks down at the next.  `Interrupted` says how their results
are related; at the end it is shown of all three searches.

Both runs go through the same jobs until the breakdown; that is the induction
(`Runs.interrupted`).  From there on the second only unwinds, in every frame by
the rule for a search that has failed deeper down, while the first may still go
a long way: of what it does later only its list of queries matters, which
cannot lose the `n` queries both have made.  That the second restores the board
needs no argument of its own (`Runs.restores`).
-/
import GridFill.Proofs.Search.Asked
import GridFill.Proofs.Search.Count
import GridFill.Proofs.Search.Fill

namespace GridFill.Search

variable {σ ρ ε α : Type}

/-- The walk of a judge that breaks down after some queries, at the moment when
it has answered those on the list. -/
def Walk.counted (w : Walk (σ × Array Query) ρ) : Walk ((σ × Array Query) × Nat) ρ :=
  w.withMemory (w.memory, w.asked.length)

@[simp] theorem Walk.board_counted (w : Walk (σ × Array Query) ρ) : w.counted.board = w.board :=
  rfl

/-- The plan with a judge that breaks down after `n` queries. -/
def Plan.failingAfter (n : Nat) (e : Breakdown ε) (p : Plan σ ρ ε) : Plan (σ × Nat) ρ ε :=
  p.asking (p.judge.failingAfter n e)

/-- How a search that breaks down at query `n + 1` is related to the same search
undisturbed, which is seen a second time with a list of its queries.  If it does
not come to that query it is the same; otherwise it fails with the breakdown, has
had the first `n` queries answered and has counted one more, and gives back the
board it began with. -/
structure Interrupted (n : Nat) (e : Breakdown ε) (w : Walk σ ρ)
    (plain : Except (SearchFault ε) α × Walk σ ρ)
    (clean : Except (SearchFault ε) α × Walk (σ × Array Query) ρ)
    (broken : Except (SearchFault ε) α × Walk ((σ × Array Query) × Nat) ρ) : Prop where
  undisturbed : plain = (clean.1, clean.2.mapMemory Prod.fst)
  counted : plain.2.tally.validations = w.tally.validations + clean.2.asked.length
  unreached : clean.2.asked.length ≤ n → broken = (clean.1, clean.2.counted)
  reached : n < clean.2.asked.length →
    broken.1 = .error (.ofBreakdown w.board.listed e) ∧
      broken.2.memory.1.2.toList = clean.2.asked.take n ∧
      broken.2.tally.validations = w.tally.validations + n + 1 ∧
      broken.2.board = w.board

/-! ## One step of both

The two judges are asked the same as long as the second has queries left; its
memory holds how many it has answered. -/

section

variable {n : Nat} {e : Breakdown ε} {i : Nat} {v : Int}
  {c : Conditions} {depth : Nat} {w w₁ : Walk (σ × Array Query) ρ}

theorem enter_counted {a : Except (SearchFault ε) Unit} (he : enter c depth w = (a, w₁)) :
    enter c depth w.counted = (a, w₁.counted) := by
  rw [Walk.counted, enter_withMemory, he, Walk.counted, enter_memory he, asked_enter he]

theorem ask_failingAfter_of_lt {j : Judge σ ε} {b : Board} {s : σ} {k : Nat} (h : k < n) :
    (j.failingAfter n e).ask b i v (s, k) =
      ((j.ask b i v s).1, ((j.ask b i v s).2, k + 1)) :=
  if_neg (Nat.not_le_of_lt h)

theorem ask_failingAfter_of_le {j : Judge σ ε} {b : Board} {s : σ} {k : Nat} (h : n ≤ k) :
    (j.failingAfter n e).ask b i v (s, k) = (.error e, (s, k)) :=
  if_pos h

theorem query_counted {j : Judge σ ε} {a : Bool} (hn : w.asked.length < n)
    (hq : query j.recorded i v w = (.ok a, w₁)) :
    query (j.recorded.failingAfter n e) i v w.counted = (.ok a, w₁.counted) := by
  have hcounted : w₁.counted = w₁.withMemory (w₁.memory, w.asked.length + 1) := by
    rw [Walk.counted, asked_query hq, List.length_append, List.length_singleton]
  have hask : (j.recorded.failingAfter n e).ask w.counted.board i v w.counted.memory = _ :=
    ask_failingAfter_of_lt hn
  rw [query_eq] at hq
  obtain ⟨hanswer, hwalk⟩ := Prod.mk.inj hq
  rw [query_eq, hask, hcounted, ← hwalk]
  exact Prod.ext hanswer rfl

theorem query_counted_eq {j : Judge (σ × Array Query) ε} (hn : w.asked.length = n) :
    query (j.failingAfter n e) i v w.counted =
      (.error (.ofBreakdown w.board.listed e),
        { w.counted with tally := w.tally.tryValue }) := by
  have hask : (j.failingAfter n e).ask w.counted.board i v w.counted.memory = _ :=
    ask_failingAfter_of_le (Nat.le_of_eq hn.symm)
  rw [query_eq, hask]
  rfl

end

/-! ## The runs side by side

As long as queries are left the two runs are in step (`InStep`).  Once the second
has broken down it only unwinds (`Broken`).  What it makes of a job is one or the
other, whatever comes of the job in the first run (`Follows`). -/

section

variable {p : Plan (σ × Array Query) ρ ε} {job : Job} {depth i n k : Nat} {cells : List Nat}
  {v base : Int} {us : List Int} {e : Breakdown ε} {w w₁ w₂ : Walk (σ × Array Query) ρ}
  {r : Step (σ × Array Query) ρ ε} {j : Judge σ ε} {test : Test}

/-- Where the two runs still go together: queries are left, and the tally shows
those made so far above some base. -/
structure InStep (n k : Nat) (base : Int) (job : Job) (w : Walk (σ × Array Query) ρ) : Prop where
  cells : w.board.emptyCells = job.cells
  listed : w.board.listed = k
  left : w.asked.length ≤ n
  tally : w.tally.validations = base + w.asked.length

theorem InStep.enter {a : Except (SearchFault ε) Unit} (h : InStep n k base job w)
    (he : enter p.conditions depth w = (a, w₁)) : InStep n k base job w₁ where
  cells := by rw [enter_board he]; exact h.cells
  listed := by rw [enter_board he]; exact h.listed
  left := by rw [asked_enter he]; exact h.left
  tally := by rw [asked_enter he, validations_enter he]; exact h.tally

section Query

variable {a : Bool} (h : InStep n k base (.values i cells (v :: us)) w)
  (hlt : w.asked.length < n) (hq : query j.recorded i v w = (.ok a, w₁))

include h hlt hq

theorem InStep.refused : InStep n k base (.values i cells us) w₁ where
  cells := by rw [query_board hq]; exact h.cells
  listed := by rw [query_board hq]; exact h.listed
  left := by
    rw [asked_query hq, List.length_append, List.length_singleton]
    exact hlt
  tally := by
    rw [asked_query hq, validations_query hq, List.length_append, List.length_singleton, h.tally]
    omega

theorem InStep.deeper : InStep n k base (.frame cells) (w₁.put i (some v)) where
  cells := emptyCells_put_some h.cells (query_board hq)
  listed := (h.refused hlt hq).listed
  left := (h.refused hlt hq).left
  tally := (h.refused hlt hq).tally

theorem InStep.back (hp : p.judge = j.recorded) (hj : j.Answers test)
    (hrun : Runs p (.frame cells) (depth + 1) (w₁.put i (some v)) (.ok .proceed, w₂))
    (hleft : w₂.asked.length ≤ n) : InStep n k base (.values i cells us) (w₂.put i none) where
  cells := by
    rw [hrun.board_back h.cells hq]
    exact h.cells
  listed := by
    rw [hrun.board_back h.cells hq]
    exact h.listed
  left := hleft
  tally := by
    obtain ⟨qs, hqs, hval⟩ := hrun.asked_append hp hj
    dsimp only at hqs hval
    rw [Walk.tally_put, Walk.asked_put, hval, hqs, (h.deeper hlt hq).tally, List.length_append]
    omega

end Query

/-- The second search has broken down: it has failed with the breakdown after
the first `n` of the queries `qs`, and the tally shows one value tried more. -/
def Broken (n : Nat) (e : Breakdown ε) (k : Nat) (base : Int) (qs : List Query)
    (r : Step ((σ × Array Query) × Nat) ρ ε) : Prop :=
  ∃ w, r = (.error (.ofBreakdown k e), w) ∧ n < qs.length ∧
    w.memory.1.2.toList = qs.take n ∧ w.tally.validations = base + n + 1

theorem Broken.append {r : Step ((σ × Array Query) × Nat) ρ ε} {qs : List Query}
    (h : Broken n e k base qs r) (qs' : List Query) : Broken n e k base (qs ++ qs') r := by
  obtain ⟨w, hr, hlt, hlog, htally⟩ := h
  refine ⟨w, hr, ?_, ?_, htally⟩
  · rw [List.length_append]
    omega
  · rw [hlog, List.take_append_of_le_length (Nat.le_of_lt hlt)]

theorem Broken.unwind {p : Plan ((σ × Array Query) × Nat) ρ ε}
    {w w₁ : Walk ((σ × Array Query) × Nat) ρ} {r : Step ((σ × Array Query) × Nat) ρ ε}
    {qs : List Query} (h : Broken n e k base qs r) (hq : query p.judge i v w = (.ok true, w₁))
    (hrun : Runs p (.frame cells) (depth + 1) (w₁.put i (some v)) r) :
    ∃ r', Runs p (.values i cells (v :: us)) depth w r' ∧ Broken n e k base qs r' := by
  obtain ⟨w₂, rfl, hbroken⟩ := h
  exact ⟨_, .failed hq hrun, _, rfl, hbroken⟩

/-- What the second run makes of a job that ends with `r` in the first. -/
def Follows (n : Nat) (e : Breakdown ε) (k : Nat) (base : Int) (r : Step (σ × Array Query) ρ ε)
    (r' : Step ((σ × Array Query) × Nat) ρ ε) : Prop :=
  r.2.asked.length ≤ n ∧ r' = (r.1, r.2.counted) ∨ Broken n e k base r.2.asked r'

theorem Runs.asked_values (h : Runs p (.values i cells (v :: us)) depth w r)
    (hp : p.judge = j.recorded) (hj : j.Answers test) :
    ∃ qs, r.2.asked = w.asked ++ ⟨i, v⟩ :: qs := by
  have hfirst : ∀ {w₁ : Walk (σ × Array Query) ρ} {a : Bool} {qs : List Query},
      query p.judge i v w = (.ok a, w₁) → r.2.asked = w₁.asked ++ qs →
      ∃ qs, r.2.asked = w.asked ++ ⟨i, v⟩ :: qs := by
    intro w₁ a qs hq hqs
    rw [hp] at hq
    rw [asked_query hq, List.append_assoc] at hqs
    exact ⟨qs, hqs⟩
  cases h with
  | broken hq =>
      rw [hp] at hq
      exact absurd hq (answers_recorded hj).not_error
  | refused hq hrest =>
      obtain ⟨qs, hqs, -⟩ := hrest.asked_append hp hj
      exact hfirst hq hqs
  | failed hq hrun | kept hq hrun | cleared hq hrun =>
      obtain ⟨qs, hqs, -⟩ := hrun.asked_append hp hj
      exact hfirst hq hqs
  | undone hq hrun hrest =>
      obtain ⟨qs, hqs, -⟩ := hrun.asked_append hp hj
      obtain ⟨qs', hqs', -⟩ := hrest.asked_append hp hj
      rw [Walk.asked_put] at hqs'
      dsimp only at hqs
      rw [hqs, Walk.asked_put, List.append_assoc] at hqs'
      exact hfirst hq hqs'

/-- When the queries are used up, the next one breaks the second run off. -/
theorem Runs.breaks (h : Runs p (.values i cells (v :: us)) depth w r)
    (hp : p.judge = j.recorded) (hj : j.Answers test)
    (hs : InStep n k base (.values i cells (v :: us)) w) (hn : w.asked.length = n) :
    ∃ r', Runs (p.failingAfter n e) (.values i cells (v :: us)) depth w.counted r' ∧
      Follows n e k base r r' := by
  obtain ⟨qs, hqs⟩ := h.asked_values hp hj
  refine ⟨_, .broken (query_counted_eq hn), .inr ⟨_, by rw [hs.listed], ?_, ?_, ?_⟩⟩
  · rw [hqs, List.length_append, List.length_cons]
    omega
  · rw [hqs, List.take_left' hn]
    rfl
  · show w.tally.validations + 1 = base + n + 1
    rw [hs.tally, hn]

theorem Plan.query_counted {a : Bool} (hp : p.judge = j.recorded) (hlt : w.asked.length < n)
    (hq : query j.recorded i v w = (.ok a, w₁)) :
    query (p.failingAfter n e).judge i v w.counted = (.ok a, w₁.counted) := by
  rw [Plan.failingAfter, Plan.asking, hp]
  exact Search.query_counted hlt hq

/-- The second run follows the first through every job. -/
theorem Runs.interrupted (h : Runs p job depth w r) (hp : p.judge = j.recorded)
    (hj : j.Answers test) (hs : InStep n k base job w) :
    ∃ r', Runs (p.failingAfter n e) job depth w.counted r' ∧ Follows n e k base r r' := by
  induction h with
  | blocked he => exact ⟨_, .blocked (enter_counted he), .inl ⟨(hs.enter he).left, rfl⟩⟩
  | leaf he => exact ⟨_, .leaf (enter_counted he), .inl ⟨(hs.enter he).left, rfl⟩⟩
  | undrawn he hroom =>
      exact ⟨_, .undrawn (enter_counted he) hroom, .inl ⟨(hs.enter he).left, rfl⟩⟩
  | opened he hroom _ ih =>
      have hs₁ := hs.enter he
      obtain ⟨r', hr', hout⟩ := ih ⟨hs₁.cells, hs₁.listed, hs₁.left, hs₁.tally⟩
      exact ⟨r', .opened (enter_counted he) hroom hr', hout⟩
  | spent => exact ⟨_, .spent, .inl ⟨hs.left, rfl⟩⟩
  | broken hq =>
      rw [hp] at hq
      exact absurd hq (answers_recorded hj).not_error
  | refused hq hrest ih =>
      rcases Nat.lt_or_eq_of_le hs.left with hlt | heq
      · rw [hp] at hq
        have hq' := p.query_counted (e := e) hp hlt hq
        obtain ⟨r', hr', hout⟩ := ih (hs.refused hlt hq)
        exact ⟨r', .refused hq' hr', hout⟩
      · exact (Runs.refused hq hrest).breaks hp hj hs heq
  | failed hq hrun ih =>
      rcases Nat.lt_or_eq_of_le hs.left with hlt | heq
      · rw [hp] at hq
        have hq' := p.query_counted (e := e) hp hlt hq
        obtain ⟨r', hr', ⟨hle, rfl⟩ | hbroken⟩ := ih (hs.deeper hlt hq)
        · exact ⟨_, .failed hq' hr', .inl ⟨hle, rfl⟩⟩
        · obtain ⟨r', hrun', hbroken'⟩ := hbroken.unwind hq' hr'
          exact ⟨r', hrun', .inr hbroken'⟩
      · exact (Runs.failed hq hrun).breaks hp hj hs heq
  | kept hq hrun hk ih =>
      rcases Nat.lt_or_eq_of_le hs.left with hlt | heq
      · rw [hp] at hq
        have hq' := p.query_counted (e := e) hp hlt hq
        obtain ⟨r', hr', ⟨hle, rfl⟩ | hbroken⟩ := ih (hs.deeper hlt hq)
        · exact ⟨_, .kept hq' hr' hk, .inl ⟨hle, rfl⟩⟩
        · obtain ⟨r', hrun', hbroken'⟩ := hbroken.unwind hq' hr'
          exact ⟨r', hrun', .inr hbroken'⟩
      · exact (Runs.kept hq hrun hk).breaks hp hj hs heq
  | cleared hq hrun hk ih =>
      rcases Nat.lt_or_eq_of_le hs.left with hlt | heq
      · rw [hp] at hq
        have hq' := p.query_counted (e := e) hp hlt hq
        obtain ⟨r', hr', ⟨hle, rfl⟩ | hbroken⟩ := ih (hs.deeper hlt hq)
        · exact ⟨_, .cleared hq' hr' hk, .inl ⟨hle, rfl⟩⟩
        · obtain ⟨r', hrun', hbroken'⟩ := hbroken.unwind hq' hr'
          exact ⟨r', hrun', .inr hbroken'⟩
      · exact (Runs.cleared hq hrun hk).breaks hp hj hs heq
  | undone hq hrun hrest ih ih' =>
      rcases Nat.lt_or_eq_of_le hs.left with hlt | heq
      · rw [hp] at hq
        have hq' := p.query_counted (e := e) hp hlt hq
        obtain ⟨r', hr', ⟨hle, rfl⟩ | hbroken⟩ := ih (hs.deeper hlt hq)
        · obtain ⟨r', hrest', hout⟩ := ih' (hs.back hlt hq hp hj hrun hle)
          exact ⟨r', .undone hq' hr' hrest', hout⟩
        · -- the first run goes on, which can only add to its queries
          obtain ⟨qs, hqs, -⟩ := hrest.asked_append hp hj
          have hlater := hbroken.append qs
          dsimp only [Walk.asked_put] at hlater hqs
          rw [← hqs] at hlater
          obtain ⟨r', hrun', hlater'⟩ := hlater.unwind hq' hr'
          exact ⟨r', hrun', .inr hlater'⟩
      · exact (Runs.undone hq hrun hrest).breaks hp hj hs heq

end

/-! ## Whole searches

The outcome of a run is the outcome of the search, and a limit that is refused is
refused by both before any query. -/

section

variable {j : Judge σ ε} {test : Test} {n : Nat} {e : Breakdown ε}

theorem run_interrupted (n : Nat) (e : Breakdown ε) (p : Plan σ ρ ε)
    (hj : p.judge.Answers test) (w : Walk σ ρ) :
    Interrupted n e w (run p w) (run (p.asking p.judge.recorded) w.recording)
      (run (p.asking (p.judge.recorded.failingAfter n e)) w.recording.counted) := by
  have hsame : run p w = _ := run_simulates (p := p.asking p.judge.recorded)
    (simulates_recorded p.judge) w.recording
  have hs : InStep n w.board.listed w.tally.validations (.frame w.board.emptyCells)
      w.recording := ⟨rfl, rfl, Nat.zero_le n, (Int.add_zero _).symm⟩
  have hclean := runs_explore (p.asking p.judge.recorded) w.board.emptyCells 0 w.recording
  obtain ⟨qs, hqs, hval⟩ := hclean.asked_append rfl hj
  obtain ⟨r', hr', hout⟩ := hclean.interrupted (e := e) rfl hj hs
  have hrun : run (p.asking (p.judge.recorded.failingAfter n e)) w.recording.counted = r' :=
    hr'.eq_explore.symm
  rw [Walk.asked_recording, List.nil_append] at hqs
  rw [hrun]
  refine ⟨hsame, ?_, ?_, ?_⟩
  · rw [hsame]
    exact hval.trans (congrArg _ (congrArg _ (congrArg _ hqs.symm)))
  · rintro hle
    rcases hout with ⟨-, hsame⟩ | ⟨w', rfl, hlt, -⟩
    · exact hsame
    · exact absurd hle (Nat.not_le.mpr hlt)
  · rintro hlt
    rcases hout with ⟨hle, -⟩ | ⟨w', rfl, -, hlog, htally⟩
    · exact absurd hlt (Nat.not_lt.mpr hle)
    · exact ⟨rfl, hlog, htally, hr'.restores rfl (by rintro ⟨⟩)⟩

theorem Interrupted.map {β : Type} {w : Walk σ ρ} {plain : Except (SearchFault ε) α × Walk σ ρ}
    {clean : Except (SearchFault ε) α × Walk (σ × Array Query) ρ}
    {broken : Except (SearchFault ε) α × Walk ((σ × Array Query) × Nat) ρ}
    (h : Interrupted n e w plain clean broken) (verdict : α → Tally → β) :
    Interrupted n e w (plain.1.map (verdict · plain.2.tally), plain.2)
      (clean.1.map (verdict · clean.2.tally), clean.2)
      (broken.1.map (verdict · broken.2.tally), broken.2) where
  undisturbed := by
    rw [h.undisturbed]
    rfl
  counted := h.counted
  unreached hle := by
    rw [h.unreached hle]
    rfl
  reached hlt := by
    obtain ⟨hfail, hrest⟩ := h.reached hlt
    refine ⟨?_, hrest⟩
    rw [hfail]
    rfl

theorem fill_interrupted (n : Nat) (e : Breakdown ε) (hj : j.Answers test) (c : Conditions)
    (s : Supply ρ) (w : Walk σ ρ) :
    Interrupted n e w (fill j c s w) (fill j.recorded c s w.recording)
      (fill (j.recorded.failingAfter n e) c s w.recording.counted) := by
  have hrun := run_interrupted n e (.filling j c s) hj w
  rw [fill_eq_map, fill_eq_map, fill_eq_map]
  exact hrun.map fun a _ => decide (a = .stop)

theorem countCompletions_interrupted (n : Nat) (e : Breakdown ε) (hj : j.Answers test)
    (c : Conditions) {limit : Limit} {w : Walk σ Unit} {m : Nat}
    (hm : limit.resolve w.board = .ok m) :
    Interrupted n e w (countCompletions j c limit w)
      (countCompletions j.recorded c limit w.recording)
      (countCompletions (j.recorded.failingAfter n e) c limit w.recording.counted) := by
  have hrun := run_interrupted n e (.counting j c m w.tally.solutions) hj w
  rw [countCompletions_eq_map hm, countCompletions_eq_map (w := w.recording) hm,
    countCompletions_eq_map (w := w.recording.counted) hm]
  exact hrun.map fun _ => Completions.since w.tally.solutions

theorem interrupted_refused (n : Nat) (e : Breakdown ε) (f : SearchFault ε) (w : Walk σ ρ) :
    Interrupted (α := α) n e w (.error f, w) (.error f, w.recording)
      (.error f, w.recording.counted) where
  undisturbed := rfl
  counted := (Int.add_zero _).symm
  unreached _ := rfl
  reached hlt := absurd hlt (Nat.not_lt_zero n)

end

/-- Whichever query of whichever search the judge breaks down at, the search is
the undisturbed one up to that query and leaves the board as it was. -/
theorem searches_interrupted (test : Test) (n : Nat) (e : Breakdown ε) (c : Conditions)
    (limit : Limit) :
    let j : Judge σ ε := .ofTest test
    (∀ w : Walk σ Unit, Interrupted n e w (solve j c limit w)
      (solve j.recorded c limit w.recording)
      (solve (j.recorded.failingAfter n e) c limit w.recording.counted)) ∧
    (∀ w : Walk σ Twister, Interrupted n e w (randomSolve j c limit w)
      (randomSolve j.recorded c limit w.recording)
      (randomSolve (j.recorded.failingAfter n e) c limit w.recording.counted)) ∧
    (∀ w : Walk σ Unit, Interrupted n e w (countCompletions j c limit w)
      (countCompletions j.recorded c limit w.recording)
      (countCompletions (j.recorded.failingAfter n e) c limit w.recording.counted)) := by
  have hj := answers_ofTest (σ := σ) (ε := ε) test
  refine ⟨fun w => ?_, fun w => ?_, fun w => ?_⟩
  · simp only [solve, Walk.board_counted, Walk.board_recording]
    cases limit.resolve w.board with
    | error f => exact interrupted_refused n e (.fault f) w
    | ok m => exact fill_interrupted n e hj c _ w
  · simp only [randomSolve, Walk.board_counted, Walk.board_recording]
    cases limit.resolve w.board with
    | error f => exact interrupted_refused n e (.fault f) w
    | ok m => exact fill_interrupted n e hj c _ w
  · cases hm : limit.resolve w.board with
    | error f =>
        simp only [countCompletions, Walk.board_counted, Walk.board_recording, hm]
        exact interrupted_refused n e (.fault f) w
    | ok m => exact countCompletions_interrupted n e hj c hm

example : (solve (ε := Unit)
    ((Judge.ofTest Rules.rowUnique.allows).recorded.failingAfter 1 (.raised ())) {} (.given 3)
      clashing.recording.counted).1 = .error (.raised ()) := rfl

end GridFill.Search
