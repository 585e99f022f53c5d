/-
# `GridFill.Proofs.Search.Asked` — the queries of a search

A judge that keeps a list of the queries it answers (`Judge.recorded`) shows
what a search asks and in which order.  The list only grows, and the tally of
values tried grows with it, one for one (`Runs.asked_append`).

Keeping the list does not disturb the search.  In general, if one judge answers
as another does and their memories correspond, their searches are the same but
for the memory (`Judge.Simulates`, `run_simulates`).
-/
import GridFill.Proofs.Search.Pure
import GridFill.Proofs.Search.Simulate
import GridFill.Search.Basic

namespace GridFill.Search

variable {σ ρ ε τ υ : Type}

namespace Walk

/-- The queries answered so far, oldest first. -/
def asked (w : Walk (σ × Array Query) ρ) : List Query := w.memory.2.toList

/-- The same walk with another memory of the judge and another supply. -/
def carrying (w : Walk σ ρ) (m : τ) (x : υ) : Walk τ υ where
  board := w.board
  tally := w.tally
  memory := m
  supply := x
  reports := w.reports

/-- The same walk with another memory of the judge. -/
def withMemory (w : Walk σ ρ) (m : τ) : Walk τ ρ where
  board := w.board
  tally := w.tally
  memory := m
  supply := w.supply
  reports := w.reports

/-- The same walk with the memory of the judge seen in another way. -/
def mapMemory (f : σ → τ) (w : Walk σ ρ) : Walk τ ρ := w.withMemory (f w.memory)

/-- The walk with an empty list of queries beside the memory of its judge. -/
def recording (w : Walk σ ρ) : Walk (σ × Array Query) ρ := w.withMemory (w.memory, #[])

@[simp] theorem asked_put (w : Walk (σ × Array Query) ρ) (i : Nat) (v : Option Int) :
    (w.put i v).asked = w.asked := rfl

@[simp] theorem board_recording (w : Walk σ ρ) : w.recording.board = w.board := rfl

@[simp] theorem asked_recording (w : Walk σ ρ) : w.recording.asked = [] := rfl

end Walk

theorem answers_recorded {j : Judge σ ε} {test : Test} (hj : j.Answers test) :
    (j.recorded : Judge (σ × Array Query) ε).Answers test := by
  intro b i v s
  have ha := hj b i v s.1
  unfold Judge.recorded
  dsimp only
  rcases hask : j.ask b i v s.1 with ⟨a, m⟩
  rw [hask] at ha
  subst ha
  rfl

section

variable {j : Judge σ ε} {i : Nat} {v : Int} {c : Conditions} {depth : Nat}
  {w w₁ : Walk (σ × Array Query) ρ}

theorem asked_enter {a : Except (SearchFault ε) Unit} (he : enter c depth w = (a, w₁)) :
    w₁.asked = w.asked := by
  rw [Walk.asked, enter_memory he, Walk.asked]

theorem asked_query {a : Bool} (hq : query j.recorded i v w = (.ok a, w₁)) :
    w₁.asked = w.asked ++ [⟨i, v⟩] := by
  rw [query_eq, Judge.recorded] at hq
  dsimp only at hq
  rcases hask : j.ask w.board i v w.memory.1 with ⟨_ | a', m⟩
  · rw [hask] at hq
    cases hq
  · rw [hask] at hq
    cases hq
    simp [Walk.asked]

end

/-- From one walk to a later one, queries were added to the list and as many values
to the tally. -/
def Walk.Asks (w w₁ : Walk (σ × Array Query) ρ) : Prop :=
  ∃ qs, w₁.asked = w.asked ++ qs ∧ w₁.tally.validations = w.tally.validations + qs.length

section

variable {p : Plan (σ × Array Query) ρ ε} {job : Job} {depth : Nat}
  {w w₁ w₂ w₃ : Walk (σ × Array Query) ρ} {r : Step (σ × Array Query) ρ ε} {j : Judge σ ε}
  {test : Test}

theorem Walk.asks_of_eq (hasked : w₁.asked = w.asked)
    (hval : w₁.tally.validations = w.tally.validations) : w.Asks w₁ := by
  refine ⟨[], by rw [hasked, List.append_nil], ?_⟩
  rw [hval, List.length_nil, Int.natCast_zero, Int.add_zero]

theorem Walk.Asks.trans (h : w₁.Asks w₂) (h' : w₂.Asks w₃) : w₁.Asks w₃ := by
  obtain ⟨qs, hqs, hval⟩ := h
  obtain ⟨qs', hqs', hval'⟩ := h'
  refine ⟨qs ++ qs', ?_, ?_⟩
  · rw [hqs', hqs, List.append_assoc]
  · rw [hval', hval, List.length_append, Int.natCast_add, Int.add_assoc]

theorem along_asks (hp : p.judge = j.recorded) (hj : j.Answers test) : p.Along Walk.Asks where
  refl _ := Walk.asks_of_eq rfl rfl
  trans := Walk.Asks.trans
  enter he := Walk.asks_of_eq (asked_enter he) (validations_enter he)
  draw _ := Walk.asks_of_eq rfl rfl
  query {i v w a w₁} hq := by
    rw [hp] at hq
    cases a with
    | error e => exact absurd hq (answers_recorded hj).not_error
    | ok => exact ⟨[⟨i, v⟩], asked_query hq, validations_query hq⟩
  put _ _ _ := Walk.asks_of_eq rfl rfl
  reached _ := Walk.asks_of_eq rfl (validations_reached _ _)

/-- A run adds its queries to the list and as many to the tally. -/
theorem Runs.asked_append (h : Runs p job depth w r) (hp : p.judge = j.recorded)
    (hj : j.Answers test) :
    ∃ qs, r.2.asked = w.asked ++ qs ∧
      r.2.tally.validations = w.tally.validations + qs.length :=
  h.along (along_asks hp hj)

end

/-! ## Judges that answer alike

The memory of a judge may be seen in another way as long as the answers are the
same; the walks of both searches then differ in it only. -/

/-- The same plan with another judge. -/
def Plan.asking (p : Plan σ ρ ε) (j : Judge τ ε) : Plan τ ρ ε where
  judge := j
  supply := p.supply
  goal := p.goal
  conditions := p.conditions

/-- The second judge answers as the first one does, and its memory is that of
the first one seen through `f`. -/
def Judge.Simulates (f : σ → τ) (j : Judge σ ε) (j' : Judge τ ε) : Prop :=
  ∀ b i v s, j'.ask b i v (f s) = ((j.ask b i v s).1, f (j.ask b i v s).2)

theorem simulates_recorded (j : Judge σ ε) : j.recorded.Simulates Prod.fst j := by
  intro b i v s
  unfold Judge.recorded
  dsimp only
  rcases j.ask b i v s.1 with ⟨_ | _, _⟩ <;> rfl

theorem enter_carrying (c : Conditions) (depth : Nat) (w : Walk σ ρ) (m : τ) (x : υ) :
    enter (ε := ε) c depth (w.carrying m x) =
      ((enter c depth w).1, (enter (ε := ε) c depth w).2.carrying m x) := by
  refine Entering.eq_enter (w := w.carrying m x) ?_
  generalize he : enter (ε := ε) c depth w = r
  cases Entering.of_enter he with
  | blocked hd => exact .blocked hd
  | quiet hd hdue => exact .quiet hd hdue
  | never hd hk => exact .never hd hk
  | written hd hk hz hdue hcheck => exact .written hd hk hz hdue hcheck
  | unwritable hd hk hz hdue hcheck => exact .unwritable hd hk hz hdue hcheck

theorem enter_withMemory (c : Conditions) (depth : Nat) (w : Walk σ ρ) (m : τ) :
    enter (ε := ε) c depth (w.withMemory m) =
      ((enter c depth w).1, (enter (ε := ε) c depth w).2.withMemory m) := by
  have hsupply : (enter (ε := ε) c depth w).2.supply = w.supply := enter_supply rfl
  refine (enter_carrying c depth w m w.supply).trans ?_
  rw [Walk.withMemory, hsupply, Walk.carrying]

section

variable {f : σ → τ} {j : Judge σ ε} {j' : Judge τ ε} {c : Conditions} {depth i : Nat} {v : Int}
  {w w₁ : Walk σ ρ}

theorem enter_mapMemory {a : Except (SearchFault ε) Unit} (he : enter c depth w = (a, w₁)) :
    enter c depth (w.mapMemory f) = (a, w₁.mapMemory f) := by
  rw [Walk.mapMemory, enter_withMemory, he, Walk.mapMemory, enter_memory he]

theorem Judge.Simulates.query {a : Except (SearchFault ε) Bool} (hs : j.Simulates f j')
    (hq : query j i v w = (a, w₁)) : Search.query j' i v (w.mapMemory f) = (a, w₁.mapMemory f) := by
  have hask : j'.ask (w.mapMemory f).board i v (w.mapMemory f).memory = _ :=
    hs w.board i v w.memory
  rw [query_eq] at hq
  cases hq
  rw [query_eq, hask]
  rfl

variable {p : Plan σ ρ ε}

theorem Judge.Simulates.plan (hs : p.judge.Simulates f j') :
    p.Simulates (fun w w' => w' = w.mapMemory f) (p.asking j') where
  room := Iff.rfl
  enter hw he := ⟨_, by rw [hw]; exact enter_mapMemory he, rfl⟩
  draw hw := by
    subst hw
    exact ⟨rfl, rfl⟩
  query hw hq := ⟨_, by rw [hw]; exact hs.query hq, rfl⟩
  put _ _ hw := by rw [hw]; rfl
  reached hw := by
    subst hw
    exact ⟨rfl, rfl⟩
  keeps := rfl

theorem run_simulates (hs : p.judge.Simulates f j') (w : Walk σ ρ) :
    run (p.asking j') (w.mapMemory f) = ((run p w).1, (run p w).2.mapMemory f) := by
  obtain ⟨hanswer, hwalk⟩ := run_simulated hs.plan (w := w) rfl rfl
  rw [← hanswer, ← hwalk]

end

end GridFill.Search
