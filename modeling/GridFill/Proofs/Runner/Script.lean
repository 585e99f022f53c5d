/-
# `GridFill.Proofs.Runner.Script` — scripts that come to an end

A script says something and may fail between two sayings.  `Script.Ends` relates the
transcript at the beginning to the answer and the transcript at the end, and there is
one lemma per kind of step, so that a script which ended can be read from its last
line back to its first.  For the script that solves a puzzle this is done once
(`ends_solvePuzzle`): it lists every answer the script got on its way, and what it
had said in the end.
-/
import GridFill.Runner.Solve

namespace GridFill.Runner

open Search

variable {σ ρ ε α β : Type}

namespace Script

/-- A script comes to an end with the answer `a` and the transcript `t'`. -/
def Ends (x : Script ε α) (t : Transcript) (a : α) (t' : Transcript) : Prop :=
  (ExceptT.run x).run t = (.ok a, t')

section

variable {t t' : Transcript} {a b : α}

@[simp] theorem ends_pure : (pure a : Script ε α).Ends t b t' ↔ b = a ∧ t' = t := by
  constructor
  · intro h
    cases h
    exact ⟨rfl, rfl⟩
  · rintro ⟨rfl, rfl⟩
    rfl

/-- Two scripts in a row. -/
theorem ends_bind {x : Script ε α} {f : α → Script ε β} {b : β} :
    (x >>= f).Ends t b t' ↔ ∃ a t₁, x.Ends t a t₁ ∧ (f a).Ends t₁ b t' := by
  unfold Ends
  -- running `x` gives a result and a transcript, and `f` goes on from both
  show (ExceptT.bindCont f ((ExceptT.run x).run t).1).run ((ExceptT.run x).run t).2 = _ ↔ _
  rcases (ExceptT.run x).run t with ⟨e | a, t₁⟩
  · constructor
    · intro h
      cases h
    · rintro ⟨a, t₁, h, -⟩
      cases h
  · constructor
    · intro h
      exact ⟨a, t₁, rfl, h⟩
    · rintro ⟨a', t₁', h, hf⟩
      cases h
      exact hf

@[simp] theorem ends_say {f : Transcript → Transcript} {u : Unit} :
    (say f : Script ε Unit).Ends t u t' ↔ t' = f t := by
  constructor
  · intro h
    cases h
    rfl
  · rintro rfl
    rfl

@[simp] theorem ends_note {ls : List String} {u : Unit} :
    (note ls : Script ε Unit).Ends t u t' ↔ t' = ls.foldl (fun t l => t.note l) t := ends_say

@[simp] theorem ends_lift {r : Except Fault α} :
    (lift r : Script ε α).Ends t a t' ↔ r = .ok a ∧ t' = t := by
  cases r with
  | ok b =>
      constructor
      · intro h
        cases h
        exact ⟨rfl, rfl⟩
      · rintro ⟨h, rfl⟩
        cases h
        rfl
  | error f =>
      constructor
      · intro h
        cases h
      · rintro ⟨h, -⟩
        cases h

@[simp] theorem ends_follow {r : Except (SearchFault ε) α × Walk σ ρ} {w : Walk σ ρ} :
    (follow r).Ends t (a, w) t' ↔ r = (.ok a, w) ∧ t' = t.report w.reports := by
  rcases r with ⟨e | b, w'⟩
  · constructor
    · intro h
      cases h
    · rintro ⟨h, -⟩
      cases h
  · constructor
    · intro h
      cases h
      exact ⟨rfl, rfl⟩
    · rintro ⟨h, rfl⟩
      cases h
      rfl

end

end Script

/-! ## Transcripts that have grown

What a step says is added at the end, both of the log and of what is shown. -/

/-- The transcript `t'` is `t` with more log entries and more lines shown. -/
structure Adds (t t' : Transcript) (log : List Entry) (shown : List String) : Prop where
  log : t'.log.toList = t.log.toList ++ log
  shown : t'.shown.toList = t.shown.toList ++ shown

section

variable {t t₁ t₂ : Transcript} {log log' : List Entry} {shown shown' : List String}

theorem Adds.trans (h : Adds t t₁ log shown) (h' : Adds t₁ t₂ log' shown') :
    Adds t t₂ (log ++ log') (shown ++ shown') where
  log := by rw [h'.log, h.log, List.append_assoc]
  shown := by rw [h'.shown, h.shown, List.append_assoc]

theorem adds_note (text : String) : Adds t (t.note text) [.line text] [] :=
  ⟨Array.toList_push, (List.append_nil _).symm⟩

theorem adds_enter (e : Entry) : Adds t (t.enter e) [e] [] :=
  ⟨Array.toList_push, (List.append_nil _).symm⟩

theorem adds_report (rs : Array Report) :
    Adds t (t.report rs) (rs.toList.map .progress) [] where
  log := by
    rw [Transcript.report, Array.toList_append, Array.toList_map]
  shown := (List.append_nil _).symm

theorem adds_announce (text : String) : Adds t (t.announce text) [.line text] [text] :=
  ⟨Array.toList_push, Array.toList_push⟩

theorem adds_foldl_note (ls : List String) :
    Adds t (ls.foldl (fun t l => t.note l) t) (ls.map .line) [] := by
  induction ls generalizing t with
  | nil => exact ⟨(List.append_nil _).symm, (List.append_nil _).symm⟩
  | cons l ls ih => exact (adds_note l).trans ih

end

/-! ## Solving a puzzle

The script is read in three parts that follow one another: up to the end of the
first search, what is said of its solution, and the second search. -/

/-- The log of a puzzle up to the end of its search. -/
def searchLog (s : Settings) (p : Puzzle) (grid : String) (w : Walk σ ρ) : List Entry :=
  (heading p ++ details p ++ [settingsLine s, "Initial grid:", grid, ""]).map .line ++
    .started :: (w.reports.toList.map .progress ++ [.finished w.tally])

/-- The lines about a solution: the filled board, and a warning if it is not won. -/
def solutionLines (text : String) (won : Bool) : List String :=
  text :: if won then [] else [warning]

/-- The line that says whether a solution is the only one. -/
def uniqueLine (unique : Bool) : String :=
  s!"Unique solution: {showBool unique}"

/-- The circumstances of the searches of a run. -/
def conditions (s : Settings) (machine : Machine) : Conditions := machine.reporting s.reportInterval

/-- The last part of solving a puzzle: whether the solution is the only one. -/
def sayUnique (s : Settings) (j : Judge σ ε) (memory : σ) (p : Puzzle) (machine : Machine) :
    Script ε Bool := do
  let fresh ← Script.lift p.board
  let (n, _) ← Script.follow
    (countCompletions j (conditions s machine) (.given p.maxValue) (startOn fresh memory))
  Script.say (Transcript.announce (uniqueLine !n.multiple))
  return true

/-- The part of solving a puzzle that follows a search which found a solution. -/
def saySolution (s : Settings) (j : Judge σ ε) (p : Puzzle) (machine : Machine)
    (w : Walk σ Unit) : Script ε Bool := do
  let solution ← Script.lift (w.board.text machine.digitLimit)
  Script.say fun t => (t.note "Solution found!").announce solution
  unless ← Script.lift (p.rules.wins w.board) do
    Script.say (Transcript.announce warning)
  sayUnique s j w.memory p machine

section

variable {s : Settings} {j : Judge σ ε} {memory : σ} {p : Puzzle} {machine : Machine}
  {t t' : Transcript} {solved : Bool}

theorem ends_sayUnique {b : Board} (hb : p.board = .ok b)
    (h : (sayUnique s j memory p machine).Ends t solved t') :
    solved = true ∧ ∃ n w,
      countCompletions j (conditions s machine) (.given p.maxValue) (startOn b memory) =
        (.ok n, w) ∧
      Adds t t' (w.reports.toList.map .progress ++ [.line (uniqueLine !n.multiple)])
        [uniqueLine !n.multiple] := by
  unfold sayUnique at h
  simp only [Script.ends_bind, Script.ends_lift, Script.ends_follow, Script.ends_say,
    Script.ends_pure, Prod.exists] at h
  obtain ⟨fresh, -, ⟨hfresh, rfl⟩, n, w, -, ⟨hcount, rfl⟩, -, -, rfl, hsolved, rfl⟩ := h
  cases hb.symm.trans hfresh
  exact ⟨hsolved, n, w, hcount, (adds_report w.reports).trans (adds_announce _)⟩

theorem ends_saySolution {b : Board} {w : Walk σ Unit} (hb : p.board = .ok b)
    (h : (saySolution s j p machine w).Ends t solved t') :
    solved = true ∧ ∃ text won n w', w.board.text machine.digitLimit = .ok text ∧
      p.rules.wins w.board = .ok won ∧
      countCompletions j (conditions s machine) (.given p.maxValue) (startOn b w.memory) =
        (.ok n, w') ∧
      Adds t t'
        (("Solution found!" :: solutionLines text won).map .line ++
          (w'.reports.toList.map .progress ++ [.line (uniqueLine !n.multiple)]))
        (solutionLines text won ++ [uniqueLine !n.multiple]) := by
  unfold saySolution at h
  simp only [Script.ends_bind, Script.ends_lift, Script.ends_say] at h
  obtain ⟨text, t₀, ⟨htext, rfl⟩, -, t₁, rfl, won, -, ⟨hwon, rfl⟩, h⟩ := h
  have hfound : Adds t₀ ((t₀.note "Solution found!").announce text)
      (["Solution found!", text].map .line) [text] :=
    (adds_note _).trans (adds_announce text)
  -- the warning is one more step before the last part
  cases won with
  | true =>
      obtain ⟨hsolved, n, w', hcount, hadds⟩ := ends_sayUnique hb h
      exact ⟨hsolved, text, true, n, w', htext, hwon, hcount, hfound.trans hadds⟩
  | false =>
      rw [if_neg Bool.false_ne_true, Script.ends_bind] at h
      obtain ⟨_, t₂, hwarn, h⟩ := h
      rw [Script.ends_say] at hwarn
      obtain ⟨hsolved, n, w', hcount, hadds⟩ := ends_sayUnique hb h
      subst hwarn
      have hwarned := hfound.trans (adds_announce warning)
      exact ⟨hsolved, text, false, n, w', htext, hwon, hcount, hwarned.trans hadds⟩

/-- What a script that solved a puzzle has asked on its way, and what it has said:
without a solution nothing is shown, and with one first its lines and then, after a
second search, whether it is the only one. -/
theorem ends_solvePuzzle (h : (solvePuzzle s j memory p machine).Ends t solved t') :
    ∃ b grid w, p.board = .ok b ∧ b.text machine.digitLimit = .ok grid ∧
      solve j (conditions s machine) (.given p.maxValue) (startOn b memory) = (.ok solved, w) ∧
      (solved = false →
        Adds t t' (searchLog s p grid w ++ [.line "No solution found."]) []) ∧
      (solved = true → ∃ text won n w', w.board.text machine.digitLimit = .ok text ∧
        p.rules.wins w.board = .ok won ∧
        countCompletions j (conditions s machine) (.given p.maxValue) (startOn b w.memory) =
          (.ok n, w') ∧
        Adds t t'
          (searchLog s p grid w ++ (("Solution found!" :: solutionLines text won).map .line ++
            (w'.reports.toList.map .progress ++ [.line (uniqueLine !n.multiple)])))
          (solutionLines text won ++ [uniqueLine !n.multiple])) := by
  unfold solvePuzzle at h
  simp only [Script.ends_bind, Script.ends_say, Script.ends_note, Script.ends_lift,
    Script.ends_follow, Prod.exists, exists_eq_left] at h
  -- the answers the script got on its way; what it wrote had few enough digits
  obtain ⟨-, -, -, ⟨-, rfl⟩, -, -, -, ⟨-, rfl⟩, -, b, t₁, ⟨hb, rfl⟩, -, grid, t₂, ⟨hgrid, rfl⟩,
    -, found, w, t₃, ⟨hsolve, rfl⟩, -, -, ⟨-, rfl⟩, -, h⟩ := h
  have hsearch := (adds_foldl_note (t := t) (heading p)).trans <|
    (adds_foldl_note (details p)).trans <| (adds_foldl_note [settingsLine s]).trans <|
    (adds_foldl_note ["Initial grid:"]).trans <| (adds_note grid).trans <|
    (adds_note "").trans <| (adds_enter .started).trans <|
    (adds_report w.reports).trans (adds_enter (.finished w.tally))
  have hlog : (heading p).map Entry.line ++ ((details p).map .line ++
      ([settingsLine s].map .line ++ (["Initial grid:"].map .line ++ ([.line grid] ++
      ([.line ""] ++ ([.started] ++ (w.reports.toList.map .progress ++ [.finished w.tally]))))))) =
      searchLog s p grid w := by
    simp [searchLog]
  rw [hlog] at hsearch
  refine ⟨b, grid, w, hb, hgrid, ?_⟩
  cases found with
  | false =>
      rw [if_pos (by rfl)] at h
      simp only [Script.ends_bind, Script.ends_note, Script.ends_pure] at h
      obtain ⟨-, -, rfl, rfl, rfl⟩ := h
      refine ⟨hsolve, fun _ => hsearch.trans (adds_foldl_note _), ?_⟩
      rintro ⟨⟩
  | true =>
      rw [if_neg (by simp)] at h
      obtain ⟨rfl, text, won, n, w', htext, hwon, hcount, hadds⟩ :=
        ends_saySolution (s := s) (j := j) (w := w) hb h
      refine ⟨hsolve, ?_, fun _ => ⟨text, won, n, w', htext, hwon, hcount, hsearch.trans hadds⟩⟩
      rintro ⟨⟩

end

end GridFill.Runner
