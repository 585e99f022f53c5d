/-
# `GridFill.Proofs.Runner.Verdict` — what is said about a puzzle is true

Solving a puzzle makes two searches on two boards, and what is said in the end
mixes the answers of both with a look at the finished board.  Seen from the grid
there is one set that decides everything: its completions.  The first search finds
out whether there is one and fills in the least, the second whether there are two,
and both agree because they start from equal boards (`solvePuzzle_verdict`).

The finished board breaks the rules only if its givens do, since every value placed
was compared with all its peers.  So the warning is never given for the permissive
rules, and for rows and columns it is given exactly when two givens clash.
-/
import GridFill.Proofs.Puzzle.Board
import GridFill.Proofs.Rules.Givens
import GridFill.Proofs.Runner.Script

namespace GridFill

open Search

/-! ## Clashing cells

Two cells clash when they are peers with the same value; that none do is what the
givens have to be for a filled board to win. -/

/-- Two cells that are peers hold the same value. -/
def Rules.Clash (r : Rules) (b : Board) : Prop :=
  ∃ i j, ∃ v : Int, i ≠ j ∧ b.value i = some v ∧ b.value j = some v ∧ r.Peers b i j

theorem Rules.clash_iff {r : Rules} {b : Board} (hb : b.Rectangular) :
    r.Clash b ↔ ¬ r.Apart b.filledCells b := by
  constructor
  · rintro ⟨i, j, v, hne, hi, hj, hpeers⟩ hapart
    have hfilled : i ∈ b.filledCells := by
      refine Board.mem_filledCells.mpr ⟨?_, ?_⟩
      · rw [hb.listed]
        exact Board.lt_size_of_value_eq_some hi
      · rw [hi]
        exact Option.some_ne_none v
    exact hapart i hfilled j (Board.lt_size_of_value_eq_some hj) hne.symm hpeers
      (hi.trans hj.symm)
  · intro h
    unfold Apart at h
    push Not at h
    obtain ⟨i, hi, j, -, hne, hpeers, heq⟩ := h
    obtain ⟨v, hv⟩ := Option.ne_none_iff_exists'.mp (Board.mem_filledCells.mp hi).2
    exact ⟨i, j, v, hne.symm, hv, heq ▸ hv, hpeers⟩

namespace Runner

open Puzzle (resolve_maxValue)

variable {σ ε : Type}

/-! ## The two searches

Both start from the same board, so what they say is said of one set of completions. -/

section

variable {d : Draft} {p : Puzzle} {b : Board} {c : Conditions} {memory : σ} {w : Walk σ Unit}

theorem solve_puzzle (hp : Draft.Checked d p) {found : Bool}
    (h : solve (.ofRules p.rules : Judge σ ε) c (.given p.maxValue) (startOn b memory) =
      (.ok found, w)) :
    (found = true ↔ ∃ vs, IsCompletion p.rules.allows p.maxValue b vs) ∧
      (found = true → ∃ vs, IsLeast {vs | IsCompletion p.rules.allows p.maxValue b vs} vs ∧
        b.FilledWith vs w.board) := by
  have hm := resolve_maxValue (b := b) hp
  rw [solve_eq_fill (w := startOn b memory) hm] at h
  have hr := congrArg Prod.fst h
  have houtcome := fill_outcome (answers_ofRules p.rules) (draws_ascending p.maxValue)
    (startOn b memory) (.inr (Nat.zero_le _)) (not_outOfStack_of_ok hr) (not_reportFailed_of_ok hr)
  rw [h] at houtcome
  rcases houtcome with ⟨hr, vs, hvs, hfilled, hfirst⟩ | ⟨hr, hnone, -⟩
  · cases hr
    refine ⟨⟨fun _ => ⟨vs, hvs⟩, fun _ => rfl⟩, fun _ => ⟨vs, ⟨hvs, ?_⟩, hfilled⟩⟩
    intro us hus
    rcases hfirst us hus with rfl | hlt
    · exact le_refl us
    · exact le_of_lt hlt
  · cases hr
    refine ⟨⟨?_, ?_⟩, ?_⟩
    · rintro ⟨⟩
    · rintro ⟨vs, hvs⟩
      exact absurd hvs (hnone vs)
    · rintro ⟨⟩

theorem count_puzzle (hp : Draft.Checked d p) {n : Completions}
    (h : countCompletions (.ofRules p.rules : Judge σ ε) c (.given p.maxValue)
      (startOn b memory) = (.ok n, w)) :
    n.multiple = true ↔ {vs | IsCompletion p.rules.allows p.maxValue b vs}.Nontrivial := by
  have hm := resolve_maxValue (b := b) hp
  have hr := congrArg Prod.fst h
  obtain ⟨hcount, -, -⟩ := countCompletions_outcome (w := startOn b memory)
    (answers_ofRules p.rules) hm (not_outOfStack_of_ok hr) (not_reportFailed_of_ok hr)
  rw [h] at hcount
  cases hcount
  have hfin := (finite_setOf_isCompletion p.rules.allows p.maxValue
    (startOn b memory).board).to_subtype
  exact decide_eq_true_iff.trans Set.one_lt_ncard_iff_nontrivial

theorem wins_puzzle (hp : Draft.Checked d p) (hb : p.board = .ok b) {b' : Board}
    {vs : List Int} (hvs : IsCompletion p.rules.allows p.maxValue b vs)
    (hfilled : b.FilledWith vs b') {won : Bool} (hwon : p.rules.wins b' = .ok won) :
    (p.rules = .permissive → won = true) ∧
      (p.rules = .rowUnique ∨ p.rules = .latin → (won = false ↔ p.rules.Clash b)) := by
  have hrect := (Puzzle.hasRows_of_board hb).rectangular
  have hnonneg (i : Nat) (v : Int) (hv : b.value i = some v) : 0 ≤ v := by
    have hbounds := Puzzle.value_bounds hp hb hv
    omega
  have hext : p.rules.IsExtension p.maxValue b b' :=
    (Rules.isExtension_iff hrect).mpr ⟨vs, hvs, hfilled⟩
  have hdecides (hfits : p.rules.Fits p.maxValue b) :
      won = true ↔ p.rules.Apart b.filledCells b :=
    (hext.decides_wins hrect hfits).sound won hwon
  constructor
  · intro hr
    rw [hr] at hdecides
    exact (hdecides trivial).mpr fun _ _ _ _ _ hpeers => hpeers.elim
  · intro hr
    have hfits : p.rules.Fits p.maxValue b := by
      rcases hr with hr | hr
      · rw [hr]
        exact hnonneg
      · rw [hr]
        exact hnonneg
    rw [Rules.clash_iff hrect, ← hdecides hfits, Bool.not_eq_true]

end

/-! ## The verdict

A run that ended has its answers from searches that ended, and said what follows
from them. -/

/-- A run that solves a puzzle, on any machine, and ends without an error tells the
truth.  It answers whether the grid has a completion; if there is none, it shows nothing.
Otherwise it shows the least completion, a warning if that is no win, and whether it
is the only one.  The same lines are in the log. -/
theorem solvePuzzle_verdict (s : Settings) (machine : Machine) (memory : σ) (d : Draft)
    (p : Puzzle) (hp : d.check = .ok p) (solved : Bool) (t : Transcript)
    (hrun : (solvePuzzle s (.ofRules p.rules : Judge σ ε) memory p machine).run =
      (.ok solved, t)) :
    ∃ b grid, ∃ w : Walk σ Unit, p.board = .ok b ∧ b.text machine.digitLimit = .ok grid ∧
      let completions := {vs | IsCompletion p.rules.allows p.maxValue b vs}
      (solved = true ↔ completions.Nonempty) ∧
      (solved = false →
        Adds {} t (searchLog s p grid w ++ [.line "No solution found."]) []) ∧
      (solved = true → ∃ vs b' text won unique, ∃ reports : List Report,
        IsLeast completions vs ∧ b.FilledWith vs b' ∧ b'.text machine.digitLimit = .ok text ∧
        p.rules.wins b' = .ok won ∧ (unique = true ↔ ∃! vs, vs ∈ completions) ∧
        Adds {} t
          (searchLog s p grid w ++ (("Solution found!" :: solutionLines text won).map .line ++
            (reports.map .progress ++ [.line (uniqueLine unique)])))
          (solutionLines text won ++ [uniqueLine unique]) ∧
        (p.rules = .permissive → won = true) ∧
        (p.rules = .rowUnique ∨ p.rules = .latin → (won = false ↔ p.rules.Clash b))) := by
  have hchecked := Draft.checked_of_check hp
  obtain ⟨b, grid, w, hb, hgrid, hsolve, hunsolved, hsolved⟩ := ends_solvePuzzle hrun
  obtain ⟨hfound, hleast⟩ := solve_puzzle hchecked hsolve
  refine ⟨b, grid, w, hb, hgrid, hfound, hunsolved, ?_⟩
  intro htrue
  obtain ⟨vs, hvs, hfilled⟩ := hleast htrue
  obtain ⟨text, won, n, w', htext, hwon, hcount, hadds⟩ := hsolved htrue
  have hmultiple := count_puzzle hchecked hcount
  have hunique : (!n.multiple) = true ↔
      ∃! vs, vs ∈ {vs | IsCompletion p.rules.allows p.maxValue b vs} := by
    rw [Bool.not_eq_true', ← Bool.not_eq_true, hmultiple, Set.not_nontrivial_iff]
    constructor
    · intro hsub
      exact ⟨vs, hvs.1, fun us hus => hsub hus hvs.1⟩
    · rintro ⟨_, _, honly⟩ us hus us' hus'
      rw [honly us hus, honly us' hus']
  obtain ⟨hpermissive, hclash⟩ := wins_puzzle hchecked hb hvs.1 hfilled hwon
  exact ⟨vs, w.board, text, won, !n.multiple, w'.reports.toList, hvs, hfilled, htext, hwon,
    hunique, hadds, hpermissive, hclash⟩

/-- A row of three cells whose first two givens clash. -/
def clashingRow : Puzzle :=
  { name := "row", height := 1, width := 3, maxValue := 3, rules := .rowUnique,
    rows := [[1, 1, 0]], box := none }

theorem solvePuzzle_verdict_clashingRow :
    ∃ t, (solvePuzzle {} (.ofRules .rowUnique : Judge Unit Empty) () clashingRow).run =
        (.ok true, t) ∧
      t.shown.toList = ["1 1 2", warning, "Unique solution: False"] ∧
      ∃ b, clashingRow.board = .ok b ∧ Rules.rowUnique.Clash b := by
  have hcheck : Draft.check
      { name := "row", dims := [1, 3], maxValue := 3, rules := "row-unique",
        grid := .plane [[1, 1, 0]] } = .ok clashingRow := rfl
  obtain ⟨t, hrun⟩ : ∃ t,
      (solvePuzzle {} (.ofRules .rowUnique : Judge Unit Empty) () clashingRow).run =
        (.ok true, t) := ⟨_, rfl⟩
  have hshown : t.shown.toList = ["1 1 2", warning, "Unique solution: False"] := by
    cases hrun
    rfl
  obtain ⟨b, grid, w, hb, -, -, -, hsolved⟩ :=
    solvePuzzle_verdict {} {} () _ clashingRow hcheck true t hrun
  obtain ⟨vs, b', text, won, unique, reports, -, -, -, -, -, hadds, -, hclash⟩ := hsolved rfl
  have hlost : won = false := by
    have hlines := congrArg List.length hadds.shown
    rw [hshown] at hlines
    cases won with
    | false => rfl
    | true => cases hlines
  exact ⟨t, hrun, hshown, b, hb, (hclash (.inl rfl)).mp hlost⟩

end Runner

end GridFill
