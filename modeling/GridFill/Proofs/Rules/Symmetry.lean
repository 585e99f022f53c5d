/-
# `GridFill.Proofs.Rules.Symmetry` — boards that are alike to a rule set

A rule set looks at a board only for which cells are peers and which values are equal.  So
a board may be carried over to another one, its cells to other places and its values to
other ones among `1` to `m`, and as long as peers stay peers (`Carries`) the extensions of
the one are carried over to the extensions of the other (`Carries.isExtension`), one by
one, and back.  The searches, which only tell how many there are up to two, cannot tell
the boards apart, however differently they go through them.

Turning a full rectangle over makes rows of columns and columns of rows, which a rule set
that asks the same of both does not notice (`carries_transpose`), and other values may
stand for the ones on the board if different ones stand for different ones
(`carries_relabel`).
-/
import Mathlib.Data.Set.Card
import GridFill.Proofs.Board.Transpose
import GridFill.Proofs.Rules.Extension
import GridFill.Proofs.Search.Agree

namespace GridFill.Rules

open Search Board

/-- The values from `1` to `m`. -/
def valueSet (m : Nat) : Set Int := {v | 1 ≤ v ∧ v ≤ m}

/-- The cells of a full rectangle `b` are carried to those of another one by `f` and back by
`g`, and the values from `1` to `m` to one another by `p` and back by `q`, in such a way that
peers are carried to peers and what is given to what is given. -/
structure Carries (r : Rules) (m : Nat) (f g : Nat → Nat) (p q : Int → Int) (b b' : Board) :
    Prop where
  rectangular : b.Rectangular
  rectangular' : b'.Rectangular
  cells : Set.BijOn f (Set.Iio b.frame.size) (Set.Iio b'.frame.size)
  cellsBack : Set.InvOn g f (Set.Iio b.frame.size) (Set.Iio b'.frame.size)
  values : Set.BijOn p (valueSet m) (valueSet m)
  valuesBack : Set.InvOn q p (valueSet m) (valueSet m)
  givens : ∀ {i v}, b.value i = some v → v ∈ valueSet m
  peers : ∀ {i j}, i < b.frame.size → j < b.frame.size →
    (r.Peers b' (f i) (f j) ↔ r.Peers b i j)
  value : ∀ {i}, i < b.frame.size → b'.value (f i) = (b.value i).map p

/-- The second board with the values of a board `e` that has the cells of the first. -/
def carried (g : Nat → Nat) (p : Int → Int) (b' e : Board) : Board :=
  b'.withValues fun k => (e.value (g k)).map p

section

variable {r : Rules} {m : Nat} {f g : Nat → Nat} {p q : Int → Int} {b b' e e' : Board}

theorem value_carried {k : Nat} (hk : k < b'.frame.size) :
    (carried g p b' e).value k = (e.value (g k)).map p :=
  value_withValues _ hk

theorem IsExtension.exists_value (he : r.IsExtension m b e) (hb : b.Rectangular)
    (hgivens : ∀ {i v}, b.value i = some v → v ∈ valueSet m) {i : Nat}
    (hi : i < b.frame.size) : ∃ v ∈ valueSet m, e.value i = some v := by
  by_cases hempty : i ∈ b.emptyCells
  · obtain ⟨v, hv, hbound⟩ := he.filled i hempty
    exact ⟨v, hbound, hv⟩
  · have hsome : b.value i ≠ none := fun hnone =>
      hempty (mem_emptyCells.mpr ⟨hb.listed ▸ hi, hnone⟩)
    obtain ⟨v, hv⟩ := Option.ne_none_iff_exists'.mp hsome
    exact ⟨v, hgivens hv, (he.kept i hempty).trans hv⟩

theorem peers_carried {i j : Nat} : r.Peers (carried g p b' e) i j ↔ r.Peers b' i j :=
  peers_congr rfl rfl

namespace Carries

/-! ## There and back

The two boards play the same part: every cell and every value of the second comes
from the first, so that what is shown of one direction holds of the other. -/

section

variable (h : r.Carries m f g p q b b') {k : Nat}

include h

theorem back_lt (hk : k < b'.frame.size) : g k < b.frame.size ∧ f (g k) = k :=
  ⟨(h.cells.symm h.cellsBack.symm).mapsTo hk, h.cellsBack.2 hk⟩

theorem value_back (hk : k < b'.frame.size) : b'.value k = (b.value (g k)).map p := by
  obtain ⟨hlt, hfg⟩ := h.back_lt hk
  rw [← h.value hlt, hfg]

theorem mem_emptyCells_back (hk : k < b'.frame.size) :
    g k ∈ b.emptyCells ↔ k ∈ b'.emptyCells := by
  have hlt := (h.back_lt hk).1
  rw [mem_emptyCells, mem_emptyCells, h.value_back hk, Option.map_eq_none_iff,
    h.rectangular.listed, h.rectangular'.listed, and_iff_right hlt, and_iff_right hk]

theorem symm : r.Carries m g f q p b' b where
  rectangular := h.rectangular'
  rectangular' := h.rectangular
  cells := h.cells.symm h.cellsBack.symm
  cellsBack := h.cellsBack.symm
  values := h.values.symm h.valuesBack.symm
  valuesBack := h.valuesBack.symm
  givens {k v} hv := by
    rw [h.value_back (lt_size_of_value_eq_some hv), Option.map_eq_some_iff] at hv
    obtain ⟨u, hu, rfl⟩ := hv
    exact h.values.mapsTo (h.givens hu)
  peers {k l} hk hl := by
    obtain ⟨hk', hfk⟩ := h.back_lt hk
    obtain ⟨hl', hfl⟩ := h.back_lt hl
    rw [← h.peers hk' hl', hfk, hfl]
  value {k} hk := by
    rw [h.value_back hk]
    rcases hv : b.value (g k) with _ | v
    · rfl
    · rw [Option.map_some, Option.map_some, h.valuesBack.1 (h.givens hv)]

/-! ## Extensions

Carrying over is injective and keeps extensions, in both directions; so both boards
have equally many. -/

/-- An extension of the first board, carried over, extends the second. -/
theorem isExtension (he : r.IsExtension m b e) :
    r.IsExtension m b' (carried g p b' e) where
  frame := rfl
  regions := rfl
  listed := rfl
  kept k hk := by
    by_cases hlt : k < b'.frame.size
    · have hkept := he.kept (g k) (fun hempty => hk ((h.mem_emptyCells_back hlt).mp hempty))
      rw [value_carried hlt, h.value_back hlt, hkept]
    · have hout := Nat.le_of_not_lt hlt
      rw [value_of_size_le hout]
      exact value_of_size_le hout
  filled k hk := by
    have hlt := lt_size_of_mem_emptyCells hk
    obtain ⟨v, hv, hbound⟩ := he.filled (g k) ((h.mem_emptyCells_back hlt).mpr hk)
    exact ⟨p v, by rw [value_carried hlt, hv, Option.map_some], h.values.mapsTo hbound⟩
  apart k hk l hl hne hp heq := by
    have hlt := lt_size_of_mem_emptyCells hk
    have hl : l < b'.frame.size := hl
    obtain ⟨hk', hfk⟩ := h.back_lt hlt
    obtain ⟨hl', hfl⟩ := h.back_lt hl
    rw [value_carried hlt, value_carried hl] at heq
    obtain ⟨u, hu, hkval⟩ := he.exists_value h.rectangular h.givens hk'
    obtain ⟨v, hv, hlval⟩ := he.exists_value h.rectangular h.givens hl'
    rw [hkval, hlval, Option.map_some, Option.map_some, Option.some.injEq] at heq
    have huv : u = v := h.values.injOn hu hv heq
    -- equal values were not allowed on the cells they come from
    refine he.apart (g k) ((h.mem_emptyCells_back hlt).mpr hk) (g l) ?_ ?_ ?_ ?_
    · rwa [he.frame]
    · intro hgg
      exact hne (hfl.symm.trans ((congrArg f hgg).trans hfk))
    · rw [peers_congr he.frame he.regions, ← h.peers hk' hl', hfk, hfl]
      exact peers_carried.mp hp
    · rw [hkval, hlval, huv]

theorem injOn : Set.InjOn (carried g p b') {e | r.IsExtension m b e} := by
  intro e he e' he' heq
  refine ext_value (he.frame.trans he'.frame.symm) (he.regions.trans he'.regions.symm)
    (he.listed.trans he'.listed.symm) fun i => ?_
  by_cases hi : i < b.frame.size
  · have hfi : f i < b'.frame.size := h.cells.mapsTo hi
    have hvalue := congrArg (fun x => x.value (f i)) heq
    rw [value_carried hfi, value_carried hfi, h.cellsBack.1 hi] at hvalue
    obtain ⟨u, hu, hval⟩ := he.exists_value h.rectangular h.givens hi
    obtain ⟨v, hv, hval'⟩ := he'.exists_value h.rectangular h.givens hi
    rw [hval, hval', Option.map_some, Option.map_some, Option.some.injEq] at hvalue
    rw [hval, hval', h.values.injOn hu hv hvalue]
  · have hout := Nat.le_of_not_lt hi
    rw [value_of_size_le (by rwa [he.frame]), value_of_size_le (by rwa [he'.frame])]

theorem ncard_le : {e | r.IsExtension m b e}.ncard ≤ {e | r.IsExtension m b' e}.ncard :=
  Set.ncard_le_ncard_of_injOn _ (fun _ he => h.isExtension he) h.injOn
    (finite_setOf_isExtension h.rectangular')

/-- Boards carried to one another have equally many completions. -/
theorem ncard_eq : {vs | IsCompletion r.allows m b vs}.ncard =
    {vs | IsCompletion r.allows m b' vs}.ncard := by
  rw [← ncard_setOf_isExtension h.rectangular, ← ncard_setOf_isExtension h.rectangular']
  exact Nat.le_antisymm h.ncard_le h.symm.ncard_le

end

end Carries

end

/-! ## Turning over and other values

Both changes carry peers to peers, the first for rules that treat rows and columns
alike, the second for all. -/

section

variable {r : Rules} {m : Nat} {b : Board}

theorem peers_turned (hr : r = .latin ∨ r = .sudoku) (hb : b.Rectangular) {i j : Nat}
    (hi : i < b.frame.size) (hj : j < b.frame.size) :
    r.Peers b.transpose (turned b.width b.height i) (turned b.width b.height j) ↔
      r.Peers b i j := by
  have hrow : SameRow b.transpose (turned b.width b.height i) (turned b.width b.height j) ↔
      SameCol b i j := by
    rw [SameRow, SameCol, site_turned hb hi, site_turned hb hj]
  have hcol : SameCol b.transpose (turned b.width b.height i) (turned b.width b.height j) ↔
      SameRow b i j := by
    rw [SameRow, SameCol, site_turned hb hi, site_turned hb hj]
  have hregion : SameRegion b.transpose (turned b.width b.height i)
      (turned b.width b.height j) ↔ SameRegion b i j := by
    rw [SameRegion, SameRegion, region_turned hb hi, region_turned hb hj]
  rcases hr with rfl | rfl
  · rw [Peers, Peers, hrow, hcol]
    exact or_comm
  · rw [Peers, Peers, hrow, hcol, hregion]
    exact or_left_comm

theorem carries_transpose (hr : r = .latin ∨ r = .sudoku) (hb : b.Rectangular)
    (hgivens : ∀ i v, b.value i = some v → 1 ≤ v ∧ v ≤ m) :
    r.Carries m (turned b.width b.height) (turned b.height b.width) id id b b.transpose := by
  have hinv : Set.InvOn (turned b.height b.width) (turned b.width b.height)
      (Set.Iio b.frame.size) (Set.Iio b.transpose.frame.size) := by
    rw [hb.size_eq, size_transpose]
    exact ⟨fun i hi => turned_turned hi, fun k hk => turned_turned hk⟩
  have hto : Set.MapsTo (turned b.width b.height) (Set.Iio b.frame.size)
      (Set.Iio b.transpose.frame.size) := fun i hi => turned_lt_size hb hi
  have hback : Set.MapsTo (turned b.height b.width) (Set.Iio b.transpose.frame.size)
      (Set.Iio b.frame.size) := by
    rw [hb.size_eq, size_transpose]
    exact fun k hk => turned_lt hk
  exact {
    rectangular := hb
    rectangular' := b.rectangular_transpose
    cells := hinv.bijOn hto hback
    cellsBack := hinv
    values := Set.bijOn_id _
    valuesBack := ⟨fun _ _ => rfl, fun _ _ => rfl⟩
    givens := fun hv => hgivens _ _ hv
    peers := peers_turned hr hb
    value := fun hi => by rw [value_turned hb hi, Option.map_id, id] }

theorem carries_relabel {p : Int → Int}
    (hp : Set.BijOn p (valueSet m) (valueSet m)) (hb : b.Rectangular)
    (hgivens : ∀ i v, b.value i = some v → 1 ≤ v ∧ v ≤ m) :
    r.Carries m id id p (Function.invFunOn p (valueSet m)) b (b.relabel p) where
  rectangular := hb
  rectangular' := hb.congr rfl rfl
  cells := Set.bijOn_id _
  cellsBack := ⟨fun _ _ => rfl, fun _ _ => rfl⟩
  values := hp
  valuesBack := hp.invOn_invFunOn
  givens := fun hv => hgivens _ _ hv
  peers := fun _ _ => peers_congr rfl rfl
  value := fun hi => value_relabel p hi

end

/-! ## Whole searches

Whether there is a completion and whether there are two is all that the searches
tell, and that is a matter of numbers. -/

section

variable {σ ε : Type}

/-- Neither the ascending search nor the count tells two walks apart, if it is not cut
short on either of them. -/
structure AnsweredAlike (j : Judge σ ε) (c : Conditions) (limit : Limit) (w w' : Walk σ Unit) :
    Prop where
  filled : ¬ OutOfStack (solve j c limit w) → ¬ OutOfStack (solve j c limit w') →
    ¬ c.ReportFailed (solve j c limit w) → ¬ c.ReportFailed (solve j c limit w') →
    ∃ solved, (solve j c limit w).1 = .ok solved ∧ (solve j c limit w').1 = .ok solved
  counted : ¬ OutOfStack (countCompletions j c limit w) →
    ¬ OutOfStack (countCompletions j c limit w') →
    ¬ c.ReportFailed (countCompletions j c limit w) →
    ¬ c.ReportFailed (countCompletions j c limit w') →
    ∃ n, (countCompletions j c limit w).1 = .ok n ∧ (countCompletions j c limit w').1 = .ok n

theorem answeredAlike_of_ncard {j : Judge σ ε} {test : Test} {c : Conditions} {limit : Limit}
    {m : Nat} {w w' : Walk σ Unit} (hj : j.Answers test) (hm : limit.resolve w.board = .ok m)
    (hm' : limit.resolve w'.board = .ok m)
    (hcard : {vs | IsCompletion test m w.board vs}.ncard =
      {vs | IsCompletion test m w'.board vs}.ncard) : AnsweredAlike j c limit w w' where
  filled hstack hstack' hreport hreport' := by
    rw [solve_eq_fill hm] at hstack hreport ⊢
    rw [solve_eq_fill hm'] at hstack' hreport' ⊢
    have hperm := (draws_ascending m).perm
    have hanswer := fill_answer hj hperm (.inr (Nat.zero_le _)) hstack hreport
    rw [hcard] at hanswer
    exact ⟨_, hanswer, fill_answer hj hperm (.inr (Nat.zero_le _)) hstack' hreport'⟩
  counted hstack hstack' hreport hreport' := by
    obtain ⟨hanswer, -⟩ := countCompletions_outcome hj hm hstack hreport
    obtain ⟨hanswer', -⟩ := countCompletions_outcome hj hm' hstack' hreport'
    rw [hcard] at hanswer
    exact ⟨_, hanswer, hanswer'⟩

/-- With rows and columns treated alike, whether a full rectangle can be filled and whether
that can be done in several ways does not change when the board is turned over, nor when
other values from `1` to `m` stand for those on it. -/
theorem searches_symmetric {r : Rules} (hr : r = .latin ∨ r = .sudoku) (c : Conditions)
    {m : Nat} (hm : 1 ≤ m) (w w' : Walk σ Unit)
    (hb : w.board.Rectangular)
    (hgivens : ∀ i v, w.board.value i = some v → 1 ≤ v ∧ v ≤ m) :
    (w'.board = w.board.transpose →
      AnsweredAlike (.ofRules r : Judge σ ε) c (.given m) w w') ∧
    (∀ p : Int → Int, Set.BijOn p (valueSet m) (valueSet m) →
      w'.board = w.board.relabel p →
      AnsweredAlike (.ofRules r : Judge σ ε) c (.given m) w w') := by
  have hans : (Judge.ofRules r : Judge σ ε).Answers r.allows := answers_ofRules r
  have hlimit := Limit.resolve_given hm
  constructor
  · intro hturned
    have hcard := (carries_transpose hr hb hgivens).ncard_eq
    rw [← hturned] at hcard
    exact answeredAlike_of_ncard hans (hlimit _) (hlimit _) hcard
  · intro p hp hother
    have hcard := (carries_relabel (r := r) hp hb hgivens).ncard_eq
    rw [← hother] at hcard
    exact answeredAlike_of_ncard hans (hlimit _) (hlimit _) hcard

theorem searches_symmetric_clashing :
    let j : Judge Unit Empty := .ofRules .latin
    let flipped : Walk Unit Unit := { clashing with board := clashing.board.transpose }
    let renamed : Walk Unit Unit := { clashing with board := clashing.board.relabel (3 - ·) }
    (solve j {} (.given 2) flipped).1 = .ok true ∧
      (countCompletions j {} (.given 2) renamed).1 = .ok { found := true, multiple := false } := by
  intro j flipped renamed
  have hans : j.Answers Rules.latin.allows := answers_ofRules .latin
  have hplaces : ∀ i < 3, ∀ v ∈ clashing.board.value i, 1 ≤ v ∧ v ≤ 2 := by decide
  have hgivens : ∀ i v, clashing.board.value i = some v → 1 ≤ v ∧ v ≤ (2 : Nat) := fun i v hv =>
    hplaces i (lt_size_of_value_eq_some hv) v hv
  have hinv : Set.InvOn (3 - · : Int → Int) (3 - ·) (valueSet 2) (valueSet 2) :=
    ⟨fun v _ => by simp, fun v _ => by simp⟩
  have hmaps : Set.MapsTo (3 - · : Int → Int) (valueSet 2) (valueSet 2) :=
    fun v hv => by
      simp only [valueSet, Set.mem_ofPred_eq] at hv ⊢
      omega
  have hcells : ∀ b : Board, b.listed = 3 → b.emptyCells.length ≤ stackDepth := fun b hb =>
    (length_emptyCells_le b).trans (hb ▸ by decide)
  obtain ⟨hflipped, -⟩ := searches_symmetric (ε := Empty) (.inl rfl : latin = .latin ∨ _) {}
    (Nat.le_succ 1) clashing flipped ⟨rfl, rfl⟩ hgivens
  obtain ⟨-, hrenamed⟩ := searches_symmetric (ε := Empty) (.inl rfl : latin = .latin ∨ _) {}
    (Nat.le_succ 1) clashing renamed ⟨rfl, rfl⟩ hgivens
  constructor
  · obtain ⟨solved, hsolved, hsame⟩ := (hflipped rfl).filled
      (solve_not_outOfStack hans rfl (hcells _ rfl)) (solve_not_outOfStack hans rfl (hcells _ rfl))
      (not_reportFailed_of_none rfl _) (not_reportFailed_of_none rfl _)
    cases hsolved
    exact hsame
  · obtain ⟨n, hcount, hsame⟩ := (hrenamed _ (hinv.bijOn hmaps hmaps) rfl).counted
      (countCompletions_not_outOfStack hans rfl (hcells _ rfl))
      (countCompletions_not_outOfStack hans rfl (hcells _ rfl))
      (not_reportFailed_of_none rfl _) (not_reportFailed_of_none rfl _)
    cases hcount
    exact hsame

end

end GridFill.Rules
