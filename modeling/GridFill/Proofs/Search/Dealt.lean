/-
# `GridFill.Proofs.Search.Dealt` — what filling at random can come to

A search at random draws a rearrangement of the values for every frame that it
enters.  Which ones it draws is not decided by the search, so it may as well be
dealt all of them beforehand, one for each frame (`Supply.dealt`); every search that
draws from a generator is one of these (`fill_eq_dealt`).

Over all deals, the boards that come out are the completions of the board that was
put in (`randomSolve_outcomes`).  No other can come out, since a filling search is
sound whatever the orders are.  And none is excluded: if the order dealt to each frame
begins with the value of the completion, the search writes that value, goes down and
never comes back, so that the frame of the `n`-th empty cell is the `n`-th one entered
(`exists_runs_guided`).  What it takes is a stack with a frame for every empty cell and,
if there are any, room for a list of the values; otherwise nothing comes out at all.
-/
import Mathlib.Data.Set.Basic
import GridFill.Proofs.Search.Asked
import GridFill.Proofs.Search.Fill

namespace GridFill.Search

variable {σ ρ τ ε : Type}

/-! ## Deals

A deal holds an order for every frame that might be entered, so that nothing is
drawn any more. -/

/-- The values from `1` to `m` in some order. -/
structure Arrangement (m : Nat) where
  values : List Int
  perm : values.Perm (valuesTo m)

/-- A supply that was dealt an order for each frame, by the number of frames entered
before it. -/
def Supply.dealt (m : Nat) : Supply (Nat → Arrangement m) where
  draw deal := (.ofArray (deal 0).values.toArray, fun n => deal (n + 1))
  listLength := m

theorem toList_dealt {m : Nat} (deal : Nat → Arrangement m) :
    ((Supply.dealt m).draw deal).1.toList = (deal 0).values :=
  Order.toList_ofArray _

theorem perm_dealt (m : Nat) (deal : Nat → Arrangement m) :
    ((Supply.dealt m).draw deal).1.toList.Perm (valuesTo m) := by
  rw [toList_dealt]
  exact (deal 0).perm

/-- The same walk with another supply. -/
def Walk.withSupply (w : Walk σ ρ) (x : τ) : Walk σ τ where
  board := w.board
  tally := w.tally
  memory := w.memory
  supply := x
  reports := w.reports

/-- The boards that a search can leave filled, over all deals. -/
def outcomes (j : Judge σ ε) (c : Conditions) (m : Nat) (w : Walk σ ρ) : Set Board :=
  {b | ∃ deal : Nat → Arrangement m, (fill j c (.dealt m) (w.withSupply deal)).1 = .ok true ∧
    (fill j c (.dealt m) (w.withSupply deal)).2.board = b}

/-- The boards filled with a completion. -/
def completedBoards (test : Test) (m : Nat) (b : Board) : Set Board :=
  {x | ∃ vs, IsCompletion test m b vs ∧ b.FilledWith vs x}

/-! ## No completion is excluded

A deal whose orders begin with the values of a completion leads straight to it. -/

section

variable {m : Nat} {v : Int} {vs : List Int}

/-- The arrangement that begins with `v`, if there is one. -/
def Arrangement.leading (m : Nat) (v : Int) : Arrangement m :=
  if h : v ∈ valuesTo m then ⟨v :: (valuesTo m).erase v, (List.perm_cons_erase h).symm⟩
  else ⟨valuesTo m, .refl _⟩

theorem leading_values (h : v ∈ valuesTo m) :
    (Arrangement.leading m v).values = v :: (valuesTo m).erase v := by
  rw [Arrangement.leading, dif_pos h]

/-- The deal whose `n`-th order begins with the `n`-th of the given values. -/
def guide (m : Nat) (vs : List Int) (n : Nat) : Arrangement m := .leading m (vs.getD n 0)

theorem draw_guide (vs : List Int) (hv : v ∈ valuesTo m) :
    ((Supply.dealt m).draw (guide m (v :: vs))).1.toList = v :: (valuesTo m).erase v ∧
      ((Supply.dealt m).draw (guide m (v :: vs))).2 = guide m vs := by
  refine ⟨?_, rfl⟩
  rw [toList_dealt]
  exact leading_values hv

variable {p : Plan σ (Nat → Arrangement m) ε} {test : Test} {cells : List Nat} {depth : Nat}
  {w : Walk σ (Nat → Arrangement m)}

/-- A search that is dealt orders beginning with values that can be placed places them. -/
theorem exists_runs_guided (hs : p.supply = .dealt m) (hg : p.goal = .fill)
    (hj : p.judge.Answers test) (hc : ∀ f, ¬ p.conditions.ReportFault f)
    (hlist : cells = [] ∨ p.HasRoom)
    (hvs : Placeable test m w.board cells vs) (hw : w.supply = guide m vs)
    (hd : depth + cells.length ≤ p.conditions.depthLimit) :
    ∃ w₁, Runs p (.frame cells) depth w (.ok .stop, w₁) ∧
      w₁.board = w.board.place cells vs := by
  induction cells generalizing depth w vs with
  | nil =>
      obtain ⟨reports, he⟩ := enter_of_le (ε := ε) (w := w) hc hd
      have hleaf := Runs.leaf he
      rw [hg] at hleaf
      exact ⟨_, hleaf, rfl⟩
  | cons i cells ih =>
      rw [List.length_cons] at hd
      obtain ⟨v, us, rfl, hv, ht, hus⟩ := placeable_cons.mp hvs
      have hentered : depth ≤ p.conditions.depthLimit := by omega
      have hdeeper : depth + 1 + cells.length ≤ p.conditions.depthLimit := by omega
      have hroom : p.HasRoom := hlist.resolve_left (List.cons_ne_nil _ _)
      obtain ⟨reports, he⟩ := enter_of_le (ε := ε) (w := w) hc hentered
      obtain ⟨horder, hrest⟩ := draw_guide us hv
      -- the frame draws an order that begins with `v`, and the judge accepts `v`
      let w₁ : Walk σ (Nat → Arrangement m) :=
        { w with tally := w.tally.enter depth, reports := reports, supply := guide m us }
      have hask := hj.query_fst i v w₁
      rcases hq : query p.judge i v w₁ with ⟨a, w₂⟩
      obtain ⟨memory, rfl⟩ := query_cases hq
      rw [hq] at hask
      have hyes : a = .ok true := hask.trans (congrArg Except.ok ht)
      subst hyes
      obtain ⟨w₃, hrun, hplaced⟩ := ih
        (w := ({ w₁ with tally := w₁.tally.tryValue, memory := memory }).put i (some v))
        (.inr hroom) hus rfl hdeeper
      refine ⟨w₃, .opened he hroom ?_, hplaced⟩
      rw [hs]
      dsimp only
      rw [hw, horder, hrest]
      exact .kept hq hrun (by rw [hg]; rfl)

end

section

variable {j : Judge σ ε} {test : Test} {c : Conditions} {m : Nat} {w : Walk σ ρ}

theorem mem_outcomes_of_isCompletion (hj : j.Answers test) (hc : ∀ f, ¬ c.ReportFault f)
    (hd : w.board.emptyCells.length ≤ c.depthLimit)
    (hlist : w.board.emptyCells = [] ∨ m ≤ c.lengthLimit) {vs : List Int}
    (hvs : IsCompletion test m w.board vs) : w.board.place w.board.emptyCells vs ∈
      outcomes j c m w := by
  have hroom : 0 + w.board.emptyCells.length ≤ c.depthLimit := by rwa [Nat.zero_add]
  obtain ⟨w₁, hrun, hplaced⟩ := exists_runs_guided (p := .filling j c (.dealt m))
    (w := w.withSupply (guide m vs)) rfl rfl hj hc hlist hvs rfl hroom
  have hfill : run (.filling j c (.dealt m)) (w.withSupply (guide m vs)) = (.ok .stop, w₁) :=
    hrun.eq_explore.symm
  refine ⟨guide m vs, ?_, ?_⟩
  · rw [fill_eq_map, hfill]
    rfl
  · rw [fill_eq_map, hfill]
    exact hplaced

theorem fill_room {s : Supply ρ} {found : Bool} (hr : (fill j c s w).1 = .ok found) :
    w.board.emptyCells = [] ∨ s.listLength ≤ c.lengthLimit := by
  have hrun := runs_explore (.filling j c s) w.board.emptyCells 0 w
  have hsignal := signal_of_fill hr
  rw [run] at hsignal
  cases hcells : w.board.emptyCells with
  | nil => exact .inl rfl
  | cons i cells =>
      rw [hcells] at hrun hsignal
      generalize explore (.filling j c s) (i :: cells) 0 w = r at hrun hsignal
      cases hrun with
      | blocked | undrawn => cases hsignal
      | opened _ hroom _ => exact .inr hroom

/-- Over all deals, the boards that come out are the completed ones, if the stack has
room for a frame for every empty cell, and the machine for a list of the values unless
there is no such cell, and none otherwise. -/
theorem outcomes_eq (hj : j.Answers test) (hc : ∀ f, ¬ c.ReportFault f) :
    outcomes j c m w = {b | w.board.emptyCells.length ≤ c.depthLimit ∧
      (w.board.emptyCells = [] ∨ m ≤ c.lengthLimit) ∧
      b ∈ completedBoards test m w.board} := by
  ext b
  constructor
  · rintro ⟨deal, hr, rfl⟩
    obtain ⟨vs, hvs, hfilled, -⟩ := fill_first hj (draws_of_perm (perm_dealt m)) hr
    have hd := fill_depth_le hr
    exact ⟨hd, fill_room hr, vs, hvs, hfilled⟩
  · rintro ⟨hd, hlist, vs, hvs, hfilled⟩
    rw [(Board.filledWith_iff.mp hfilled).2]
    exact mem_outcomes_of_isCompletion hj hc hd hlist hvs

end

/-! ## Every supply is a deal

What a supply draws from some state on are rearrangements of the values, one after
the other, and these can be dealt. -/

/-- The orders that a supply of arrangements draws one after the other. -/
def Supply.deal {m : Nat} (s : Supply ρ) (hs : ∀ t, (s.draw t).1.toList.Perm (valuesTo m)) :
    ρ → Nat → Arrangement m
  | t, 0 => ⟨(s.draw t).1.toList, hs t⟩
  | t, n + 1 => s.deal hs (s.draw t).2 n

theorem enter_withSupply (c : Conditions) (depth : Nat) (w : Walk σ ρ) (x : τ) :
    enter (ε := ε) c depth (w.withSupply x) =
      ((enter c depth w).1, (enter (ε := ε) c depth w).2.withSupply x) := by
  have hmemory : (enter (ε := ε) c depth w).2.memory = w.memory := enter_memory rfl
  refine (enter_carrying c depth w w.memory x).trans ?_
  rw [Walk.withSupply, hmemory, Walk.carrying]

theorem query_withSupply (j : Judge σ ε) (i : Nat) (v : Int) (w : Walk σ ρ) (x : τ) :
    query j i v (w.withSupply x) = ((query j i v w).1, (query j i v w).2.withSupply x) := by
  rw [query_eq, query_eq]
  rfl

section

variable {m : Nat} {s : Supply ρ} (hs : ∀ t, (s.draw t).1.toList.Perm (valuesTo m))
  (hl : s.listLength = m)

include hl

theorem simulates_deal (j : Judge σ ε) (c : Conditions) :
    (Plan.filling j c s).Simulates (fun w w' => w' = w.withSupply (s.deal hs w.supply))
      (.filling j c (.dealt m)) where
  room := by
    rw [Plan.HasRoom, Plan.HasRoom, Plan.filling, Plan.filling, Supply.dealt, hl]
  enter {depth w w' w₁ a} hw he := by
    subst hw
    have hsupply : w₁.supply = w.supply := enter_supply he
    have he' := enter_withSupply (ε := ε) c depth w (s.deal hs w.supply)
    refine ⟨_, he'.trans ?_, rfl⟩
    dsimp only [Plan.filling] at he
    rw [he, hsupply]
  draw {w w'} hw := by
    subst hw
    exact ⟨toList_dealt _, rfl⟩
  query {i v w w' a w₁} hw hq := by
    subst hw
    have hsupply : w₁.supply = w.supply := query_supply hq
    have hq' := query_withSupply j i v w (s.deal hs w.supply)
    refine ⟨_, hq'.trans ?_, rfl⟩
    dsimp only [Plan.filling] at hq
    rw [hq, hsupply]
  put _ _ hw := by
    subst hw
    rfl
  reached hw := by
    subst hw
    exact ⟨rfl, rfl⟩
  keeps := rfl

theorem fill_eq_dealt (j : Judge σ ε) (c : Conditions) (w : Walk σ ρ) :
    let r := fill j c s w
    fill j c (.dealt m) (w.withSupply (s.deal hs w.supply)) =
      (r.1, r.2.withSupply (s.deal hs r.2.supply)) := by
  obtain ⟨hanswer, hwalk⟩ := run_simulated (simulates_deal hs hl j c) (w := w) rfl rfl
  dsimp only
  rw [fill_eq_map, fill_eq_map, hanswer, hwalk]

end

theorem length_emptyCells_blank (f : Frame) :
    (Board.blank f).emptyCells.length = f.width * f.height := by
  rw [Board.emptyCells_of_value_eq_none (Board.value_blank f), Board.cells, List.length_range]
  exact f.sites_size

theorem placeable_permissive {m : Nat} {b : Board} {cells : List Nat} {vs : List Int}
    (hlen : vs.length = cells.length) (hvs : ∀ v ∈ vs, v ∈ valuesTo m) :
    Placeable Rules.permissive.allows m b cells vs := by
  induction cells generalizing b vs with
  | nil => exact placeable_nil.mpr (List.length_eq_zero_iff.mp hlen)
  | cons i cells ih =>
      match vs, hlen with
      | v :: vs, hlen =>
          have hrest := ih (b := b.put i (some v)) (Nat.succ.inj hlen)
            fun u hu => hvs u (List.mem_cons_of_mem _ hu)
          exact placeable_cons.mpr ⟨v, vs, rfl, hvs v List.mem_cons_self, rfl, hrest⟩

theorem nonempty_completedBoards (b : Board) :
    (completedBoards Rules.permissive.allows 1 b).Nonempty := by
  have hones : IsCompletion Rules.permissive.allows 1 b
      (List.replicate b.emptyCells.length 1) := by
    refine placeable_permissive List.length_replicate fun v hv => ?_
    rw [List.eq_of_mem_replicate hv]
    exact mem_valuesTo.mpr ⟨Int.le_refl 1, Int.le_refl 1⟩
  exact ⟨_, _, hones, Board.filledWith_place (Placeable.length_eq hones)⟩

/-- A walk on an empty column of cells. -/
def column (height : Nat) (h : 0 < height) : Walk Unit Unit where
  board := .blank (.rectangle 1 height Nat.one_pos h)
  tally := {}
  memory := ()
  supply := ()

end GridFill.Search
