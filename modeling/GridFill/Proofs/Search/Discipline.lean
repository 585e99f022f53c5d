/-
# `GridFill.Proofs.Search.Discipline` — what the judge can rely on at every query

A judge that looks at the board sees a partial assignment and nothing else: the cells
that were empty are filled in board order, each with a value that the judge has let
stand, up to the cell it is asked about; that one and all after it are empty; and what
was given is untouched.  And it is not asked twice about a value by one frame.

This is an invariant of the moments of a search (`InOrder`).  The queries of the open
frames lead from the first board to the present one (`Opens`); the list of sightings
falls into those made before the present frame was entered and those since.  Each step
of the search keeps it (`Leads.inOrder`), the way back out of a frame included, since
what is seen below a frame differs from what it sees only in the cells that come after.
-/
import GridFill.Proofs.Search.Sighted

namespace GridFill.Search

open Relation

variable {σ ρ ε : Type}

/-! ## The queries of the open frames

Each open frame is there because of one accepted query.  Together these say what
has been written into the board since the start. -/

/-- Accepted queries, one for each open frame, lead from a board to a later one: each was
about the first empty cell of the board that the ones before it had left. -/
inductive Opens (m : Nat) (b : Board) : List Sighting → Board → Prop
  | start : Opens m b [] b
  | next {opened : List Sighting} {o : Sighting} {rest : List Nat} :
      Opens m b opened o.board → o.accepted = true → 1 ≤ o.value ∧ o.value ≤ m →
      o.board.emptyCells = o.cell :: rest → Opens m b (opened ++ [o]) o.after

namespace Opens

variable {m : Nat} {b b' : Board} {opened : List Sighting}

theorem emptyCells_eq (h : Opens m b opened b') :
    b.emptyCells = opened.map Sighting.cell ++ b'.emptyCells := by
  induction h with
  | start => rfl
  | @next opened o rest _ _ _ hcells ih =>
      have hafter : o.after.emptyCells = rest := Board.emptyCells_put hcells o.value
      rw [ih, hcells, hafter]
      simp

theorem accepted (h : Opens m b opened b') : ∀ o ∈ opened, o.accepted = true := by
  induction h with
  | start => simp
  | next _ hacc _ _ ih => simpa using fun o ho => ho.elim (ih o) (· ▸ hacc)

theorem range (h : Opens m b opened b') : ∀ o ∈ opened, 1 ≤ o.value ∧ o.value ≤ m := by
  induction h with
  | start => simp
  | next _ _ hrange _ ih => simpa using fun o ho => ho.elim (ih o) (· ▸ hrange)

theorem held (h : Opens m b opened b') : ∀ o ∈ opened, b'.value o.cell = some o.value := by
  induction h with
  | start => simp
  | @next opened o rest _ _ _ hcells ih =>
      intro o' ho'
      rcases List.mem_append.mp ho' with hin | hlast
      · have hne : o'.cell ≠ o.cell := by
          intro heq
          have hnone := Board.value_of_emptyCells_eq_cons hcells
          rw [← heq, ih o' hin] at hnone
          cases hnone
        exact (Board.value_put_of_ne hne).trans (ih o' hin)
      · rw [List.mem_singleton.mp hlast]
        exact Board.value_put_self (Board.lt_size_of_emptyCells_eq_cons hcells)

theorem kept (h : Opens m b opened b') {i : Nat} (hi : i ∉ opened.map Sighting.cell) :
    b'.value i = b.value i := by
  induction h with
  | start => rfl
  | next _ _ _ _ ih =>
      simp only [List.map_append, List.map_singleton, List.mem_append, List.mem_singleton,
        not_or] at hi
      exact (Board.value_put_of_ne hi.2).trans (ih hi.1)

theorem frame (h : Opens m b opened b') : b'.frame = b.frame := by
  induction h with
  | start => rfl
  | next _ _ _ _ ih => exact ih

theorem regions (h : Opens m b opened b') : b'.regions = b.regions := by
  induction h with
  | start => rfl
  | next _ _ _ _ ih => exact ih

theorem listed (h : Opens m b opened b') : b'.listed = b.listed := by
  induction h with
  | start => rfl
  | next _ _ _ _ ih => exact ih

end Opens

/-! ## The invariant

The list of sightings is cut where the present frame was entered: what comes before
is known by the open frames, and what comes after is about this cell or later ones. -/

/-- The values that a frame has asked about in its own cell are those that it does not
have before it any more. -/
def Job.Fresh (m : Nat) (since : List Sighting) : Job → Prop
  | .frame _ => since = []
  | .values i _ us => ∃ tried, (tried ++ us).Perm (valuesTo m) ∧
      ∀ q ∈ since, q.cell = i → q.value ∈ tried

/-- A moment of a search on `b`, with the queries of its open frames and with the list of
sightings cut where the present frame was entered. -/
structure InOrder (m : Nat) (b : Board) (opened earlier since : List Sighting)
    (x : Moment (σ × List Sighting) ρ) : Prop where
  opens : Opens m b opened x.walk.board
  cells : x.walk.board.emptyCells = x.job.cells
  seen : x.walk.seen = earlier ++ since
  among : opened.Sublist earlier
  entered : earlier.getLast? = opened.getLast?
  below : ∀ q ∈ since, q.cell ∈ x.job.cells ∧
    ∀ k ∉ x.job.cells, q.board.value k = x.walk.board.value k
  fresh : x.job.Fresh m since

section

variable {p : Plan (σ × List Sighting) ρ ε} {j : Judge σ ε} {m depth i : Nat} {v : Int}
  {b : Board} {cells : List Nat} {us : List Int} {opened earlier since : List Sighting}
  {w w₁ w₂ : Walk (σ × List Sighting) ρ} {x y : Moment (σ × List Sighting) ρ}

theorem inOrder_start (m : Nat) (w : Walk σ ρ) : InOrder m w.board [] [] [] w.watching.start where
  opens := .start
  cells := rfl
  seen := rfl
  among := List.Sublist.refl _
  entered := rfl
  below := by simp
  fresh := rfl

namespace InOrder

theorem enter (h : InOrder m b opened earlier since ⟨.frame (i :: cells), depth, w⟩)
    (hs : ∀ t, (p.supply.draw t).1.toList.Perm (valuesTo m))
    (he : Search.enter (ε := ε) p.conditions depth w = (.ok (), w₁)) :
    InOrder m b opened earlier since
      ⟨.values i cells (w₁.order p.supply), depth, w₁.drawn p.supply⟩ where
  opens := (enter_board he).symm ▸ h.opens
  cells := (congrArg Board.emptyCells (enter_board he)).trans h.cells
  seen := (seen_enter he).trans h.seen
  among := h.among
  entered := h.entered
  below := by
    have hnone : since = [] := h.fresh
    simp [hnone]
  fresh := by
    have hnone : since = [] := h.fresh
    exact ⟨[], hs _, by simp [hnone]⟩

theorem next (h : InOrder m b opened earlier since ⟨.values i cells (v :: us), depth, w⟩)
    {new : List Sighting} (hb : w₁.board = w.board) (hseen : w₁.seen = w.seen ++ new)
    (hnew : ∀ q ∈ new, (q.cell = i ∧ q.value = v ∨ q.cell ∈ cells) ∧
      ∀ k, k ∉ i :: cells → q.board.value k = w.board.value k) :
    InOrder m b opened earlier (since ++ new) ⟨.values i cells us, depth, w₁⟩ := by
  obtain ⟨tried, hperm, htried⟩ := h.fresh
  have hcells : w.board.emptyCells = i :: cells := h.cells
  have hnot := Board.notMem_of_emptyCells_eq_cons hcells
  refine ⟨hb.symm ▸ h.opens, (congrArg Board.emptyCells hb).trans h.cells, ?_, h.among, h.entered,
    ?_, tried ++ [v], by rwa [List.append_assoc], ?_⟩
  · show w₁.seen = _
    rw [hseen, show w.seen = _ from h.seen, List.append_assoc]
  · intro q hq
    show q.cell ∈ i :: cells ∧ ∀ k, k ∉ i :: cells → q.board.value k = w₁.board.value k
    rw [hb]
    rcases List.mem_append.mp hq with hold | hq
    · exact h.below q hold
    · obtain ⟨hcell, hboard⟩ := hnew q hq
      refine ⟨?_, hboard⟩
      rcases hcell with ⟨rfl, -⟩ | hin
      · exact List.mem_cons_self
      · exact List.mem_cons_of_mem _ hin
  · intro q hq hi
    rcases List.mem_append.mp hq with hold | hq
    · exact List.mem_append_left _ (htried q hold hi)
    · rcases (hnew q hq).1 with ⟨-, rfl⟩ | hin
      · exact List.mem_append_right _ (List.mem_singleton.mpr rfl)
      · exact absurd (hi ▸ hin) hnot

theorem deeper (h : InOrder m b opened earlier since ⟨.values i cells (v :: us), depth, w⟩)
    (hq : query j.watched i v w = (.ok true, w₁)) :
    InOrder m b (opened ++ [⟨w.board, i, v, some true⟩])
      (earlier ++ since ++ [⟨w.board, i, v, some true⟩]) []
      ⟨.frame cells, depth + 1, w₁.put i (some v)⟩ := by
  obtain ⟨tried, hperm, -⟩ := h.fresh
  have hcells : w.board.emptyCells = i :: cells := h.cells
  have hb : w₁.board = w.board := query_board hq
  have hv : v ∈ valuesTo m := hperm.mem_iff.mp (by simp)
  have hopens : Opens m b (opened ++ [⟨w.board, i, v, some true⟩]) (w.board.put i (some v)) :=
    .next h.opens rfl (mem_valuesTo.mp hv) hcells
  refine ⟨?_, emptyCells_put_some hcells hb, ?_, ?_, ?_, by simp, rfl⟩
  · show Opens m b _ (w₁.board.put i (some v))
    rwa [hb]
  · show w₁.seen = _
    rw [seen_query hq, show w.seen = _ from h.seen, List.append_nil]
    rfl
  · exact (h.among.trans (List.sublist_append_left _ _)).append (List.Sublist.refl _)
  · rw [List.getLast?_concat, List.getLast?_concat]

end InOrder

/-- Each step of a search keeps the order. -/
theorem Leads.inOrder (h : Leads p x y) (hp : p.judge = j.watched)
    (hs : ∀ t, (p.supply.draw t).1.toList.Perm (valuesTo m))
    (hx : InOrder m b opened earlier since x) :
    ∃ opened earlier since, InOrder m b opened earlier since y := by
  cases h with
  | opened he => exact ⟨_, _, _, hx.enter hs he⟩
  | @refused i cells v us depth w w₁ hq =>
      have hb := query_board hq
      rw [hp] at hq
      refine ⟨_, _, _, hx.next hb (seen_query hq) fun q hq => ?_⟩
      rw [List.mem_singleton.mp hq]
      exact ⟨.inl ⟨rfl, rfl⟩, fun _ _ => rfl⟩
  | accepted hq =>
      rw [hp] at hq
      exact ⟨_, _, _, hx.deeper hq⟩
  | @undone i cells v us depth w w₁ w₂ hq hrun =>
      have hcells : w.board.emptyCells = i :: cells := hx.cells
      have hb : w₁.board = w.board := query_board hq
      have hback : (w₂.put i none).board = w.board := hrun.board_back hcells hq
      obtain ⟨new, hseen, hnew⟩ := hrun.seen_within hp (emptyCells_put_some hcells hb)
      rw [hp] at hq
      have hall : (w₂.put i none).seen = w.seen ++ (⟨w.board, i, v, some true⟩ :: new) := by
        rw [Walk.seen_put, hseen, Walk.seen_put, seen_query hq, List.append_assoc]
        rfl
      refine ⟨_, _, _, hx.next hback hall fun q hq => ?_⟩
      rcases List.mem_cons.mp hq with rfl | hbelow
      · exact ⟨.inl ⟨rfl, rfl⟩, fun _ _ => rfl⟩
      · obtain ⟨hcell, houtside⟩ := hnew q hbelow
        refine ⟨.inr hcell, fun k hk => ?_⟩
        obtain ⟨hki, hkc⟩ := not_or.mp (List.mem_cons.not.mp hk)
        rw [houtside k hkc, Walk.board_put, hb, Board.value_put_of_ne hki]

theorem reaches_inOrder (h : ReflTransGen (Leads p) x y) (hp : p.judge = j.watched)
    (hs : ∀ t, (p.supply.draw t).1.toList.Perm (valuesTo m))
    (hx : InOrder m b opened earlier since x) :
    ∃ opened earlier since, InOrder m b opened earlier since y := by
  induction h with
  | refl => exact ⟨_, _, _, hx⟩
  | tail _ hstep ih =>
      obtain ⟨_, _, _, hmid⟩ := ih
      exact hstep.inOrder hp hs hmid

end

/-! ## What a query shows

Without frames: the board that the judge is shown, and the queries that it has on
its list. -/

/-- The query `s` of a search on `b` with values up to `m`.  The empty cells of `b` are
those of the open frames, the one asked about and the rest; the open frames hold values
that the judge accepted, the others are empty, and all else is as it was given.  Of the
queries before it, the last one `earlier` is the one that opened the last frame above, or
there is none if there is no frame above; so those `since` are what the frame that asks
has seen since it was entered.  They have all been made with the same values above, and
none of them in this cell about this value. -/
structure Orderly (m : Nat) (b : Board) (opened earlier since : List Sighting) (s : Sighting)
    (rest : List Nat) : Prop where
  cells : b.emptyCells = opened.map Sighting.cell ++ s.cell :: rest
  accepted : ∀ o ∈ opened, o.accepted = true
  range : ∀ o ∈ opened, 1 ≤ o.value ∧ o.value ≤ m
  held : ∀ o ∈ opened, s.board.value o.cell = some o.value
  empty : ∀ i ∈ s.cell :: rest, s.board.value i = none
  given : ∀ i ∉ b.emptyCells, s.board.value i = b.value i
  frame : s.board.frame = b.frame
  regions : s.board.regions = b.regions
  listed : s.board.listed = b.listed
  value : 1 ≤ s.value ∧ s.value ≤ m
  among : opened.Sublist earlier
  entered : earlier.getLast? = opened.getLast?
  below : ∀ q ∈ since, q.cell ∈ s.cell :: rest ∧
    ∀ o ∈ opened, q.board.value o.cell = some o.value
  fresh : ∀ q ∈ since, q.cell = s.cell → q.value ≠ s.value

/-- Every query of the list is in order after those before it. -/
def Disciplined (m : Nat) (b : Board) (seen : List Sighting) : Prop :=
  ∀ before s, before ++ [s] <+: seen → ∃ opened earlier since rest,
    before = earlier ++ since ∧ Orderly m b opened earlier since s rest

theorem InOrder.orderly {m : Nat} {b : Board} {opened earlier since before : List Sighting}
    {s : Sighting} {x : Moment (σ × List Sighting) ρ} (h : InOrder m b opened earlier since x)
    (hs : x.Asks before s) : ∃ rest, before = earlier ++ since ∧
      Orderly m b opened earlier since s rest := by
  obtain ⟨job, depth, w⟩ := x
  obtain ⟨⟨rest, us, rfl⟩, hseen, hboard⟩ := hs
  have hcells : s.board.emptyCells = s.cell :: rest := hboard ▸ h.cells
  have hopens : Opens m b opened s.board := hboard ▸ h.opens
  have hsplit : b.emptyCells = opened.map Sighting.cell ++ s.cell :: rest := by
    rw [hopens.emptyCells_eq, hcells]
  obtain ⟨tried, hperm, htried⟩ := h.fresh
  have hnodup : (tried ++ s.value :: us).Nodup :=
    hperm.nodup_iff.mpr ((pairwise_valuesTo m).imp Int.ne_of_lt)
  refine ⟨rest, hseen.symm.trans h.seen, hsplit, hopens.accepted, hopens.range, hopens.held, ?_, ?_,
    hopens.frame, hopens.regions, hopens.listed, ?_, h.among, h.entered, ?_, ?_⟩
  · intro i hi
    exact (Board.mem_emptyCells.mp (hcells ▸ hi)).2
  · intro i hi
    exact hopens.kept fun hin => hi (hsplit ▸ List.mem_append_left _ hin)
  · exact mem_valuesTo.mp (hperm.mem_iff.mp (by simp))
  · intro q hq
    obtain ⟨hcell, houtside⟩ := h.below q hq
    refine ⟨hcell, fun o ho => ?_⟩
    have hheld := hopens.held o ho
    have hout : o.cell ∉ s.cell :: rest := by
      intro hin
      rw [(Board.mem_emptyCells.mp (hcells ▸ hin)).2] at hheld
      cases hheld
    rw [houtside _ hout, ← hheld, hboard]
  · intro q hq hcell heq
    have hin : s.value ∈ tried := heq ▸ htried q hq hcell
    exact (List.nodup_append.mp hnodup).2.2 _ hin _ List.mem_cons_self rfl

/-! ## Whole searches

The order holds at the first frame, every step keeps it, and queries are made at
the moments reached. -/

/-- All queries of a search are in order. -/
theorem run_disciplined {p : Plan (σ × List Sighting) ρ ε} {j : Judge σ ε} {m : Nat}
    (hp : p.judge = j.watched) (hs : ∀ t, (p.supply.draw t).1.toList.Perm (valuesTo m))
    (w : Walk σ ρ) : Disciplined m w.board (run p w.watching).2.seen := by
  intro before s hlog
  have hrun : Runs p (.frame w.board.emptyCells) 0 w.watching (run p w.watching) :=
    runs_explore _ _ _ _
  obtain ⟨x, hreach, hasks⟩ := hrun.sighted hp hlog (by simp)
  obtain ⟨opened, earlier, since, hx⟩ := reaches_inOrder hreach hp hs (inOrder_start m w)
  obtain ⟨rest, horder⟩ := hx.orderly hasks
  exact ⟨opened, earlier, since, rest, horder⟩

/-- Whatever a judge goes by and wherever it breaks down, all three searches keep to the
same discipline at every query: the board is the given one with accepted values in the
first of its empty cells, the query is about the next of them and a value in the range,
and the frame that makes it has not made it before. -/
theorem searches_disciplined (j : Judge σ ε) (c : Conditions) (limit : Limit) (m : Nat) :
    (∀ w : Walk σ Unit, limit.resolve w.board = .ok m →
      let r := solve j.watched c limit w.watching
      solve j c limit w = (r.1, r.2.mapMemory Prod.fst) ∧ Disciplined m w.board r.2.seen) ∧
    (∀ w : Walk σ Twister, limit.resolve w.board = .ok m →
      let r := randomSolve j.watched c limit w.watching
      randomSolve j c limit w = (r.1, r.2.mapMemory Prod.fst) ∧ Disciplined m w.board r.2.seen) ∧
    (∀ w : Walk σ Unit, limit.resolve w.board = .ok m →
      let r := countCompletions j.watched c limit w.watching
      countCompletions j c limit w = (r.1, r.2.mapMemory Prod.fst) ∧
        Disciplined m w.board r.2.seen) := by
  refine ⟨fun w hm => ⟨solve_watched j c limit w, ?_⟩,
    fun w hm => ⟨randomSolve_watched j c limit w, ?_⟩,
    fun w hm => ⟨countCompletions_watched j c limit w, ?_⟩⟩
  · have hm : limit.resolve w.watching.board = .ok m := hm
    rw [solve_eq_fill hm, fill_eq_map]
    exact run_disciplined rfl (fun _ => List.Perm.refl _) w
  · have hm : limit.resolve w.watching.board = .ok m := hm
    rw [randomSolve_eq_fill hm, fill_eq_map]
    exact run_disciplined rfl (draws_shuffled m).perm w
  · have hm : limit.resolve w.watching.board = .ok m := hm
    rw [countCompletions_eq_map hm]
    exact run_disciplined rfl (fun _ => List.Perm.refl _) w

theorem searches_disciplined_row :
    let b := Board.blank (.rectangle 2 1 (by decide) (by decide))
    let first : Sighting := ⟨b, 0, 1, some true⟩
    let second : Sighting := ⟨b.put 0 (some 1), 1, 1, some false⟩
    let third : Sighting := ⟨b.put 0 (some 1), 1, 2, some true⟩
    let w : Walk Unit Unit := { clashing with board := b }
    let r := solve (.ofTest Rules.rowUnique.allows : Judge Unit Empty).watched {} (.given 2)
      w.watching
    r.2.seen = [first, second, third] ∧ ∃ opened earlier since rest,
      [first, second] = earlier ++ since ∧ Orderly 2 b opened earlier since third rest := by
  intro b first second third w r
  obtain ⟨hsolve, -, -⟩ :=
    searches_disciplined (.ofTest Rules.rowUnique.allows : Judge Unit Empty) {} (.given 2) 2
  obtain ⟨-, horder⟩ := hsolve w rfl
  have hseen : r.2.seen = [first, second, third] := rfl
  exact ⟨hseen, horder [first, second] third (hseen ▸ List.prefix_refl _)⟩

end GridFill.Search
