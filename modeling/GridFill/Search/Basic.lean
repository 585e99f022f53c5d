/-
# `GridFill.Search.Basic` — the three searches

`solve` fills a board trying values in ascending order, `randomSolve` in a
fresh random order at every cell, and `countCompletions` finds out whether a
board has no completion, one, or several.  All three take the greatest value
to try as a `Limit`, which has to be a positive whole number if it is given.
-/
import GridFill.Search.Explore

namespace GridFill.Search

/-- The greatest value to try, as a caller gives it. -/
inductive Limit where
  /-- As many values as there are cells. -/
  | cells
  /-- A whole number. -/
  | given (n : Int)
  /-- Something that is no whole number, with its text. -/
  | other (shown : String)

/-- The number that a limit stands for. -/
def Limit.resolve (b : Board) : Limit → Except Fault Nat
  | .cells => .ok b.listed
  | .given n => if n < 1 then .error (.badLimit (toString n)) else .ok n.toNat
  | .other shown => .error (.badLimit shown)

theorem Limit.resolve_given {m : Nat} (h : 0 < m) (b : Board) :
    (Limit.given m).resolve b = .ok m := by
  rw [resolve, if_neg (by omega), Int.toNat_natCast]

/-- How many completions a board has, as far as it was asked. -/
structure Completions where
  found : Bool
  multiple : Bool
deriving DecidableEq

/-- What a tally says that showed `first` completions before they were counted. -/
def Completions.since (first : Int) (t : Tally) : Completions where
  found := 0 < t.solutions - first
  multiple := 1 < t.solutions - first

variable {σ ρ ε : Type}

/-- The plan of a search that fills a board with values drawn from a supply. -/
def Plan.filling (j : Judge σ ε) (c : Conditions) (s : Supply ρ) : Plan σ ρ ε where
  judge := j
  supply := s
  goal := .fill
  conditions := c

/-- Fills the board of a walk with values drawn from a supply; the answer is
whether it is filled. -/
def fill (j : Judge σ ε) (c : Conditions) (s : Supply ρ) (w : Walk σ ρ) :
    Except (SearchFault ε) Bool × Walk σ ρ :=
  match run (.filling j c s) w with
  | (.ok a, w) => (.ok (a = .stop), w)
  | (.error e, w) => (.error e, w)

/-- Fills the board, trying values in ascending order at every cell. -/
def solve (j : Judge σ ε) (c : Conditions) (limit : Limit) (w : Walk σ Unit) :
    Except (SearchFault ε) Bool × Walk σ Unit :=
  match limit.resolve w.board with
  | .error f => (.error (.fault f), w)
  | .ok m => fill j c (.ascending m) w

/-- Fills the board, trying values in a random order at every cell. -/
def randomSolve (j : Judge σ ε) (c : Conditions) (limit : Limit) (w : Walk σ Twister) :
    Except (SearchFault ε) Bool × Walk σ Twister :=
  match limit.resolve w.board with
  | .error f => (.error (.fault f), w)
  | .ok m => fill j c (.shuffled m) w

/-- How many completions suffice to call a board ambiguous. -/
def ambiguity : Int := 2

/-- The plan of a search that counts completions with values up to `m`, from a
tally that shows `first` of them already. -/
def Plan.counting (j : Judge σ ε) (c : Conditions) (m : Nat) (first : Int) : Plan σ Unit ε where
  judge := j
  supply := .ascending m
  goal := .count (first + ambiguity)
  conditions := c

/-- Counts the completions of the board up to two, trying values in ascending
order, and leaves the board as it was. -/
def countCompletions (j : Judge σ ε) (c : Conditions) (limit : Limit) (w : Walk σ Unit) :
    Except (SearchFault ε) Completions × Walk σ Unit :=
  match limit.resolve w.board with
  | .error f => (.error (.fault f), w)
  | .ok m =>
    let first := w.tally.solutions
    match run (.counting j c m first) w with
    | (.error e, w) => (.error e, w)
    | (.ok _, w) => (.ok (.since first w.tally), w)

end GridFill.Search
