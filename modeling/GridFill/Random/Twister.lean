/-
# `GridFill.Random.Twister` — a seeded source of random words and permutations

The Mersenne twister with 624 words of 32 bits.  A seed of any size and sign is
taken apart into the 32-bit digits of its absolute value, which are stirred
into the words; the words are then renewed 624 at a time and each is tempered
before it is handed out.

To shuffle an array its entries are swapped from the last one down, each with one of
those up to and including it.  A swap never loses an entry, so whatever is drawn the
result is a rearrangement of the entries (`shuffle_perm`).
-/
namespace GridFill

/-- The words of a twister and how many of them have been handed out. -/
structure Twister where
  words : Array UInt32
  used : Nat

namespace Twister

/-- The number of words. -/
def count : Nat := 624

/-! ## Seeding -/

/-- A word of the state; past the end there is zero. -/
def word (a : Array UInt32) (i : Nat) : UInt32 := a.getD i 0

/-- What each word takes over from the one before it while seeding. -/
def carry (w : UInt32) : UInt32 := w ^^^ (w >>> 30)

/-- Appends `left` words, each grown from the one before it. -/
def grow (a : Array UInt32) : Nat → Array UInt32
  | 0 => a
  | left + 1 =>
    grow (a.push (1812433253 * carry (word a (a.size - 1)) + a.size.toUInt32)) left

/-- The words grown from a single one. -/
def ofWord (w : UInt32) : Array UInt32 := grow #[w] (count - 1)

/-- How many values a word can have. -/
def wordBound : Nat := 4294967296

/-- The 32-bit digits of a number, the lowest first; zero has one digit. -/
def digits (n : Nat) : List UInt32 :=
  if n < wordBound then [n.toUInt32] else n.toUInt32 :: digits (n / wordBound)
termination_by n
decreasing_by
  have : wordBound = 4294967296 := rfl
  exact Nat.div_lt_self (by omega) (by decide)

/-- The place after `i` while seeding: from the last place it goes on at the
second one, and the last word is copied into the first. -/
def wrap (i : Nat) (a : Array UInt32) : Nat × Array UInt32 :=
  if i + 1 < count then (i + 1, a) else (1, a.setIfInBounds 0 (word a (count - 1)))

/-- Stirs digits into the words, `left` times from place `i` on. Together with
its place each digit is added; after the last digit the first one follows. -/
def stirDigits (key : Array UInt32) (i j : Nat) (a : Array UInt32) : Nat → Nat × Array UInt32
  | 0 => (i, a)
  | left + 1 =>
    let w := (word a i ^^^ (carry (word a (i - 1)) * 1664525)) + word key j + j.toUInt32
    let (i, a) := wrap i (a.setIfInBounds i w)
    stirDigits key i (if j + 1 < key.size then j + 1 else 0) a left

/-- Stirs the words among themselves, `left` times from place `i` on. -/
def stirWords (i : Nat) (a : Array UInt32) : Nat → Array UInt32
  | 0 => a
  | left + 1 =>
    let w := (word a i ^^^ (carry (word a (i - 1)) * 1566083941)) - i.toUInt32
    let (i, a) := wrap i (a.setIfInBounds i w)
    stirWords i a left

/-- The twister of a seed. -/
def ofSeed (seed : Int) : Twister :=
  let key := (digits seed.natAbs).toArray
  let (i, a) := stirDigits key 1 0 (ofWord 19650218) (max count key.size)
  { words := (stirWords i a (count - 1)).setIfInBounds 0 0x80000000, used := count }

/-! ## Drawing -/

/-- The highest bit of one word joined with the other bits of the next, shifted,
with the constant mixed in if the lowest bit was set. -/
def twist (high low : UInt32) : UInt32 :=
  let y := (high &&& 0x80000000) ||| (low &&& 0x7fffffff)
  (y >>> 1) ^^^ (if y &&& 1 = 1 then 0x9908b0df else 0)

/-- Renews `left` words from place `i` on, in place. -/
def renewFrom (i : Nat) (a : Array UInt32) : Nat → Array UInt32
  | 0 => a
  | left + 1 =>
    let w := word a ((i + 397) % count) ^^^ twist (word a i) (word a ((i + 1) % count))
    renewFrom (i + 1) (a.setIfInBounds i w) left

/-- Spreads the bits of a word that is handed out. -/
def temper (y : UInt32) : UInt32 :=
  let y := y ^^^ (y >>> 11)
  let y := y ^^^ ((y <<< 7) &&& 0x9d2c5680)
  let y := y ^^^ ((y <<< 15) &&& 0xefc60000)
  y ^^^ (y >>> 18)

/-- The next word and the twister after it. -/
def next (t : Twister) : UInt32 × Twister :=
  if t.used < count then
    (temper (word t.words t.used), { t with used := t.used + 1 })
  else
    let a := renewFrom 0 t.words count
    (temper (word a 0), { words := a, used := 1 })

/-- The number of binary digits of a number. -/
def bitLength (n : Nat) : Nat := if n = 0 then 0 else n.log2 + 1

/-- The highest `bits` bits of the next word, as a number. -/
def nextBits (bits : Nat) (t : Twister) : Nat × Twister :=
  let (w, t) := t.next
  (w.toNat >>> (32 - bits), t)

/-- How many draws may be refused before a number is forced into range. Each is
refused with a chance below one half. -/
def patience : Nat := 4096

/-- Draws numbers with as many bits as the bound has until one is below it. -/
def belowFrom (bound : Nat) (t : Twister) : Nat → Nat × Twister
  | 0 => (0, t)
  | left + 1 =>
    let (n, t) := t.nextBits (bitLength bound)
    if n < bound then (n, t) else belowFrom bound t left

/-- A number below the bound. -/
def below (bound : Nat) (t : Twister) : Nat × Twister :=
  belowFrom bound t patience

/-! ## Shuffling -/

/-- Shuffles the first `n + 1` entries of an array. -/
def shuffleFrom {α : Type} (a : Array α) (t : Twister) : Nat → Array α × Twister
  | 0 => (a, t)
  | n + 1 =>
    let draw := t.below (n + 2)
    shuffleFrom (a.swapIfInBounds (n + 1) draw.1) draw.2 n

/-- A shuffled array and the twister after it. -/
def shuffle {α : Type} (a : Array α) (t : Twister) : Array α × Twister :=
  shuffleFrom a t (a.size - 1)

theorem swapIfInBounds_perm {α : Type} (a : Array α) (i j : Nat) :
    (a.swapIfInBounds i j).Perm a := by
  unfold Array.swapIfInBounds
  split
  · split
    · exact Array.swap_perm _ _
    · exact .refl _
  · exact .refl _

theorem shuffleFrom_perm {α : Type} (n : Nat) (a : Array α) (t : Twister) :
    (shuffleFrom a t n).1.Perm a := by
  induction n generalizing a t with
  | zero => exact .refl _
  | succ n ih => exact (ih _ _).trans (swapIfInBounds_perm _ _ _)

theorem shuffle_perm {α : Type} (a : Array α) (t : Twister) : (shuffle a t).1.Perm a :=
  shuffleFrom_perm _ _ _

end Twister

end GridFill
