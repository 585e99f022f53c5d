/-
# `GridFill.Text.Numeral` — whole numbers as text

Unicode lists its decimal digits (category `Nd`) in runs of ten, zero first.
`digitZeros` holds the code points of the zeros, and a digit's value is its
distance from the zero of its run.

`integer?` reads a number the lenient way: blanks around it, one sign in front,
digits of any script, and single underscores between two digits.  `withCommas`
writes one with a comma after every third digit, counted from the right.

A machine may refuse to read and write numbers of very many digits.  Reading has
the limit `maxDigits`; what is written is checked first (`checkDigits`), with a
limit that is given, since a machine can be told to have another one or none.
-/
import GridFill.Fault
import GridFill.Text.Basic

namespace GridFill.Text

/-! ## Digits -/

/-- The code points of the zeros of all scripts, in ascending order. -/
def digitZeros : List Nat :=
  [0x30, 0x660, 0x6f0, 0x7c0, 0x966, 0x9e6, 0xa66, 0xae6, 0xb66, 0xbe6, 0xc66, 0xce6, 0xd66,
    0xde6, 0xe50, 0xed0, 0xf20, 0x1040, 0x1090, 0x17e0, 0x1810, 0x1946, 0x19d0, 0x1a80, 0x1a90,
    0x1b50, 0x1bb0, 0x1c40, 0x1c50, 0xa620, 0xa8d0, 0xa900, 0xa9d0, 0xa9f0, 0xaa50, 0xabf0,
    0xff10, 0x104a0, 0x10d30, 0x11066, 0x110f0, 0x11136, 0x111d0, 0x112f0, 0x11450, 0x114d0,
    0x11650, 0x116c0, 0x11730, 0x118e0, 0x11950, 0x11c50, 0x11d50, 0x11da0, 0x11f50, 0x16a60,
    0x16ac0, 0x16b50, 0x1d7ce, 0x1d7d8, 0x1d7e2, 0x1d7ec, 0x1d7f6, 0x1e140, 0x1e2f0, 0x1e4f0,
    0x1e950, 0x1fbf0]

/-- The value of a decimal digit of any script. -/
def digit? (c : Char) : Option Nat :=
  (digitZeros.find? fun z => z ≤ c.toNat && c.toNat < z + 10).map (c.toNat - ·)

/-! ## Reading -/

/-- The most digits a number may be written with. -/
def maxDigits : Nat := 4300

/-- The limit on what is written, unless it is said otherwise. -/
def usualLimit : Option Nat := some maxDigits

/-- Reads on after a digit: `value` is the number so far and `count` how many
digits it has. -/
def digitsFrom : List Char → Nat → Nat → Option (Nat × Nat)
  | [], value, count => some (value, count)
  | '_' :: c :: s, value, count =>
      match digit? c with
      | some d => digitsFrom s (10 * value + d) (count + 1)
      | none => none
  | c :: s, value, count =>
      match digit? c with
      | some d => digitsFrom s (10 * value + d) (count + 1)
      | none => none

/-- Reads a number without sign or blanks. -/
def natural? : List Char → Option Nat
  | [] => none
  | c :: s => do
      let d ← digit? c
      let (value, count) ← digitsFrom s d 1
      if count ≤ maxDigits then some value else none

/-- Reads a number that may have a sign. -/
def signed? : List Char → Option Int
  | '-' :: s => (natural? s).map fun n => -(n : Int)
  | '+' :: s => (natural? s).map Int.ofNat
  | s => (natural? s).map Int.ofNat

/-- Reads a number that may have a sign, with any blanks around it. -/
def integer? (s : List Char) : Option Int :=
  signed? (trim s)

/-! ## Writing -/

/-- How many digits a number is written with. -/
def digitCount (n : Int) : Nat := (Nat.toDigits 10 n.natAbs).length

/-- Refuses numbers of more digits than the limit allows, if there is one. -/
def checkDigits (limit : Option Nat) (ns : List Int) : Except Fault Unit :=
  match limit with
  | none => .ok ()
  | some most => if ns.all fun n => digitCount n ≤ most then .ok () else .error (.digitCount most)

/-- Puts a comma after every third of the given reversed digits. -/
def groupThrees : List Char → List Char
  | a :: b :: c :: d :: s => a :: b :: c :: ',' :: groupThrees (d :: s)
  | s => s

/-- A natural number with commas between groups of three digits. -/
def natWithCommas (n : Nat) : String :=
  String.ofList (groupThrees (Nat.toDigits 10 n).reverse).reverse

/-- A whole number with commas between groups of three digits. -/
def withCommas (n : Int) : String :=
  if n < 0 then "-" ++ natWithCommas n.natAbs else natWithCommas n.natAbs

end GridFill.Text
