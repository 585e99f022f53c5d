/-
# `GridFill.Text.Basic` — words, lines and quoted texts

A word is a maximal run of characters that are not blank.  The blanks are the
spaces and line ends of Unicode together with the four separator controls
`U+001C` to `U+001F`, so a word never contains any of them.

Three line ends are in use: a line feed, a carriage return, and the two in a
row.  `unifyEnds` turns each into one line feed; `lines` then cuts after every
line feed.  Each line keeps its end, so the last one shows whether the text
closed it, and an empty text has no line at all.

In a message a text is shown between single quotes, or between double quotes when
it holds a single quote and no double one.  The quote in use and the backslash get
a backslash in front; tabs and line ends have letters of their own; a character
that has no glyph is written as its code in hexadecimal.
-/
namespace GridFill.Text

/-! ## Words -/

/-- The characters that stand between words. -/
def isBlank (c : Char) : Bool :=
  let n := c.toNat
  (0x09 ≤ n && n ≤ 0x0d) || (0x1c ≤ n && n ≤ 0x20) || n == 0x85 || n == 0xa0 || n == 0x1680 ||
    (0x2000 ≤ n && n ≤ 0x200a) || n == 0x2028 || n == 0x2029 || n == 0x202f || n == 0x205f ||
    n == 0x3000

/-- The words of a text, in order. -/
def words (s : List Char) : List (List Char) :=
  (s.splitOnP isBlank).filter (!·.isEmpty)

/-- A text without the blanks at its two ends. -/
def trim (s : List Char) : List Char :=
  ((s.dropWhile isBlank).reverse.dropWhile isBlank).reverse

/-- Whether a text holds nothing but blanks. -/
def isBlankLine (s : List Char) : Bool :=
  s.all isBlank

/-! ## Lines -/

/-- Writes every line end as a single line feed. -/
def unifyEnds : List Char → List Char
  | [] => []
  | '\r' :: '\n' :: s => '\n' :: unifyEnds s
  | '\r' :: s => '\n' :: unifyEnds s
  | c :: s => c :: unifyEnds s

/-- Cuts after every line feed; `line` is the reversed beginning of the current line. -/
def linesFrom (line : List Char) : List Char → List (List Char)
  | [] => if line.isEmpty then [] else [line.reverse]
  | c :: s =>
      if c = '\n' then (c :: line).reverse :: linesFrom [] s
      else linesFrom (c :: line) s

/-- The lines of a text, each with its line feed. -/
def lines (s : List Char) : List (List Char) :=
  linesFrom [] (unifyEnds s)

/-! ## Quoted texts -/

/-- The ranges of characters without a glyph: controls, format characters,
separators other than the space, and private use. -/
def glyphless : List (Nat × Nat) :=
  [(0x0, 0x1f), (0x7f, 0xa0), (0xad, 0xad), (0x600, 0x605), (0x61c, 0x61c), (0x6dd, 0x6dd),
    (0x70f, 0x70f), (0x890, 0x891), (0x8e2, 0x8e2), (0x1680, 0x1680), (0x180e, 0x180e),
    (0x2000, 0x200f), (0x2028, 0x202f), (0x205f, 0x2064), (0x2066, 0x206f), (0x3000, 0x3000),
    (0xe000, 0xf8ff), (0xfeff, 0xfeff), (0xfff9, 0xfffb), (0x110bd, 0x110bd),
    (0x110cd, 0x110cd), (0x13430, 0x13438), (0x1bca0, 0x1bca3), (0x1d173, 0x1d17a),
    (0xe0001, 0xe0001), (0xe0020, 0xe007f), (0xf0000, 0xffffd), (0x100000, 0x10fffd)]

/-- Whether a character is shown as itself. -/
def hasGlyph (c : Char) : Bool :=
  !glyphless.any fun r => r.1 ≤ c.toNat && c.toNat ≤ r.2

/-- The code of a character in at least `width` hexadecimal digits. -/
def hexCode (width : Nat) (c : Char) : List Char :=
  let digits := Nat.toDigits 16 c.toNat
  List.replicate (width - digits.length) '0' ++ digits

/-- One character as it stands between the quotes `q`. -/
def escape (q c : Char) : List Char :=
  if c = q || c = '\\' then ['\\', c]
  else if c = '\n' then ['\\', 'n']
  else if c = '\r' then ['\\', 'r']
  else if c = '\t' then ['\\', 't']
  else if hasGlyph c then [c]
  else if c.toNat < 0x100 then '\\' :: 'x' :: hexCode 2 c
  else if c.toNat < 0x10000 then '\\' :: 'u' :: hexCode 4 c
  else '\\' :: 'U' :: hexCode 8 c

/-- The quote a text is shown between. -/
def quoteFor (s : List Char) : Char :=
  if s.contains '\'' && !s.contains '"' then '"' else '\''

/-- A text between quotes. -/
def quoted (s : String) : String :=
  let q := quoteFor s.toList
  String.ofList (q :: s.toList.flatMap (escape q) ++ [q])

end GridFill.Text
