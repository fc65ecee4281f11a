import Mathlib.Data.List.DropRight

/-!
# What the scripts use of Perl and Python

Texts are lists of characters. A regular expression of the Perl scripts is a list of `Item`s, none
of them inside another: a repetition takes as much as it can and gives it back one by one, and the
first place of the text where all items match is the one that counts. The parentheses are two
marks each; what is captured is what lies between them.
-/

set_option autoImplicit false

namespace TokuQa.Scripts

/-- `\s`, and what Python splits at and strips. -/
def isSpace (c : Char) : Bool := c = ' ' || ('\t' ≤ c && c ≤ '\r')

inductive Item where
  | one (p : Char → Bool)
  /-- `?` -/
  | opt (p : Char → Bool)
  /-- `*` -/
  | many (p : Char → Bool)
  /-- A parenthesis, of either kind. -/
  | mark

def Item.text (s : String) : List Item := s.toList.map fun c => .one fun c' => c' == c

/-- `(\d*)`. -/
def Item.digits : List Item := [.mark, .many Char.isDigit, .mark]

/-- `(\d*\.\d*)`. -/
def Item.fraction : List Item :=
  [.mark, .many Char.isDigit, .one (· == '.'), .many Char.isDigit, .mark]

/-- `(\d+\.?\d*)`. -/
def Item.decimal : List Item :=
  [.mark, .one Char.isDigit, .many Char.isDigit, .opt (· == '.'), .many Char.isDigit, .mark]

/-- `.*` in a line. -/
def Item.anything : List Item := [.many fun _ => true]

/-- As many characters as possible, then the rest. -/
def manyThen (p : Char → Bool) (rest : List Char → Option (List (List Char))) :
    List Char → Option (List (List Char))
  | [] => rest []
  | c :: s => if p c then (manyThen p rest s).or (rest (c :: s)) else rest (c :: s)

/-- The match at the beginning of a text: what is left of it at the marks. -/
def matchItems : List Item → List Char → Option (List (List Char))
  | [], _ => some []
  | .one _ :: _, [] => none
  | .one p :: items, c :: s => if p c then matchItems items s else none
  | .opt _ :: items, [] => matchItems items []
  | .opt p :: items, c :: s =>
    if p c then (matchItems items s).or (matchItems items (c :: s)) else matchItems items (c :: s)
  | .many p :: items, s => manyThen p (matchItems items) s
  | .mark :: items, s => (matchItems items s).map (s :: ·)

/-- What lies between the marks, two by two. -/
def captures : List (List Char) → List (List Char)
  | s :: s' :: marks => s.take (s.length - s'.length) :: captures marks
  | _ => []

/-- `=~`, with what it returns in list context; `none` if there is no match. -/
def search (items : List Item) : List Char → Option (List (List Char))
  | [] => (matchItems items []).map captures
  | c :: s => ((matchItems items (c :: s)).map captures).or (search items s)

/-- `=~` with a text that has no special characters. -/
def contains (s : String) (line : List Char) : Bool := (search (Item.text s) line).isSome

/-- `split(' ', line)`, and `line.split()`. -/
def splitBlank (line : List Char) : List (List Char) :=
  (line.splitOnP isSpace).filter fun field => field ≠ []

/-- `split(',', line)`, assigned to variables: empty fields at the end stay. -/
def splitComma (line : List Char) : List (List Char) := line.splitOnP (· == ',')

/-- A field of a list, of which an undefined one counts as empty. -/
def field (fields : List (List Char)) (k : Nat) : List Char := fields.getD k []

/-- A text as a condition. -/
def isTrue (s : List Char) : Bool := s ≠ [] && s ≠ ['0']

/-- Also `strip()`. -/
def trim (s : List Char) : List Char := (s.dropWhile isSpace).rdropWhile isSpace

end TokuQa.Scripts
