/-
  Reckon — the tokens of a text.

  A formula contains ASCII letters, digits and `-+*/()=.` only.  Its tokens
  are found kind by kind (`Kind.sweepOrder`): the matches of a kind are looked
  for from left to right, each as long as it can be, and blanked, so that no
  character is found twice (`sweep`).  Names come first, which keeps the
  digits of a name from being taken for a number.  A character that is left
  belongs to no token; a point without digits before it and `=` are such.

  * `Pattern.matchLength` is the length of the match at the head of a text;
  * `find` gives the places of all matches in any text;
  * `scan` gives the tokens of a formula in their order.
-/
import Reckon.Error
import Reckon.Token

namespace Reckon

/-! ## The alphabet -/

/-- The characters of formulas that are neither letters nor digits. -/
def alphabetSymbols : List Char := ['-', '+', '*', '/', '(', ')', '=', '.']

/-- Whether a formula may contain a character. -/
def isAllowed (c : Char) : Bool :=
  c.isAlphanum || alphabetSymbols.contains c

/-- Whether all characters of a text are allowed in a formula. -/
def inAlphabet (text : String) : Bool :=
  text.toList.all isAllowed

/-- The characters of a text that are not allowed, each once, in the order in
    which they first occur. -/
def outsiders (text : String) : List Char :=
  (text.toList.filter fun c => !isAllowed c).eraseDups

/-! ## Patterns -/

/-- The shapes of tokens. -/
inductive Pattern where
  /-- a letter and the letters and digits behind it -/
  | name
  /-- digits, and a point and digits behind them -/
  | decimal
  | only (c : Char)
deriving DecidableEq

namespace Pattern

/-- A pattern as a regular expression. -/
def source : Pattern → String
  | name => "[a-zA-Z][a-zA-Z0-9]*"
  | decimal => "[0-9]+(\\.[0-9]*)?"
  | only c => if "+*()".toList.contains c then "\\" ++ c.toString else c.toString

/-- The characters in the longest match at the head of a text, zero if there
    is no match. -/
def matchLength : Pattern → List Char → Nat
  | _, [] => 0
  | name, c :: cs => if c.isAlpha then (cs.takeWhile Char.isAlphanum).length + 1 else 0
  | decimal, cs =>
    match (cs.takeWhile Char.isDigit).length with
    | 0 => 0
    | n => match cs.drop n with
      | '.' :: rest => n + 1 + (rest.takeWhile Char.isDigit).length
      | _ => n
  | only c, d :: _ => if d = c then 1 else 0

end Pattern

namespace Kind

/-- The shape of the tokens of a kind.  The unary minus has none, as it is
    told from the binary one by its place only. -/
def pattern? : Kind → Option Pattern
  | var => some .name
  | number => some .decimal
  | operator (.binary op) => some (.only op.symbol)
  | operator .negate => none
  | openParen => some (.only '(')
  | closeParen => some (.only ')')

/-- The kinds in the order in which they are looked for. -/
def sweepOrder : List Kind :=
  [var, number, operator (.binary .add), operator (.binary .sub), operator (.binary .div),
    operator (.binary .mul), openParen, closeParen]

end Kind

/-! ## Scanning -/

/-- What matched characters are replaced by; no formula contains it. -/
def blank : Char := ' '

/-- The bytes of a text. -/
def byteLength (cs : List Char) : Nat :=
  cs.foldr (fun c n => c.utf8Size + n) 0

/-- The matches of a pattern, as tokens of the given kind, in a text that
    begins at the byte `start`, and the text with them blanked. -/
def sweep (kind : Kind) (p : Pattern) (start : Nat) : List Char → List Token × List Char
  | [] => ([], [])
  | c :: cs =>
    match p.matchLength (c :: cs) with
    | 0 =>
      let (tokens, line) := sweep kind p (start + c.utf8Size) cs
      (tokens, c :: line)
    | n + 1 =>
      let text := c :: cs.take n
      let stop := start + byteLength text
      let (tokens, line) := sweep kind p stop (cs.drop n)
      (⟨kind, String.ofList text, start, stop⟩ :: tokens, List.replicate (n + 1) blank ++ line)
termination_by cs => cs.length

/-- The byte offsets of the two ends of each match of a kind's pattern in any
    text; none for a kind without one. -/
def Kind.find? (k : Kind) (text : String) : Option (List (Nat × Nat)) :=
  k.pattern?.map fun p => (sweep k p 0 text.toList).1.map fun t => (t.start, t.stop)

/-- The tokens of one more kind, and the text with them blanked. -/
def sweepKind : List Token × List Char → Kind → List Token × List Char
  | (tokens, line), k =>
    match k.pattern? with
    | none => (tokens, line)
    | some p =>
      let (found, line) := sweep k p 0 line
      (tokens ++ found, line)

/-- The tokens of a formula, in their order. -/
def scan (formula : String) : Except Error (List Token) :=
  if outsiders formula ≠ [] then .error (.alphabet (String.ofList (outsiders formula)))
  else
    let (tokens, line) := Kind.sweepOrder.foldl sweepKind ([], formula.toList)
    let rest := line.filter (· ≠ blank)
    if rest ≠ [] then .error (.lexical (.unrecognized (String.ofList rest)))
    else if tokens = [] then .error (.lexical .empty)
    else .ok (tokens.mergeSort fun s t => s.start ≤ t.start)

end Reckon
