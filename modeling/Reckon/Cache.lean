/-
  Reckon — a cache of formulas that have been read.

  A cache stores what a text was read as, by the text to the letter, and
  hands it out when the text is asked for again.  When it has reached its
  capacity it goes on with what it has, and it may be disabled.  Texts that
  cannot be read are not stored.

  Each formula that is built gets a serial number of its own (`Shared`): two
  answers with one number are one and the same formula, handed out twice.
-/
import Reckon.Formula.Evaluation
import Reckon.Formula.Reading

namespace Reckon

/-- A formula as it is handed out; the serial number tells it from all others
    that were built, also from equal ones. -/
structure Shared where
  serial : Nat
  formula : Formula
deriving DecidableEq

/-- How a cache works. -/
structure Cache.Options where
  /-- whether anything is stored at all -/
  enabled : Bool := true
  /-- the number of formulas that can be stored, if it is limited -/
  capacity : Option Nat := none
deriving DecidableEq

/-- A cache: the stored formulas in the order in which they came, and the
    next serial number. -/
structure Cache where
  options : Cache.Options
  entries : List (String × Shared)
  nextSerial : Nat
deriving DecidableEq

namespace Cache

/-- A cache with nothing stored. -/
def new (options : Options) : Cache := ⟨options, [], 0⟩

/-- What is stored for a text. -/
def find? (c : Cache) (text : String) : Option Shared :=
  c.entries.lookup text

/-- Whether exactly this text is stored. -/
def contains (c : Cache) (text : String) : Bool :=
  (c.find? text).isSome

/-- The number of stored formulas. -/
def size (c : Cache) : Nat :=
  c.entries.length

/-- Whether nothing is stored. -/
def isEmpty (c : Cache) : Bool :=
  c.entries.isEmpty

/-- Drop all that is stored.  What was handed out is not touched. -/
def clear (c : Cache) : Cache :=
  { c with entries := [] }

/-- Whether the capacity is reached. -/
def isFull (c : Cache) : Bool :=
  c.options.capacity.any fun n => n ≤ c.size

/-- Read a text, whether it is stored or not. -/
def build (c : Cache) (text : String) : Logged Error Shared × Cache :=
  (do return ⟨c.nextSerial, ← Formula.parseLogged text⟩, { c with nextSerial := c.nextSerial + 1 })

/-- Store a formula, unless the capacity is reached. -/
def store (c : Cache) (text : String) (s : Shared) : Cache :=
  if c.isFull then c else { c with entries := c.entries ++ [(text, s)] }

/-- The formula of a text: the stored one, or one that is read now and
    stored. -/
def get (c : Cache) (text : String) : Logged Error Shared × Cache :=
  if c.options.enabled then
    match c.find? text with
    | some s => (do Logged.note (.hit text); return s, c)
    | none =>
      let (shared, c) := c.build text
      (do Logged.note (.miss text); shared,
        match shared.outcome with
        | .ok s => c.store text s
        | .error _ => c)
  else c.build text

/-- The value of the formula of a text. -/
def evaluate (c : Cache) (text : String) (v : Valuation) : Logged Error Binary64 × Cache :=
  let (shared, c) := c.get text
  (do (← shared).formula.evaluate v, c)

/-- The values of the formula of a text under several valuations, one after
    another. -/
def evaluateEach (c : Cache) (text : String) :
    List Valuation → List (Logged Error Binary64) × Cache
  | [] => ([], c)
  | v :: vs =>
    let (value, c) := c.evaluate text v
    let (values, c) := c.evaluateEach text vs
    (value :: values, c)

end Cache

end Reckon
