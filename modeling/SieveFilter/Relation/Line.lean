import SieveFilter.Relation
import SieveFilter.Relation.Root
import SieveFilter.Text.Blank
import SieveFilter.Text.Quoted

/-!
# Relation lines

A relation is written on one line as `a,b:p₁,p₂,…:q₁,q₂,…`, with `a` and `b` in decimal and the primes of
the rational and of the algebraic norm in hexadecimal.  A prime that is listed `k` times has exponent `k`.
On the line of a free relation the rational list is not read, and the algebraic list holds the roots above
the prime `|a|`.
-/

namespace SieveFilter.Relation

open Text (NumeralError Numeral.readInt Numeral.readNat Numeral.maxSigned Numeral.maxWord Numeral.hexText
  trim trimEnd quoted)

/-- The ways in which a line fails to be a relation. -/
inductive LineError where
  | fieldCount
  | missingComma
  | badA (cause : NumeralError)
  | badB (cause : NumeralError)
  | badPrime (token : List Char) (cause : NumeralError)
  | invalidPrime (p : Nat)
  | invalidFreePrime (p : Nat)
  | rootAbovePrime (r p : Nat)
  | rootTwice (r : Nat)
  deriving DecidableEq, Repr

def LineError.message : LineError → String
  | .fieldCount => "expected three ':'-separated fields"
  | .missingComma => "missing ',' between a and b"
  | .badA cause => s!"bad a: {cause.message}"
  | .badB cause => s!"bad b: {cause.message}"
  | .badPrime token cause => s!"bad prime {String.ofList (quoted token)}: {cause.message}"
  | .invalidPrime p => s!"invalid prime {Numeral.hexText p}"
  | .invalidFreePrime p => s!"free relation: invalid prime {Numeral.hexText p}"
  | .rootAbovePrime r p => s!"free relation root {Numeral.hexText r} above prime {Numeral.hexText p}"
  | .rootTwice r => s!"free relation root {Numeral.hexText r} listed twice"

namespace Line

/-- The fields of a text between the occurrences of a separator; there is always at least one. -/
def fields (separator : Char) : List Char → List (List Char)
  | [] => [[]]
  | c :: rest =>
    match c == separator, fields separator rest with
    | true, parts => [] :: parts
    | false, [] => [[c]]
    | false, part :: parts => (c :: part) :: parts

/-- The texts before and after the first occurrence of a separator. -/
def splitFirst? (separator : Char) : List Char → Option (List Char × List Char)
  | [] => none
  | c :: rest =>
    if c == separator then some ([], rest)
    else (splitFirst? separator rest).map fun (before, after) => (c :: before, after)

/-- A number can be the prime of an ideal when it is at least two and below the rational root. -/
def isPrimeLike (p : Nat) : Bool :=
  2 ≤ p && p < Ideal.rationalRoot

/-- Reads one hexadecimal number of a list, blanks around it allowed. -/
def readEntry (token : List Char) : Except LineError Nat :=
  match Numeral.readNat 16 Numeral.maxWord (trim token) with
  | .ok n => .ok n
  | .error cause => .error (.badPrime token cause)

/-- Reads a comma-separated list of hexadecimal numbers; a blank field is the empty list. -/
def readEntries (field : List Char) : Except LineError (List Nat) :=
  match trim field with
  | [] => .ok []
  | field => (fields ',' field).mapM readEntry

/-- Reads a list of primes, every entry being read before the first is checked. -/
def readPrimes (field : List Char) : Except LineError (List Nat) := do
  let primes ← readEntries field
  match primes.find? (!isPrimeLike ·) with
  | some p => .error (.invalidPrime p)
  | none => .ok primes

/-- Adds one occurrence of `p` to a list of primes with multiplicities. -/
def countPrime (counted : List (Nat × Nat)) (p : Nat) : List (Nat × Nat) :=
  match counted with
  | [] => [(p, 1)]
  | (q, e) :: rest => if q = p then (q, e + 1) :: rest else (q, e) :: countPrime rest p

/-- The distinct primes of a list with their multiplicities, in order of first occurrence. -/
def countPrimes (primes : List Nat) : List (Nat × Nat) :=
  primes.foldl countPrime []

/-- Checks the roots of a free relation from the left: each is at most the prime, and none is among the
roots `seen` before it. -/
def checkRoots (p : Nat) (seen : List Nat) : List Nat → Except LineError Unit
  | [] => .ok ()
  | r :: rest =>
    if p < r then .error (.rootAbovePrime r p)
    else if seen.contains r then .error (.rootTwice r)
    else checkRoots p (r :: seen) rest

def readPair (field : List Char) : Except LineError (Int × Nat) :=
  match splitFirst? ',' field with
  | none => .error .missingComma
  | some (left, right) =>
    match Numeral.readInt Numeral.maxSigned (trim left) with
    | .error cause => .error (.badA cause)
    | .ok a =>
      match Numeral.readNat 10 Numeral.maxWord (trim right) with
      | .error cause => .error (.badB cause)
      | .ok b => .ok (a, b)

/-- The free relation of a prime from the list of its roots. -/
def readFree (a : Int) (algebraic : List Char) : Except LineError Relation := do
  let p := a.natAbs
  if !isPrimeLike p then .error (.invalidFreePrime p)
  else
    let roots ← readEntries algebraic
    checkRoots p [] roots
    return {
      a
      b := 0
      rational := [⟨p, 1⟩]
      algebraic := roots.map (⟨p, ·, 1⟩) }

/-- The relation of a pair from the lists of its primes. -/
def readFactored
    (a : Int) (b : Nat) (rational algebraic : List Char) : Except LineError Relation := do
  let ps ← readPrimes rational
  let qs ← readPrimes algebraic
  return {
    a
    b
    rational := (countPrimes ps).map fun (p, e) => ⟨p, e⟩
    algebraic := (countPrimes qs).map fun (q, e) => ⟨q, findRoot a b q, e⟩ }

end Line

def ofChars (line : List Char) : Except LineError Relation :=
  match Line.fields ':' (trimEnd line) with
  | [pair, rational, algebraic] => do
    let (a, b) ← Line.readPair pair
    if b = 0 then Line.readFree a algebraic else Line.readFactored a b rational algebraic
  | _ => .error .fieldCount

def ofLine (line : String) : Except LineError Relation :=
  ofChars line.toList

end SieveFilter.Relation
