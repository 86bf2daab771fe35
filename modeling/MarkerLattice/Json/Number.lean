import MarkerLattice.Binary32.Decimal
import MarkerLattice.Bytes

/-!
JSON numbers as they are written, digit for digit, and the numbers that they
stand for.
-/
namespace MarkerLattice

abbrev Digit := Fin 10

inductive ExponentSign where
  | none
  | plus
  | minus
deriving DecidableEq, Repr

/-- A JSON number by its parts. An empty fraction means that there is no
point. -/
structure JsonNumber where
  negative : Bool
  whole : List Digit
  fraction : List Digit
  exponent : Option (ExponentSign × List Digit)
deriving DecidableEq, Repr

namespace Digit

def toByte (d : Digit) : UInt8 := UInt8.ofNat (48 + d.val)

def ofByte? (b : UInt8) : Option Digit :=
  if 48 ≤ b.toNat && b.toNat ≤ 57 then some (Fin.ofNat 10 (b.toNat - 48)) else none

def lex : Bytes → List Digit × Bytes
  | [] => ([], [])
  | b :: rest =>
    match ofByte? b with
    | some d =>
      let (digits, rest) := lex rest
      (d :: digits, rest)
    | none => ([], b :: rest)

def pushNat (n : Nat) (digits : List Digit) : List Digit :=
  if h : n < 10 then ⟨n, h⟩ :: digits
  else pushNat (n / 10) (⟨n % 10, Nat.mod_lt n (by decide)⟩ :: digits)

def ofNat (n : Nat) : List Digit := pushNat n []

def toNat (digits : List Digit) : Nat := digits.foldl (fun n d => 10 * n + d.val) 0

theorem length_lex (b : Bytes) : (lex b).1.length + (lex b).2.length = b.length := by
  induction b with
  | nil => simp [lex]
  | cons c rest ih =>
    cases h : ofByte? c with
    | none => simp [lex, h]
    | some d => simp [lex, h]; omega

end Digit

namespace JsonNumber

def fractionBytes (digits : List Digit) : Bytes :=
  if digits.isEmpty then [] else 46 :: digits.map Digit.toByte

def signBytes : ExponentSign → Bytes
  | .none => []
  | .plus => [43]
  | .minus => [45]

def exponentBytes : Option (ExponentSign × List Digit) → Bytes
  | none => []
  | some (sign, digits) => 101 :: (signBytes sign ++ digits.map Digit.toByte)

def toBytes (n : JsonNumber) : Bytes :=
  (if n.negative then [45] else []) ++ n.whole.map Digit.toByte ++
    fractionBytes n.fraction ++ exponentBytes n.exponent

def lexFraction? (b : Bytes) : Option (List Digit × Bytes) :=
  match b with
  | 46 :: rest =>
    match Digit.lex rest with
    | ([], _) => none
    | found => some found
  | _ => some ([], b)

def lexSign (b : Bytes) : ExponentSign × Bytes :=
  match b with
  | 43 :: rest => (.plus, rest)
  | 45 :: rest => (.minus, rest)
  | _ => (.none, b)

def lexExponent? (b : Bytes) : Option (Option (ExponentSign × List Digit) × Bytes) :=
  match b with
  | [] => some (none, b)
  | c :: rest =>
    if c = 101 || c = 69 then
      let (sign, rest) := lexSign rest
      match Digit.lex rest with
      | ([], _) => none
      | (digits, rest) => some (some (sign, digits), rest)
    else some (none, b)

def isWhole : List Digit → Bool
  | [] => false
  | [_] => true
  | d :: _ :: _ => d ≠ 0

def lexWhole? (b : Bytes) : Option (List Digit × Bytes) :=
  let found := Digit.lex b
  if isWhole found.1 then some found else none

def lex? (b : Bytes) : Option (JsonNumber × Bytes) := do
  let (negative, b) := match b with
    | 45 :: rest => (true, rest)
    | _ => (false, b)
  let (whole, b) ← lexWhole? b
  let (fraction, b) ← lexFraction? b
  let (exponent, b) ← lexExponent? b
  return ({ negative, whole, fraction, exponent }, b)

theorem length_lexWhole? {b rest : Bytes} {digits : List Digit}
    (h : lexWhole? b = some (digits, rest)) : rest.length < b.length := by
  have total := Digit.length_lex b
  simp only [lexWhole?, Option.ite_none_right_eq_some, Option.some.injEq] at h
  obtain ⟨whole, h⟩ := h
  rw [h] at whole total
  cases digits with
  | nil => cases whole
  | cons d ds =>
    simp only [List.length_cons] at total
    omega

theorem length_lexFraction? {b rest : Bytes} {digits : List Digit}
    (h : lexFraction? b = some (digits, rest)) : rest.length ≤ b.length := by
  unfold lexFraction? at h
  split at h
  · rename_i after
    have total := Digit.length_lex after
    split at h
    · cases h
    · simp_all
      omega
  · cases h
    exact Nat.le_refl _

theorem length_lexSign (b : Bytes) : (lexSign b).2.length ≤ b.length := by
  unfold lexSign
  split <;> simp

theorem length_lexExponent? {b rest : Bytes}
    {exponent : Option (ExponentSign × List Digit)}
    (h : lexExponent? b = some (exponent, rest)) : rest.length ≤ b.length := by
  unfold lexExponent? at h
  split at h
  · cases h
    exact Nat.le_refl _
  · rename_i c after
    have sign := length_lexSign after
    have total := Digit.length_lex (lexSign after).2
    split at h
    · dsimp only at h
      split at h
      · cases h
      · rename_i found
        cases h
        rw [found] at total
        simp only [List.length_cons] at *
        omega
    · cases h
      exact Nat.le_refl _

theorem length_lex? {b rest : Bytes} {n : JsonNumber} (h : lex? b = some (n, rest)) :
    rest.length < b.length := by
  simp only [lex?, Option.bind_eq_bind, Option.bind_eq_some_iff, Option.pure_def,
    Option.some.injEq, Prod.mk.injEq, Prod.exists] at h
  obtain ⟨whole, b₁, hw, fraction, b₂, hf, exponent, b₃, he, -, rfl⟩ := h
  have h₁ := length_lexWhole? hw
  have h₂ := length_lexFraction? hf
  have h₃ := length_lexExponent? he
  split at h₁
  · simp only [List.length_cons] at *
    omega
  · dsimp only at h₁
    omega

def ofInt (n : Int) : JsonNumber :=
  { negative := n < 0, whole := Digit.ofNat n.natAbs, fraction := [], exponent := none }

/-- The whole number that is written without a point and an exponent. A negative
zero is none. -/
def toInt? (n : JsonNumber) : Option Int :=
  if n.fraction.isEmpty && n.exponent.isNone then
    let value : Int := Digit.toNat n.whole
    if n.negative then if value = 0 then none else some (-value) else some value
  else none

structure Layout where
  plainFrom : Int
  plainTo : Int

/-- JSON numbers are positional from a millionth up to ten to the thirteenth. -/
def layout : Layout := ⟨-6, 12⟩

def ofDigits (negative : Bool) (digits : List Digit) (top : Int) : JsonNumber :=
  if layout.plainFrom ≤ top && top ≤ layout.plainTo then
    if top < 0 then
      { negative, whole := [0]
        fraction := List.replicate (-top - 1).toNat 0 ++ digits, exponent := none }
    else
      let count := top.toNat + 1
      let fraction := digits.drop count
      { negative
        whole := digits.take count ++ List.replicate (count - digits.length) 0
        fraction := if fraction.isEmpty then [0] else fraction
        exponent := none }
  else
    { negative, whole := digits.take 1, fraction := digits.drop 1
      exponent := some (if top < 0 then .minus else .plus, Digit.ofNat top.natAbs) }

def ofBinary32? (x : Binary32) : Option JsonNumber :=
  match x.value with
  | .finite negative d =>
    if d.significand = 0 then some (ofDigits negative [0] 0)
    else
      let decimal := Binary32.shortestDecimal d
      let digits := Digit.ofNat decimal.coefficient
      some (ofDigits negative digits (decimal.exponent + digits.length - 1))
  | _ => none

/-- Takes up digits while the number fits 64 bits, and returns the digits that
were left. -/
def absorb (n : Nat) : List Digit → Nat × List Digit
  | [] => (n, [])
  | d :: rest =>
    if 10 * n + d.val < UInt64.size then absorb (10 * n + d.val) rest else (n, d :: rest)

def doublePower (n : Nat) : Dyadic := BinaryGrid.double.nearest (Nat.pow 10 n) 1

def doubleQuotient (a b : Dyadic) : Dyadic :=
  BinaryGrid.double.nearest (a.numerator * b.denominator) (a.denominator * b.numerator)

def doubleProduct (a b : Dyadic) : Dyadic :=
  let d : Dyadic := ⟨a.significand * b.significand, a.quantum + b.quantum⟩
  BinaryGrid.double.nearest d.numerator d.denominator

def isBeyondDouble (d : Dyadic) : Bool := d.denominator * Nat.pow 2 1024 ≤ d.numerator

/-- Scales a double precision number by a power of ten, in one rounded step if
the power fits and in several if the result is very small. -/
def scaleDouble (d : Dyadic) (exponent : Int) : Option Dyadic :=
  if exponent.natAbs ≤ 308 then
    if exponent < 0 then some (doubleQuotient d (doublePower exponent.natAbs))
    else
      let product := doubleProduct d (doublePower exponent.natAbs)
      if isBeyondDouble product then none else some product
  else if d.significand = 0 then some d
  else if 0 ≤ exponent then none
  else scaleDouble (doubleQuotient d (doublePower 308)) (exponent + 308)
termination_by exponent.natAbs

def ofParts? (negative : Bool) (n : Nat) (exponent : Int) : Option Binary32 :=
  (scaleDouble (BinaryGrid.double.nearest n 1) exponent).map (.ofDyadic negative)

/-- The single precision number that a JSON number stands for. Whole numbers of
64 bits are rounded once. All others keep as many digits as fit 64 bits and go
through double precision; beyond its range there is no value. -/
def toBinary32? (n : JsonNumber) : Option Binary32 :=
  let (whole, left) := absorb 0 n.whole
  if left.isEmpty && n.fraction.isEmpty && n.exponent.isNone &&
      (!n.negative || (0 < whole && whole ≤ 0x8000000000000000)) then
    some (.ofQuotient n.negative whole 1)
  else
    let (digits, dropped) := absorb whole n.fraction
    let scale : Int := left.length - (n.fraction.length - dropped.length : Nat)
    match n.exponent with
    | none => ofParts? n.negative digits scale
    | some (sign, e) =>
      let e : Int := Digit.toNat e
      if 0x80000000 ≤ e then
        if digits ≠ 0 && sign ≠ .minus then none else some (.signedZero n.negative)
      else ofParts? n.negative digits (if sign = .minus then scale - e else scale + e)

end JsonNumber

end MarkerLattice
