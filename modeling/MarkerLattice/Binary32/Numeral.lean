import MarkerLattice.Binary32
import MarkerLattice.Text.Numeral

/-!
Single precision numbers as they are typed: decimal digits with an optional
sign, point and power of ten, or a word for an infinity or a NaN.
-/
namespace MarkerLattice.Binary32

def exponent? : List Char → Option Int
  | [] => some 0
  | c :: rest => if c = 'e' || c = 'E' then Text.integer? rest else none

def fractionDigits : List Char → List Char × List Char
  | '.' :: rest => rest.span Char.isDigit
  | rest => ([], rest)

def decimal? (negative : Bool) (cs : List Char) : Option Binary32 :=
  let (whole, rest) := cs.span Char.isDigit
  let (fraction, rest) := fractionDigits rest
  if whole.isEmpty && fraction.isEmpty then none
  else (exponent? rest).map fun e =>
    ofDecimal negative (Text.digitsValue (whole ++ fraction)) (e - fraction.length)

def word? (negative : Bool) (cs : List Char) : Option Binary32 :=
  let word := String.ofList (cs.map Char.toLower)
  if word = "inf" || word = "infinity" then some (infinity negative)
  else if word = "nan" then some (if negative then nan.neg else nan)
  else none

def unsigned? (negative : Bool) (cs : List Char) : Option Binary32 :=
  (decimal? negative cs).or (word? negative cs)

def ofText? (s : String) : Option Binary32 :=
  match s.toList with
  | '-' :: cs => unsigned? true cs
  | '+' :: cs => unsigned? false cs
  | cs => unsigned? false cs

end MarkerLattice.Binary32
