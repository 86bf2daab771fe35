import MarkerLattice.Bytes

/-!
JSON strings between their quotes. A quote, a backslash and control characters
are written as escapes; all other bytes stand for themselves.
-/
namespace MarkerLattice.JsonText

def quote : UInt8 := 34

def backslash : UInt8 := 92

def shortEscapes : List (UInt8 × UInt8) :=
  [(34, 34), (92, 92), (47, 47), (98, 8), (102, 12), (110, 10), (114, 13), (116, 9)]

/-- The escapes of one letter that are written. A slash needs none. -/
def writtenEscapes : List (UInt8 × UInt8) := shortEscapes.filter fun e => e.1 ≠ 47

def hexByte (n : Nat) : UInt8 := UInt8.ofNat (if n < 10 then 48 + n else 87 + n)

def hexValue? (b : UInt8) : Option Nat :=
  let n := b.toNat
  if 48 ≤ n && n ≤ 57 then some (n - 48)
  else if 97 ≤ n && n ≤ 102 then some (n - 87)
  else if 65 ≤ n && n ≤ 70 then some (n - 55)
  else none

def hexValue4? (a b c d : UInt8) : Option Nat := do
  let a ← hexValue? a
  let b ← hexValue? b
  let c ← hexValue? c
  let d ← hexValue? d
  return ((a * 16 + b) * 16 + c) * 16 + d

def escapeByte (b : UInt8) : Bytes :=
  match writtenEscapes.find? fun e => e.2 = b with
  | some e => [backslash, e.1]
  | none =>
    if b < 32 then [backslash, 117, 48, 48, hexByte (b.toNat / 16), hexByte (b.toNat % 16)]
    else [b]

def escape (s : String) : Bytes := (Bytes.ofString s).flatMap escapeByte

/-- Splits a text behind an opening quote into a raw string and what follows the
closing quote. Escapes have to be well formed, control characters are refused;
what the bytes stand for is not looked at. -/
def lex? : Bytes → Option (Bytes × Bytes)
  | [] => none
  | b :: rest =>
    if b = quote then some ([], rest)
    else if b = backslash then
      match rest with
      | [] => none
      | 117 :: h1 :: h2 :: h3 :: h4 :: rest =>
        if (hexValue4? h1 h2 h3 h4).isSome then
          (lex? rest).map fun r => (b :: 117 :: h1 :: h2 :: h3 :: h4 :: r.1, r.2)
        else none
      | c :: rest =>
        if shortEscapes.any fun e => e.1 = c then
          (lex? rest).map fun r => (b :: c :: r.1, r.2)
        else none
    else if b < 32 then none
    else (lex? rest).map fun r => (b :: r.1, r.2)

def encodePoint (n : Nat) : Bytes := String.utf8EncodeChar (Char.ofNat n)

def isLeading (n : Nat) : Bool := 0xd800 ≤ n && n < 0xdc00

def isTrailing (n : Nat) : Bool := 0xdc00 ≤ n && n < 0xe000

/-- The bytes that a raw string stands for. Surrogates have to come in pairs. -/
def unescape? : Bytes → Option Bytes
  | [] => some []
  | b :: rest =>
    if b = backslash then
      match rest with
      | 117 :: h1 :: h2 :: h3 :: h4 :: rest => do
        let n ← hexValue4? h1 h2 h3 h4
        if isTrailing n then none
        else if isLeading n then
          match rest with
          | 92 :: 117 :: t1 :: t2 :: t3 :: t4 :: rest => do
            let m ← hexValue4? t1 t2 t3 t4
            if isTrailing m then
              return encodePoint (0x10000 + (n - 0xd800) * 0x400 + (m - 0xdc00)) ++
                (← unescape? rest)
            else none
          | _ => none
        else return encodePoint n ++ (← unescape? rest)
      | c :: rest => do
        let e ← shortEscapes.find? fun e => e.1 = c
        return e.2 :: (← unescape? rest)
      | [] => none
    else return b :: (← unescape? rest)

def text? (raw : Bytes) : Option String := (unescape? raw).bind Bytes.text?

theorem length_lex? {b raw rest : Bytes} (h : lex? b = some (raw, rest)) :
    rest.length ≤ b.length := by
  fun_induction lex? b generalizing raw rest <;>
    simp_all [Option.map_eq_some_iff] <;> grind

end MarkerLattice.JsonText
