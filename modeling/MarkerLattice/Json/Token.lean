import MarkerLattice.Json.Number
import MarkerLattice.Json.Text

/-!
JSON tokens. Splitting a text into tokens ends at the first place that starts no
token, which becomes a token of its own.
-/
namespace MarkerLattice

inductive JsonToken where
  | openBrace
  | closeBrace
  | openBracket
  | closeBracket
  | colon
  | comma
  | null
  | bool (value : Bool)
  | number (n : JsonNumber)
  | string (raw : Bytes)
  | fault
deriving DecidableEq, Repr

namespace JsonToken

def isBlank (b : UInt8) : Bool := b = 32 || b = 9 || b = 10 || b = 13

def afterWord? : Bytes → Bytes → Option Bytes
  | [], b => some b
  | w :: word, c :: rest => if w = c then afterWord? word rest else none
  | _ :: _, [] => none

theorem length_afterWord? {word b rest : Bytes} (h : afterWord? word b = some rest) :
    rest.length ≤ b.length := by
  fun_induction afterWord? word b <;> simp_all
  omega

def punctuation? (c : UInt8) : Option JsonToken :=
  [(123, openBrace), (125, closeBrace), (91, openBracket), (93, closeBracket),
    (58, colon), (44, comma)].lookup c

def word? (c : UInt8) : Option (Bytes × JsonToken) :=
  [(110, [117, 108, 108], null), (116, [114, 117, 101], bool true),
    (102, [97, 108, 115, 101], bool false)].lookup c

def lex? (c : UInt8) (rest : Bytes) : Option (JsonToken × Bytes) :=
  match punctuation? c with
  | some token => some (token, rest)
  | none =>
    match word? c with
    | some (word, token) => (afterWord? word rest).map fun r => (token, r)
    | none =>
      if c = JsonText.quote then (JsonText.lex? rest).map fun r => (string r.1, r.2)
      else (JsonNumber.lex? (c :: rest)).map fun r => (number r.1, r.2)

theorem length_lex? {c : UInt8} {rest after : Bytes} {token : JsonToken}
    (h : lex? c rest = some (token, after)) : after.length ≤ rest.length := by
  unfold lex? at h
  split at h
  · cases h
    exact Nat.le_refl _
  · split at h
    · obtain ⟨r, hr, h⟩ := Option.map_eq_some_iff.mp h
      cases h
      exact length_afterWord? hr
    · split at h
      · obtain ⟨r, hr, h⟩ := Option.map_eq_some_iff.mp h
        cases h
        exact JsonText.length_lex? hr
      · obtain ⟨r, hr, h⟩ := Option.map_eq_some_iff.mp h
        cases h
        exact Nat.le_of_lt_succ (JsonNumber.length_lex? hr)

def tokens : Bytes → List JsonToken
  | [] => []
  | c :: rest =>
    if isBlank c then tokens rest
    else
      match h : lex? c rest with
      | none => [fault]
      | some (token, after) =>
        have := length_lex? h
        token :: tokens after
termination_by b => b.length

end JsonToken

end MarkerLattice
