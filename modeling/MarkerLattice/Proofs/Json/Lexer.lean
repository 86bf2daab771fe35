import Mathlib.Tactic
import MarkerLattice.Json.Token
import MarkerLattice.Proofs.Stored.Packed

/-! Strings and numbers that are written are read back. A string ends at its quote
whatever follows; a number ends at what cannot be part of it. -/
namespace MarkerLattice

namespace JsonText

theorem toNat_lt_of_lt {b : UInt8} (h : b < 32) : b.toNat < 32 := UInt8.lt_iff_toNat_lt.mp h

theorem escapeByte_cases (b : UInt8) :
    (∃ c, (c, b) ∈ writtenEscapes ∧ escapeByte b = [backslash, c]) ∨
    (∃ n < 32, b = UInt8.ofNat n ∧
      escapeByte b = [backslash, 117, 48, 48, hexByte (n / 16), hexByte (n % 16)]) ∨
    b ≠ quote ∧ b ≠ backslash ∧ ¬b < 32 ∧ escapeByte b = [b] := by
  rw [escapeByte]
  split
  next e found =>
    have held := List.find?_some found
    have mem := List.mem_of_find?_eq_some found
    obtain ⟨c, b'⟩ := e
    obtain rfl : b' = b := by simpa using held
    exact .inl ⟨c, mem, rfl⟩
  next missing =>
    have other := List.find?_eq_none.mp missing
    split
    next low =>
      exact .inr (.inl ⟨b.toNat, toNat_lt_of_lt low, (UInt8.ofNat_toNat).symm, rfl⟩)
    next high =>
      refine .inr (.inr ⟨?_, ?_, high, rfl⟩)
      · rintro rfl
        exact other (34, 34) (by decide) rfl
      · rintro rfl
        exact other (92, 92) (by decide) rfl

theorem lex?_escapeByte (b : UInt8) (rest : Bytes) :
    lex? (escapeByte b ++ rest) = (lex? rest).map fun r => (escapeByte b ++ r.1, r.2) := by
  rcases escapeByte_cases b with ⟨c, mem, form⟩ | ⟨n, low, -, form⟩ | ⟨nq, nb, high, form⟩
  · rw [form]
    simp only [writtenEscapes, shortEscapes] at mem
    fin_cases mem <;> rfl
  · rw [form]
    have hex : (hexValue4? 48 48 (hexByte (n / 16)) (hexByte (n % 16))).isSome := by
      interval_cases n <;> decide
    simp [lex?, hex, backslash, quote]
  · rw [form, List.singleton_append, lex?.eq_def]
    simp [nq, nb, high]

theorem lex?_escape (s : String) (rest : Bytes) :
    lex? (escape s ++ quote :: rest) = some (escape s, rest) := by
  rw [escape]
  induction Bytes.ofString s with
  | nil =>
    rw [List.flatMap_nil, List.nil_append, lex?.eq_def]
    simp
  | cons b bytes ih => simp [lex?_escapeByte, ih]

theorem unescape?_escapeByte (b : UInt8) (rest : Bytes) :
    unescape? (escapeByte b ++ rest) = (unescape? rest).map (b :: ·) := by
  rcases escapeByte_cases b with ⟨c, mem, form⟩ | ⟨n, low, same, form⟩ | ⟨nq, nb, high, form⟩
  · rw [form]
    simp only [writtenEscapes, shortEscapes] at mem
    rw [Option.map_eq_bind]
    fin_cases mem <;> rfl
  · rw [form, Option.map_eq_bind]
    have hex : hexValue4? 48 48 (hexByte (n / 16)) (hexByte (n % 16)) = some n := by
      interval_cases n <;> decide
    have point : encodePoint n = [UInt8.ofNat n] := by
      interval_cases n <;> decide
    have single : isTrailing n = false ∧ isLeading n = false := by
      interval_cases n <;> decide
    rw [same]
    simp [unescape?, hex, point, single, backslash]
  · rw [form, List.singleton_append, Option.map_eq_bind, unescape?.eq_def]
    simp only [nb, if_false]
    rfl

theorem text?_escape (s : String) : text? (escape s) = some s := by
  have bytes : unescape? (escape s) = some (Bytes.ofString s) := by
    rw [escape]
    induction Bytes.ofString s with
    | nil => simp [unescape?]
    | cons b bytes ih => simp [unescape?_escapeByte, ih]
  rw [text?, bytes, Option.bind_some, Bytes.text?_ofString]

end JsonText


namespace Digit

theorem ofByte?_toByte (d : Digit) : ofByte? d.toByte = some d := by
  revert d
  decide

theorem toByte_ne (d : Digit) {b : UInt8} (h : ofByte? b = none) : d.toByte ≠ b := by
  rintro rfl
  simp [ofByte?_toByte] at h

def Ends (rest : Bytes) : Prop := ∀ b ∈ rest.head?, ofByte? b = none

theorem lex_append (digits : List Digit) {rest : Bytes} (h : Ends rest) :
    lex (digits.map toByte ++ rest) = (digits, rest) := by
  induction digits with
  | nil =>
    cases rest with
    | nil => rfl
    | cons b rest => simp [lex, h b rfl]
  | cons d digits ih => simp [lex, ofByte?_toByte, ih]

end Digit

namespace JsonNumber

/-- What can stand behind a number that is written: nothing, a comma or a line break. -/
def Stops (rest : Bytes) : Prop := ∀ b ∈ rest.head?, b = 44 ∨ b = 10

structure Sound (n : JsonNumber) : Prop where
  whole : isWhole n.whole = true
  exponent : ∀ e ∈ n.exponent, e.2 ≠ []

section Lexing

variable {rest : Bytes} (h : Stops rest)
include h

theorem ends_of_stops : Digit.Ends rest := by
  intro b front
  rcases h b front with rfl | rfl <;> rfl

theorem ends_exponentBytes (exponent : Option (ExponentSign × List Digit)) :
    Digit.Ends (exponentBytes exponent ++ rest) := by
  cases exponent with
  | none => exact ends_of_stops h
  | some e =>
    intro b front
    obtain rfl : 101 = b := by simpa [exponentBytes] using front
    rfl

theorem ends_fractionBytes (fraction : List Digit)
    (exponent : Option (ExponentSign × List Digit)) :
    Digit.Ends (fractionBytes fraction ++ (exponentBytes exponent ++ rest)) := by
  cases fraction with
  | nil => exact ends_exponentBytes h exponent
  | cons d digits =>
    intro b front
    obtain rfl : 46 = b := by simpa [fractionBytes] using front
    rfl

omit h in
theorem lexWhole?_append {digits : List Digit} (sound : isWhole digits = true)
    (ends : Digit.Ends rest) :
    lexWhole? (digits.map Digit.toByte ++ rest) = some (digits, rest) := by
  rw [lexWhole?, Digit.lex_append digits ends, if_pos sound]

omit h in
theorem lexSign_append (sign : ExponentSign) {digits : List Digit} (filled : digits ≠ []) :
    lexSign (signBytes sign ++ (digits.map Digit.toByte ++ rest)) =
      (sign, digits.map Digit.toByte ++ rest) := by
  cases sign with
  | plus => rfl
  | minus => rfl
  | none =>
    obtain ⟨d, digits, rfl⟩ := List.exists_cons_of_ne_nil filled
    have plus : d.toByte ≠ 43 := d.toByte_ne rfl
    have minus : d.toByte ≠ 45 := d.toByte_ne rfl
    simp [signBytes, lexSign, plus, minus]

theorem lexExponent?_append {exponent : Option (ExponentSign × List Digit)}
    (filled : ∀ e ∈ exponent, e.2 ≠ []) :
    lexExponent? (exponentBytes exponent ++ rest) = some (exponent, rest) := by
  cases exponent with
  | none =>
    cases rest with
    | nil => rfl
    | cons b rest => rcases h b rfl with rfl | rfl <;> rfl
  | some e =>
    obtain ⟨sign, digits⟩ := e
    have nonempty : digits ≠ [] := filled _ rfl
    have lexed := Digit.lex_append digits (ends_of_stops h)
    obtain ⟨d, digits, rfl⟩ := List.exists_cons_of_ne_nil nonempty
    simp only [exponentBytes, lexExponent?, List.cons_append, List.append_assoc,
      lexSign_append sign nonempty, lexed]
    rfl

theorem lexFraction?_append (fraction : List Digit)
    (exponent : Option (ExponentSign × List Digit)) :
    lexFraction? (fractionBytes fraction ++ (exponentBytes exponent ++ rest)) =
      some (fraction, exponentBytes exponent ++ rest) := by
  have ends := ends_exponentBytes h exponent
  cases fraction with
  | nil =>
    cases exponent with
    | some e => rfl
    | none =>
      cases rest with
      | nil => rfl
      | cons b rest => rcases h b rfl with rfl | rfl <;> rfl
  | cons d digits =>
    have lexed := Digit.lex_append (d :: digits) ends
    simp only [fractionBytes, lexFraction?, List.isEmpty_cons, Bool.false_eq_true, if_false,
      List.cons_append, lexed]

theorem lex?_append {n : JsonNumber} (sound : n.Sound) :
    lex? (n.toBytes ++ rest) = some (n, rest) := by
  obtain ⟨negative, whole, fraction, exponent⟩ := n
  obtain ⟨sound, filled⟩ := sound
  simp only at sound filled
  have front := lexWhole?_append sound (ends_fractionBytes h fraction exponent)
  have middle := lexFraction?_append h fraction exponent
  have back := lexExponent?_append h filled
  cases negative with
  | true => simp [toBytes, lex?, front, middle, back]
  | false =>
    -- Without a sign the first byte is a digit.
    cases whole with
    | nil => simp [isWhole] at sound
    | cons d digits =>
      have minus : d.toByte ≠ 45 := d.toByte_ne rfl
      rw [List.map_cons, List.cons_append] at front
      simp [toBytes, lex?, minus, front, middle, back]

end Lexing

end JsonNumber

namespace JsonToken

theorem tokens_blank {c : UInt8} (h : isBlank c = true) (rest : Bytes) :
    tokens (c :: rest) = tokens rest := by
  rw [tokens, if_pos h]

theorem tokens_cons {c : UInt8} {rest after : Bytes} {token : JsonToken}
    (solid : isBlank c = false) (h : lex? c rest = some (token, after)) :
    tokens (c :: rest) = token :: tokens after := by
  rw [tokens, if_neg (by simp [solid])]
  split
  next none => simp [h] at none
  next found =>
    rw [h] at found
    cases found
    rfl

end JsonToken

end MarkerLattice
