import MarkerLattice.Bytes

/-!
Bytes shown as text even where they are no UTF-8. Every longest run of bytes
that starts a character and is broken off, and every byte that starts none,
becomes one replacement character.
-/
namespace MarkerLattice.Text

def followers? (lead : UInt8) : Option (List (UInt8 × UInt8)) :=
  let any : UInt8 × UInt8 := (0x80, 0xbf)
  if lead < 0x80 then some []
  else if lead < 0xc2 then none
  else if lead < 0xe0 then some [any]
  else if lead = 0xe0 then some [(0xa0, 0xbf), any]
  else if lead = 0xed then some [(0x80, 0x9f), any]
  else if lead < 0xf0 then some [any, any]
  else if lead = 0xf0 then some [(0x90, 0xbf), any, any]
  else if lead < 0xf4 then some [any, any, any]
  else if lead = 0xf4 then some [(0x80, 0x8f), any, any]
  else none

def countWithin : List (UInt8 × UInt8) → Bytes → Nat
  | r :: ranges, b :: rest =>
    if r.1 ≤ b && b ≤ r.2 then countWithin ranges rest + 1 else 0
  | _, _ => 0

def charOf (lead : UInt8) (tail : Bytes) : Char :=
  let start := if tail.isEmpty then lead.toNat else lead.toNat % Nat.pow 2 (6 - tail.length)
  Char.ofNat (tail.foldl (fun n b => 64 * n + b.toNat % 64) start)

def replacement : Char := Char.ofNat 0xfffd

def lossyChars : Bytes → List Char
  | [] => []
  | lead :: rest =>
    match followers? lead with
    | none => replacement :: lossyChars rest
    | some ranges =>
      let n := countWithin ranges rest
      let c := if n = ranges.length then charOf lead (rest.take n) else replacement
      c :: lossyChars (rest.drop n)
termination_by b => b.length
decreasing_by all_goals simp [List.length_drop]; try omega

def lossy (b : Bytes) : String := String.ofList (lossyChars b)

end MarkerLattice.Text
