import Mathlib
import MarkerLattice.Script.Condition

/-! The grammar of written conditions. A phrase is a term, or two terms joined by
`AND` or `OR`; a term is negated, a truth value, a name or a phrase in
parentheses. A text has at most one phrase. -/
namespace MarkerLattice

inductive Token where
  | left
  | right
  | word (w : String)
deriving DecidableEq

namespace Token

def isLetter (c : Char) : Bool := !c.isWhitespace && c != '(' && c != ')'

def ofText : List Char → List Token
  | [] => []
  | c :: cs =>
    if c.isWhitespace then ofText cs
    else if c = '(' then left :: ofText cs
    else if c = ')' then right :: ofText cs
    else word (String.ofList (c :: cs.takeWhile isLetter)) :: ofText (cs.dropWhile isLetter)
termination_by cs => cs.length
decreasing_by
  all_goals simp only [List.length_cons]
  · omega
  · omega
  · omega
  · exact Nat.lt_succ_of_le (List.dropWhile_suffix _).length_le

def reserved : List String := ["AND", "OR", "NOT", "True", "False", "<NONE>"]

/-- A word that can name a marker. -/
def IsName (w : String) : Prop :=
  w ≠ "" ∧ w.toList.all isLetter = true ∧ w ∉ reserved

instance (w : String) : Decidable (IsName w) := inferInstanceAs (Decidable (_ ∧ _ ∧ _))

/-- A text in which a word before it ends. -/
def Stops (cs : List Char) : Prop := ∀ c ∈ cs.head?, isLetter c = false

theorem stops_space (rest : List Char) : Stops (' ' :: rest) := by simp [Stops, isLetter]

theorem stops_right (rest : List Char) : Stops (')' :: rest) := by simp [Stops, isLetter]

theorem takeWhile_append_of_stops {w rest : List Char} (letters : ∀ c ∈ w, isLetter c = true)
    (stops : Stops rest) : (w ++ rest).takeWhile isLetter = w := by
  rw [List.takeWhile_append_of_pos letters]
  cases rest with
  | nil => simp
  | cons c rest => simp [stops c rfl]

theorem dropWhile_append_of_stops {w rest : List Char} (letters : ∀ c ∈ w, isLetter c = true)
    (stops : Stops rest) : (w ++ rest).dropWhile isLetter = rest := by
  rw [List.dropWhile_append_of_pos letters]
  cases rest with
  | nil => rfl
  | cons c rest => simp [stops c rfl]

theorem ofText_word {w : String} (nonempty : w ≠ "") (letters : w.toList.all isLetter = true)
    {rest : List Char} (stops : Stops rest) :
    ofText (w.toList ++ rest) = word w :: ofText rest := by
  obtain ⟨c, cs, split⟩ := List.exists_cons_of_ne_nil (mt String.toList_eq_nil_iff.mp nonempty)
  rw [List.all_eq_true, split, List.forall_mem_cons] at letters
  obtain ⟨letter, letters⟩ := letters
  have letter' := letter
  simp only [isLetter, Bool.and_eq_true, Bool.not_eq_true', bne_iff_ne] at letter'
  obtain ⟨⟨dark, notLeft⟩, notRight⟩ := letter'
  rw [split, List.cons_append, ofText, if_neg (by simp [dark]), if_neg notLeft, if_neg notRight,
    takeWhile_append_of_stops letters stops, dropWhile_append_of_stops letters stops, ← split,
    String.ofList_toList]

theorem ofText_space (rest : List Char) : ofText (' ' :: rest) = ofText rest := by
  rw [ofText, if_pos (by decide)]

theorem ofText_left (rest : List Char) : ofText ('(' :: rest) = left :: ofText rest := by
  rw [ofText, if_neg (by decide), if_pos rfl]

theorem ofText_right (rest : List Char) : ofText (')' :: rest) = right :: ofText rest := by
  rw [ofText, if_neg (by decide), if_neg (by decide), if_pos rfl]

end Token

inductive Connective where
  | conjunction
  | disjunction

namespace Connective

def word : Connective → String
  | conjunction => "AND"
  | disjunction => "OR"

def holds : Connective → Bool → Bool → Bool
  | conjunction => and
  | disjunction => or

theorem word_inj {c c' : Connective} (h : c.word = c'.word) : c = c' := by
  cases c <;> cases c' <;> simp_all [word]

end Connective

mutual

inductive Phrase where
  | single (t : Term)
  | joined (c : Connective) (left right : Term)

inductive Term where
  | negation (t : Term)
  | literal (value : Bool)
  | name (w : { w : String // Token.IsName w })
  | group (p : Phrase)

end

mutual

def Phrase.tokens : Phrase → List Token
  | .single t => t.tokens
  | .joined c l r => l.tokens ++ .word c.word :: r.tokens

def Term.tokens : Term → List Token
  | .negation t => .word "NOT" :: t.tokens
  | .literal value => [.word (if value then "True" else "False")]
  | .name w => [.word w]
  | .group p => .left :: p.tokens ++ [.right]

end

mutual

def Phrase.holds (present : String → Bool) : Phrase → Bool
  | .single t => t.holds present
  | .joined c l r => c.holds (l.holds present) (r.holds present)

def Term.holds (present : String → Bool) : Term → Bool
  | .negation t => !t.holds present
  | .literal value => value
  | .name w => present w
  | .group p => p.holds present

end

def Parses (text : String) (p : Phrase) : Prop := p.tokens = Token.ofText text.toList

/-- What may stand behind a whole phrase. -/
def Closed (rest : List Token) : Prop := ∀ c : Connective, rest.head? ≠ some (.word c.word)

theorem name_ne {w : String} (hw : w ∈ Token.reserved) (v : { w // Token.IsName w }) :
    v.1 ≠ w :=
  fun same => v.2.2.2 (same ▸ hw)

-- The rests are arbitrary in both: what stands behind a part of a tree is known
-- only when the part has been read.
mutual

/-- A term ends where its last token ends. -/
theorem Term.tokens_append_inj : ∀ (t t' : Term) {rest rest' : List Token},
    t.tokens ++ rest = t'.tokens ++ rest' → t = t' ∧ rest = rest'
  | .negation t, t', _, _, h => by
    cases t' with
    | negation t' =>
      obtain ⟨rfl, rest⟩ := Term.tokens_append_inj t t' (List.cons.inj h).2
      exact ⟨rfl, rest⟩
    | literal value' => cases value' <;> simp [Term.tokens] at h
    | name w' => simp [Term.tokens, (name_ne (by decide : "NOT" ∈ _) w').symm] at h
    | group p' => simp [Term.tokens] at h
  | .literal value, t', _, _, h => by
    cases t' with
    | negation t' => cases value <;> simp [Term.tokens] at h
    | literal value' => cases value <;> cases value' <;> simp_all [Term.tokens]
    | name w' =>
      have isTrue := name_ne (by decide : "True" ∈ _) w'
      have isFalse := name_ne (by decide : "False" ∈ _) w'
      cases value <;> simp [Term.tokens, isTrue.symm, isFalse.symm] at h
    | group p' => simp [Term.tokens] at h
  | .name w, t', _, _, h => by
    cases t' with
    | negation t' => simp [Term.tokens, name_ne (by decide : "NOT" ∈ _) w] at h
    | literal value' =>
      have isTrue := name_ne (by decide : "True" ∈ _) w
      have isFalse := name_ne (by decide : "False" ∈ _) w
      cases value' <;> simp [Term.tokens, isTrue, isFalse] at h
    | name w' => simpa [Term.tokens, Subtype.ext_iff] using h
    | group p' => simp [Term.tokens] at h
  | .group p, t', _, _, h => by
    cases t' with
    | negation t' => simp [Term.tokens] at h
    | literal value' => simp [Term.tokens] at h
    | name w' => simp [Term.tokens] at h
    | group p' =>
      simp only [Term.tokens, List.cons_append, List.append_assoc, List.cons.injEq, true_and] at h
      obtain ⟨rfl, rest⟩ := Phrase.tokens_append_inj p p' (by simp [Closed]) (by simp [Closed]) h
      exact ⟨rfl, (List.cons.inj rest).2⟩

/-- A phrase ends where no `AND` and no `OR` takes it on. -/
theorem Phrase.tokens_append_inj : ∀ (p p' : Phrase) {rest rest' : List Token},
    Closed rest → Closed rest' → p.tokens ++ rest = p'.tokens ++ rest' → p = p' ∧ rest = rest'
  | .single t, p', _, _, closed, closed', h => by
    cases p' with
    | single t' =>
      obtain ⟨rfl, rest⟩ := Term.tokens_append_inj t t' h
      exact ⟨rfl, rest⟩
    | joined c l' r' =>
      obtain ⟨-, rfl⟩ := Term.tokens_append_inj t l' (h.trans (List.append_assoc _ _ _))
      exact absurd rfl (closed c)
  | .joined c l r, p', _, _, closed, closed', h => by
    have h' := (List.append_assoc _ _ _).symm.trans h
    cases p' with
    | single t' =>
      obtain ⟨-, rfl⟩ := Term.tokens_append_inj l t' h'
      exact absurd rfl (closed' c)
    | joined c' l' r' =>
      obtain ⟨rfl, tail⟩ := Term.tokens_append_inj l l' (h'.trans (List.append_assoc _ _ _))
      obtain ⟨word, right⟩ := List.cons.inj tail
      obtain rfl := Connective.word_inj (Token.word.inj word)
      obtain ⟨rfl, rest⟩ := Term.tokens_append_inj r r' right
      exact ⟨rfl, rest⟩

end

theorem Parses.unique {text : String} {p p' : Phrase} (h : Parses text p)
    (h' : Parses text p') : p' = p :=
  (Phrase.tokens_append_inj p' p (by simp [Closed]) (by simp [Closed])
    (congrArg (· ++ []) (h'.trans h.symm))).1

end MarkerLattice
