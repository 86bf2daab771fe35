import MarkerLattice.Json
import MarkerLattice.Proofs.Json.Lexer

/-! A tree is read back from its text. The state of the reader behind a value does not
depend on how deep the value was written. -/
namespace MarkerLattice

open JsonNumber (Stops)

namespace JsonText

def Sound (raw : Bytes) : Prop := ∀ rest, lex? (raw ++ quote :: rest) = some (raw, rest)

theorem sound_escape (s : String) : Sound (escape s) := lex?_escape s

end JsonText

/-- A whole tree whose numbers and strings are those of the grammar. -/
inductive JsonTree.Sound : JsonTree → Prop
  | null : Sound null
  | bool (b : Bool) : Sound (bool b)
  | number {n : JsonNumber} (whole : n.Sound) : Sound (number n)
  | string {raw : Bytes} (whole : JsonText.Sound raw) : Sound (string raw)
  | array {items : List JsonTree} (whole : ∀ t ∈ items, Sound t) : Sound (array items true)
  | object {members : List (Bytes × JsonTree)} (names : ∀ m ∈ members, JsonText.Sound m.1)
      (whole : ∀ m ∈ members, Sound m.2) : Sound (object members true)

namespace JsonNumber

def Starts (c : UInt8) : Prop := c = 45 ∨ ∃ d : Digit, c = d.toByte

theorem Sound.toBytes_eq_cons {n : JsonNumber} (h : n.Sound) :
    ∃ c rest, n.toBytes = c :: rest ∧ Starts c := by
  obtain ⟨negative, whole, fraction, exponent⟩ := n
  cases negative with
  | true => exact ⟨45, _, rfl, .inl rfl⟩
  | false =>
    cases whole with
    | nil => exact absurd h.whole (by simp [isWhole])
    | cons d digits => exact ⟨d.toByte, _, rfl, .inr ⟨d, rfl⟩⟩

end JsonNumber

namespace JsonToken

open JsonNumber (Starts)

variable {c : UInt8}

theorem isBlank_of_starts (h : Starts c) : isBlank c = false := by
  rcases h with rfl | ⟨d, rfl⟩
  · rfl
  · revert d
    decide

theorem lex?_of_starts (h : Starts c) (rest : Bytes) :
    lex? c rest = (JsonNumber.lex? (c :: rest)).map fun r => (number r.1, r.2) := by
  have other : punctuation? c = none ∧ word? c = none ∧ c ≠ JsonText.quote := by
    rcases h with rfl | ⟨d, rfl⟩
    · decide
    · revert d
      decide
  simp only [lex?, other, if_false]

end JsonToken

namespace JsonState

open JsonToken

variable {s : JsonState} {frames : List JsonFrame} {rest after : Bytes}

def feed (s : JsonState) (b : Bytes) : JsonState := (tokens b).foldl step s

theorem feed_blank {c : UInt8} (h : isBlank c = true) : feed s (c :: rest) = feed s rest := by
  rw [feed, tokens_blank h, feed]

theorem feed_token {c : UInt8} {token : JsonToken} (solid : isBlank c = false)
    (h : lex? c rest = some (token, after)) : feed s (c :: rest) = feed (step s token) after := by
  rw [feed, tokens_cons solid h, List.foldl_cons, feed]

theorem feed_newline (depth : ℕ) : feed s (JsonTree.newline depth ++ rest) = feed s rest := by
  rw [JsonTree.newline, List.cons_append, feed_blank rfl]
  induction 2 * depth with
  | zero => rfl
  | succ n ih => rw [List.replicate_succ, List.cons_append, feed_blank rfl, ih]

theorem feed_quoted {raw : Bytes} (h : JsonText.Sound raw) :
    feed s (JsonTree.quoted raw ++ rest) = feed (step s (.string raw)) rest := by
  have lexed : lex? JsonText.quote (raw ++ JsonText.quote :: rest) = some (.string raw, rest) := by
    change (JsonText.lex? (raw ++ JsonText.quote :: rest)).map _ = _
    rw [h rest, Option.map_some]
  rw [JsonTree.quoted, List.cons_append, List.cons_append, List.append_assoc]
  exact feed_token rfl lexed

theorem feed_number {n : JsonNumber} (h : n.Sound) (stops : Stops rest) :
    feed s (n.toBytes ++ rest) = feed (step s (.number n)) rest := by
  have lexed := JsonNumber.lex?_append stops h
  obtain ⟨c, more, bytes, front⟩ := h.toBytes_eq_cons
  rw [bytes, List.cons_append] at lexed ⊢
  apply feed_token (isBlank_of_starts front)
  rw [lex?_of_starts front, lexed, Option.map_some]

def AwaitsValue (next : JsonNext) : Prop := next = .value ∨ next = .firstItem

theorem step_value {next : JsonNext} (awaits : AwaitsValue next) {token : JsonToken}
    (h : token ≠ .closeBracket) : step (reading next frames) token = startValue frames token := by
  rcases awaits with rfl | rfl
  · rfl
  · exact if_neg h

end JsonState

namespace JsonTree

open JsonState

/-- Where a value is expected, the tree is read from its text. -/
def ReadsBack (t : JsonTree) : Prop :=
  ∀ (depth : ℕ) (next : JsonNext) (frames : List JsonFrame) (rest : Bytes),
    AwaitsValue next → Stops rest →
      feed (reading next frames) (t.render depth ++ rest) = feed (finish t frames) rest

variable {rest : Bytes} {frames : List JsonFrame} {next : JsonNext}

theorem stops_newline (depth : ℕ) : Stops (newline depth ++ rest) := by
  simp [Stops, newline]

theorem stops_comma : Stops (44 :: rest) := by
  simp [Stops]

theorem feed_items {items : List JsonTree} (filled : items ≠ []) (h : ∀ t ∈ items, t.ReadsBack)
    (inner outer : ℕ) (done : List JsonTree) (awaits : AwaitsValue next) :
    feed (reading next (.array done :: frames))
        (renderItems inner items ++ (newline outer ++ 93 :: rest)) =
      feed (finish (.array (done.reverse ++ items) true) frames) rest := by
  induction items generalizing done next with
  | nil => exact absurd rfl filled
  | cons t items ih =>
    obtain ⟨first, later⟩ := List.forall_mem_cons.mp h
    cases items with
    | nil =>
      rw [renderItems, List.append_assoc, feed_newline,
        first inner next _ _ awaits (stops_newline outer), finish, feed_newline,
        feed_token (c := 93) rfl rfl]
      simp [step, separate, close]
    | cons t' items =>
      have more := ih (by simp) later (t :: done) (.inl rfl)
      rw [renderItems, List.append_assoc, List.append_assoc, feed_newline, List.cons_append,
        first inner next _ _ awaits stops_comma, finish, feed_token (c := 44) rfl rfl,
        step, separate, more, List.reverse_cons, List.append_assoc, List.singleton_append]
      simp

def AwaitsName (next : JsonNext) : Prop := next = .name ∨ next = .firstName

theorem step_name (awaits : AwaitsName next) (raw : Bytes) :
    step (reading next frames) (.string raw) = startMember frames (.string raw) := by
  rcases awaits with rfl | rfl
  · rfl
  · rfl

theorem feed_members {members : List (Bytes × JsonTree)} (filled : members ≠ [])
    (names : ∀ m ∈ members, JsonText.Sound m.1) (h : ∀ m ∈ members, m.2.ReadsBack)
    (inner outer : ℕ) (done : List (Bytes × JsonTree)) (awaits : AwaitsName next) :
    feed (reading next (.object done :: frames))
        (renderMembers inner members ++ (newline outer ++ 125 :: rest)) =
      feed (finish (.object (done.reverse ++ members) true) frames) rest := by
  induction members generalizing done next with
  | nil => exact absurd rfl filled
  | cons m members ih =>
    obtain ⟨raw, t⟩ := m
    obtain ⟨name, names⟩ := List.forall_mem_cons.mp names
    obtain ⟨first, later⟩ := List.forall_mem_cons.mp h
    have value (b : Bytes) (stops : Stops b) :
        feed (reading next (.object done :: frames))
          (newline inner ++ (quoted raw ++ 58 :: 32 :: (t.render inner ++ b))) =
        feed (reading .separator (.object ((raw, t) :: done) :: frames)) b := by
      rw [feed_newline, feed_quoted name, step_name awaits, startMember,
        feed_token (c := 58) rfl rfl, feed_blank rfl]
      exact first inner .value _ b (.inl rfl) stops
    cases members with
    | nil =>
      rw [renderMembers]
      simp only [List.append_assoc, List.cons_append]
      rw [value _ (stops_newline outer), feed_newline, feed_token (c := 125) rfl rfl]
      simp [step, separate, close]
    | cons m' members =>
      have more := ih (by simp) names later ((raw, t) :: done) (.inl rfl)
      simp only [renderMembers, List.append_assoc, List.cons_append]
      rw [value _ stops_comma, feed_token (c := 44) rfl rfl,
        step, separate, more, List.reverse_cons, List.append_assoc, List.singleton_append]

theorem readsBack_of_token {t : JsonTree} {c : UInt8} {more : Bytes} {token : JsonToken}
    (text : ∀ depth, t.render depth = c :: more) (solid : JsonToken.isBlank c = false)
    (lexed : ∀ rest, JsonToken.lex? c (more ++ rest) = some (token, rest))
    (value : token ≠ .closeBracket) (started : ∀ frames, startValue frames token = finish t frames) :
    t.ReadsBack := by
  intro depth next frames rest awaits _
  rw [text, List.cons_append, feed_token solid (lexed rest), step_value awaits value, started]

theorem Sound.readsBack {t : JsonTree} (h : t.Sound) : t.ReadsBack := by
  induction h with
  | null =>
    exact readsBack_of_token (fun _ => by rw [render]) rfl (fun _ => rfl) (by simp) fun _ => rfl
  | bool b =>
    cases b
    · exact readsBack_of_token (fun _ => by rw [render]) rfl (fun _ => rfl) (by simp) fun _ => rfl
    · exact readsBack_of_token (fun _ => by rw [render]) rfl (fun _ => rfl) (by simp) fun _ => rfl
  | number whole =>
    intro depth next frames rest awaits stops
    rw [render, feed_number whole stops, step_value awaits (by simp), startValue]
  | string whole =>
    intro depth next frames rest awaits stops
    rw [render, feed_quoted whole, step_value awaits (by simp), startValue]
  | @array items whole ih =>
    intro depth next frames rest awaits stops
    rw [render, List.append_assoc, List.append_assoc, List.cons_append,
      feed_token (c := 91) rfl rfl, step_value awaits (by simp), startValue]
    cases items with
    | nil =>
      rw [renderItems, List.nil_append]
      exact feed_token (c := 93) rfl rfl
    | cons t items =>
      have inside := @feed_items rest frames .firstItem (t :: items) (by simp) ih (depth + 1) depth
        [] (.inr rfl)
      simpa using inside
  | @object members names whole ih =>
    intro depth next frames rest awaits stops
    rw [render, List.append_assoc, List.append_assoc, List.cons_append,
      feed_token (c := 123) rfl rfl, step_value awaits (by simp), startValue]
    cases members with
    | nil =>
      rw [renderMembers, List.nil_append]
      exact feed_token (c := 125) rfl rfl
    | cons m members =>
      have inside := @feed_members rest frames .firstName (m :: members) (by simp) names ih
        (depth + 1) depth [] (.inr rfl)
      simpa using inside

theorem ofBytes_toBytes {t : JsonTree} (h : t.Sound) : ofBytes t.toBytes = (t, false) := by
  have read := h.readsBack 0 .value [] [] (.inl rfl) (by simp [Stops])
  have last : feed (finish t []) [] = .done t := by rw [feed, JsonToken.tokens]; rfl
  rw [List.append_nil, last, feed] at read
  rw [ofBytes, toBytes, read, result]

end JsonTree
end MarkerLattice
