import MarkerLattice.Proofs.ModelFile

/-! Inspection beside loading. Both stop at the same places of a header and for the same
reasons; what lies behind the header is a matter of loading alone. -/
namespace MarkerLattice

theorem Bytes.ofNatLE_toNatLE (b : Bytes) : ofNatLE b.length (toNatLE b) = b := by
  induction b with
  | nil => rfl
  | cons c rest ih =>
    have value : toNatLE (c :: rest) = c.toNat + 256 * toNatLE rest := rfl
    have small := c.toNat_lt
    have low : UInt8.ofNat (c.toNat + 256 * toNatLE rest) = c := by
      apply UInt8.toNat_inj.mp
      rw [UInt8.toNat_ofNat']
      omega
    have high : (c.toNat + 256 * toNatLE rest) / 256 = toNatLE rest := by omega
    rw [List.length_cons, value, ofNatLE, low, high, ih]

theorem Bytes.toNatLE_lt (b : Bytes) : toNatLE b < 256 ^ b.length := by
  induction b with
  | nil => simp [toNatLE]
  | cons c rest ih =>
    have value : toNatLE (c :: rest) = c.toNat + 256 * toNatLE rest := rfl
    have small := c.toNat_lt
    rw [value, List.length_cons, pow_succ]
    omega

namespace ModelFile

inductive Stage where
  | signature
  | number
  | support
  | length
  | buffer
  | payload
  | model
deriving DecidableEq

def Stage.inHeader : Stage → Bool
  | signature | number => true
  | support | length | buffer | payload | model => false

def header (v : UInt32) : Bytes := signature ++ Bytes.ofNatLE 4 v.toNat

/-- Where loading a packed file stops, and why. All stages before have been passed. -/
inductive Stops : Bytes → Stage → StorageError → Prop
  | cutSignature {b : Bytes} (short : b.length < 8) : Stops b .signature (.file .unexpectedEnd)
  | foreign {start : Bytes} (length : start.length = 8) (other : start ≠ signature)
      (rest : Bytes) : Stops (start ++ rest) .signature (.foreign start)
  | cutNumber {rest : Bytes} (short : rest.length < 4) :
      Stops (signature ++ rest) .number (.file .unexpectedEnd)
  | newer {v : UInt32} (later : revision < v) (rest : Bytes) :
      Stops (header v ++ rest) .support (.newer v)
  | cutLength {v : UInt32} (known : ¬revision < v) {rest : Bytes} (short : rest.length < 8) :
      Stops (header v ++ rest) .length (.file .unexpectedEnd)
  | oversized {v : UInt32} (known : ¬revision < v) {n : ℕ} (fits : n < 256 ^ 8)
      (large : bufferLimit < n) (rest : Bytes) :
      Stops (header v ++ (Bytes.ofNatLE 8 n ++ rest)) .buffer .oversized
  | cutPayload {v : UInt32} (known : ¬revision < v) {n : ℕ} (fits : n ≤ bufferLimit) {rest : Bytes}
      (short : rest.length < n) :
      Stops (header v ++ (Bytes.ofNatLE 8 n ++ rest)) .payload (.file .unexpectedEnd)
  | damaged {v : UInt32} (known : ¬revision < v) {payload : Bytes}
      (fits : payload.length ≤ bufferLimit)
      (unread : Stored.unpack? (α := Model) payload = none) (rest : Bytes) :
      Stops (header v ++ (Bytes.ofNatLE 8 payload.length ++ (payload ++ rest))) .model .corrupt

theorem take_short {n : ℕ} {b : Bytes} (short : b.length < n) :
    take n b = .error (.file .unexpectedEnd) := by
  rw [take, Bytes.split?_eq_none short]

theorem take_cases (n : ℕ) (b : Bytes) : b.length < n ∨
    ∃ front rest, b = front ++ rest ∧ front.length = n ∧ take n b = .ok (front, rest) := by
  rcases lt_or_ge b.length n with short | long
  · exact .inl short
  · have length : (b.take n).length = n := List.length_take_of_le long
    have whole := take_append length (b.drop n)
    rw [List.take_append_drop] at whole
    exact .inr ⟨_, _, (List.take_append_drop n b).symm, length, whole⟩

theorem readHeader_header (v : UInt32) (rest : Bytes) :
    readHeader (header v ++ rest) = .ok (v, rest) := by
  rw [header, List.append_assoc]
  exact readHeader_append v rest

section Stages

variable {b : Bytes} {stage : Stage} {e : StorageError}

theorem Stops.readHeader (h : Stops b stage e) (inside : stage.inHeader = true) :
    readHeader b = .error e := by
  unfold ModelFile.readHeader
  cases h with
  | cutSignature short =>
    have cut : take signature.length b = .error (.file .unexpectedEnd) := take_short short
    simp only [cut, bind, Except.bind]
  | foreign length other rest =>
    have taken := take_append (n := signature.length) length rest
    simp only [taken, bind, Except.bind, ne_eq, other, not_false_eq_true, if_true]
  | @cutNumber rest short =>
    have taken := take_append (n := signature.length) rfl rest
    simp only [taken, bind, Except.bind, ne_eq, not_true_eq_false, if_false, take_short short]
  | newer | cutLength | oversized | cutPayload | damaged => cases inside

theorem readHeader_cases (b : Bytes) :
    (∃ stage e, stage.inHeader = true ∧ Stops b stage e) ∨ ∃ v rest, b = header v ++ rest := by
  rcases take_cases 8 b with short | ⟨start, rest, rfl, length, -⟩
  · exact .inl ⟨.signature, _, rfl, .cutSignature short⟩
  by_cases other : start ≠ signature
  · exact .inl ⟨.signature, _, rfl, .foreign length other rest⟩
  obtain rfl := not_not.mp other
  rcases take_cases 4 rest with short | ⟨number, rest, rfl, width, -⟩
  · exact .inl ⟨.number, _, rfl, .cutNumber short⟩
  have bound := Bytes.toNatLE_lt number
  rw [width] at bound
  refine .inr ⟨UInt32.ofNat (Bytes.toNatLE number), rest, ?_⟩
  rw [header, UInt32.toNat_ofNat_of_lt' bound, ← width, Bytes.ofNatLE_toNatLE, List.append_assoc]

theorem readHeader_eq_error_iff : readHeader b = .error e ↔
    ∃ stage, stage.inHeader = true ∧ Stops b stage e := by
  constructor
  · intro read
    rcases readHeader_cases b with ⟨stage, e', inside, stops⟩ | ⟨v, rest, rfl⟩
    · rw [stops.readHeader inside] at read
      exact ⟨stage, inside, Except.error.inj read ▸ stops⟩
    · rw [readHeader_header] at read
      cases read
  · rintro ⟨stage, inside, stops⟩
    exact stops.readHeader inside

theorem unpack_header {v : UInt32} (known : ¬revision < v) (rest : Bytes) :
    unpack (header v ++ rest) = (take 8 rest).bind fun r =>
      if bufferLimit < Bytes.toNatLE r.1 then .error .oversized
      else (take (Bytes.toNatLE r.1) r.2).bind fun r =>
        match Stored.unpack? r.1 with
        | some (m, _) => .ok m
        | none => .error .corrupt := by
  unfold unpack
  rw [readHeader_header]
  exact if_neg known

theorem toNatLE_of_le_limit {n : ℕ} (fits : n ≤ bufferLimit) :
    Bytes.toNatLE (Bytes.ofNatLE 8 n) = n :=
  Bytes.toNatLE_ofNatLE (fits.trans_lt (by decide))

theorem unpack_newer {v : UInt32} (later : revision < v) (rest : Bytes) :
    unpack (header v ++ rest) = .error (.newer v) := by
  unfold unpack
  rw [readHeader_header]
  exact if_pos later

theorem Stops.unpack (h : Stops b stage e) : unpack b = .error e := by
  have front (inside : stage.inHeader = true) : ModelFile.unpack b = .error e := by
    simp only [ModelFile.unpack, h.readHeader inside, bind, Except.bind]
  cases h with
  | cutSignature | foreign | cutNumber => exact front rfl
  | newer later rest => exact unpack_newer later rest
  | cutLength known short => rw [unpack_header known, take_short short, Except.bind]
  | @oversized v known n fits large rest =>
    have taken := take_append (Bytes.length_ofNatLE 8 n) rest
    simp only [unpack_header known, taken, Except.bind, Bytes.toNatLE_ofNatLE fits, large, if_true]
  | @cutPayload v known n fits rest short =>
    have taken := take_append (Bytes.length_ofNatLE 8 n) rest
    simp only [unpack_header known, taken, Except.bind, toNatLE_of_le_limit fits, fits.not_gt,
      if_false, take_short short]
  | @damaged v known payload fits unread rest =>
    have taken := take_append (Bytes.length_ofNatLE 8 payload.length) (payload ++ rest)
    have whole := take_append (n := payload.length) rfl rest
    simp only [unpack_header known, taken, Except.bind, toNatLE_of_le_limit fits, fits.not_gt,
      if_false, whole, unread]

theorem unpack_cases (b : Bytes) : (∃ stage e, Stops b stage e) ∨ ∃ m, unpack b = .ok m := by
  rcases readHeader_cases b with ⟨stage, e, -, stops⟩ | ⟨v, rest, rfl⟩
  · exact .inl ⟨stage, e, stops⟩
  by_cases known : revision < v
  · exact .inl ⟨.support, _, .newer known rest⟩
  rcases take_cases 8 rest with short | ⟨number, rest, rfl, width, -⟩
  · exact .inl ⟨.length, _, .cutLength known short⟩
  have bound := Bytes.toNatLE_lt number
  have back := Bytes.ofNatLE_toNatLE number
  rw [width] at bound back
  by_cases large : bufferLimit < Bytes.toNatLE number
  · have stops := Stops.oversized known bound large rest
    rw [back] at stops
    exact .inl ⟨.buffer, _, stops⟩
  have fits := not_lt.mp large
  rcases take_cases (Bytes.toNatLE number) rest with short | ⟨payload, rest, rfl, length, taken⟩
  · have stops := Stops.cutPayload known fits short
    rw [back] at stops
    exact .inl ⟨.payload, _, stops⟩
  cases read : Stored.unpack? (α := Model) payload with
  | none =>
    have stops := Stops.damaged known (length ▸ fits) read rest
    rw [length, back] at stops
    exact .inl ⟨.model, _, stops⟩
  | some r =>
    refine .inr ⟨r.1, ?_⟩
    simp only [unpack_header known, take_append width, Except.bind, large, if_false, taken, read]

theorem unpack_eq_error_iff : unpack b = .error e ↔ ∃ stage, Stops b stage e := by
  constructor
  · intro failed
    rcases unpack_cases b with ⟨stage, e', stops⟩ | ⟨m, read⟩
    · rw [stops.unpack] at failed
      exact ⟨stage, Except.error.inj failed ▸ stops⟩
    · rw [read] at failed
      cases failed
  · rintro ⟨stage, stops⟩
    exact stops.unpack

theorem header_append_inj {v w : UInt32} {rest rest' : Bytes}
    (same : header v ++ rest = header w ++ rest') : v = w := by
  have read := readHeader_header v rest
  rw [same, readHeader_header] at read
  exact (congrArg Prod.fst (Except.ok.inj read)).symm

theorem unpack_eq_newer_iff {v w : UInt32} {rest : Bytes} :
    unpack (header v ++ rest) = .error (.newer w) ↔ w = v ∧ revision < v := by
  constructor
  · intro failed
    obtain ⟨stage, stops⟩ := unpack_eq_error_iff.mp failed
    generalize same : header v ++ rest = b at stops
    cases stops with
    | newer later rest' =>
      obtain rfl := header_append_inj same
      exact ⟨rfl, later⟩
  · rintro ⟨rfl, later⟩
    exact unpack_newer later rest

end Stages

theorem exists_file_of_readJson {α : Type} [Stored α] {found : Except FileFault FileEntry} {a : α}
    (read : readJson found = .ok a) : ∃ b, found = .ok (.file b) := by
  unfold readJson at read
  split at read
  next b => exact ⟨b, rfl⟩
  next => cases read
  next => cases read

theorem exists_file_of_packedContents {found : Except FileFault FileEntry} {b : Bytes}
    (read : packedContents found = .ok b) : found = .ok (.file b) := by
  unfold packedContents at read
  split at read
  next => rw [Except.ok.inj read]
  next => cases read
  next => cases read

theorem Format.inspect_of_read {format : Format} {found : Except FileFault FileEntry} {m : Model}
    (read : format.read found = .ok m) : ∃ b number?, found = .ok (.file b) ∧
      format.inspect found = .ok ⟨format, number?, b.length⟩ := by
  cases format with
  | json =>
    obtain ⟨b, rfl⟩ := exists_file_of_readJson read
    exact ⟨b, none, rfl, rfl⟩
  | packed =>
    cases contents : packedContents found with
    | error e => simp [Format.read, contents, bind, Except.bind] at read
    | ok b =>
      obtain rfl := exists_file_of_packedContents contents
      simp only [Format.read, contents, bind, Except.bind] at read
      rcases readHeader_cases b with ⟨stage, e, -, stops⟩ | ⟨v, rest, rfl⟩
      · rw [stops.unpack] at read
        cases read
      · refine ⟨_, some v, rfl, ?_⟩
        simp only [Format.inspect, contents, readHeader_header, bind, Except.bind, pure, Except.pure]

section Agreement

variable {find : FileSearch} {path : String} {b : Bytes}

theorem inspect_packed (format : Format.ofPath path = .packed) (found : find path = .ok (.file b)) :
    inspect find path = (readHeader b).bind fun r => .ok ⟨.packed, some r.1, b.length⟩ := by
  rw [inspect, format, found]
  rfl

theorem load_packed (format : Format.ofPath path = .packed) (found : find path = .ok (.file b)) :
    load find path = unpack b := by
  rw [load, format, found]
  rfl

/-- A packed file is refused by inspection just if loading stops within its header, and for the
same reason. If not, inspection tells the stored revision and the size, and loading refuses the
revision just if it is later than the first. What can be loaded can be inspected, in the format
that it is loaded in. -/
theorem inspect_agrees :
    (∀ b, Format.ofPath path = .packed → find path = .ok (.file b) →
      (∀ e, inspect find path = .error e ↔ ∃ stage, stage.inHeader = true ∧ Stops b stage e) ∧
      (∀ e, load find path = .error e ↔ ∃ stage, Stops b stage e) ∧
      ((¬∃ stage e, stage.inHeader = true ∧ Stops b stage e) → ∃ v rest, b = header v ++ rest ∧
        inspect find path = .ok ⟨.packed, some v, b.length⟩ ∧
        ∀ w, load find path = .error (.newer w) ↔ w = v ∧ 1 < v)) ∧
    ∀ m, load find path = .ok m → ∃ b number?, find path = .ok (.file b) ∧
      inspect find path = .ok ⟨Format.ofPath path, number?, b.length⟩ := by
  refine ⟨fun b format found => ?_, fun m read => Format.inspect_of_read read⟩
  rw [inspect_packed format found, load_packed format found]
  refine ⟨fun e => ?_, fun e => unpack_eq_error_iff, fun whole => ?_⟩
  · rw [← readHeader_eq_error_iff]
    cases readHeader b <;> simp [Except.bind]
  · rcases readHeader_cases b with ⟨stage, e, inside, stops⟩ | ⟨v, rest, rfl⟩
    · exact absurd ⟨stage, e, inside, stops⟩ whole
    · exact ⟨v, rest, rfl, by rw [readHeader_header, Except.bind], fun w => unpack_eq_newer_iff⟩

end Agreement

def packedShelf : FileSearch := fun path => .ok <| .file <|
  if path = "later.mkg" then header 2
  else if path = "cut.mkg" then signature.take 5
  else pack ⟨[]⟩

theorem inspect_agrees_packedShelf :
    inspect packedShelf "later.mkg" = .ok ⟨.packed, some 2, 12⟩ ∧
      load packedShelf "later.mkg" = .error (.newer 2) ∧
      inspect packedShelf "cut.mkg" = .error (.file .unexpectedEnd) ∧
      load packedShelf "cut.mkg" = .error (.file .unexpectedEnd) ∧
      load packedShelf "empty.mkg" = .ok ⟨[]⟩ ∧
      ∃ number?, inspect packedShelf "empty.mkg" = .ok ⟨.packed, number?, 28⟩ := by
  have packed : Format.ofPath "later.mkg" = .packed ∧ Format.ofPath "cut.mkg" = .packed ∧
      Format.ofPath "empty.mkg" = .packed := by decide +kernel
  have whole : readHeader (header 2) = .ok (2, []) := by
    have read := readHeader_header 2 []
    rwa [List.append_nil] at read
  obtain ⟨-, -, told⟩ := (@inspect_agrees packedShelf "later.mkg").1 (header 2) packed.1 rfl
  obtain ⟨v, rest, same, inspected, refused⟩ := told fun ⟨stage, e, inside, stops⟩ => by
    rw [stops.readHeader inside] at whole
    cases whole
  rw [same, readHeader_header] at whole
  obtain rfl := congrArg Prod.fst (Except.ok.inj whole)
  obtain ⟨inspected', loaded', -⟩ :=
    (@inspect_agrees packedShelf "cut.mkg").1 (signature.take 5) packed.2.1 rfl
  have cut : Stops (signature.take 5) .signature (.file .unexpectedEnd) := .cutSignature (by decide)
  have read : load packedShelf "empty.mkg" = .ok ⟨[]⟩ := by
    have back := @unpack_pack_append ⟨[]⟩ (by decide) []
    rw [List.append_nil] at back
    rw [load_packed packed.2.2 (b := pack ⟨[]⟩) rfl, back]
  obtain ⟨b, number?, found, told⟩ := (@inspect_agrees packedShelf "empty.mkg").2 _ read
  obtain rfl : pack ⟨[]⟩ = b := FileEntry.file.inj (Except.ok.inj found)
  rw [packed.2.2] at told
  exact ⟨inspected, (refused 2).mpr ⟨rfl, by decide⟩, (inspected' _).mpr ⟨_, rfl, cut⟩,
    (loaded' _).mpr ⟨_, cut⟩, read, number?, told⟩

end ModelFile

end MarkerLattice
