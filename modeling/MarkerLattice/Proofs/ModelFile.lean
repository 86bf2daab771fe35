import MarkerLattice.ModelFile
import MarkerLattice.Proofs.Stored.Model

/-! Packed model files. A file is read back whatever follows it, and a file that is cut
off anywhere is found to end too early. -/
namespace MarkerLattice.ModelFile

section Frames

variable {front rest b : Bytes} {n : ℕ}

theorem take_append (length : front.length = n) (rest : Bytes) :
    take n (front ++ rest) = .ok (front, rest) := by
  rw [take, ← length, Bytes.split?_append]

theorem take_of_prefix (length : front.length = n) (cut : b <+: front ++ rest) :
    take n b = .error (.file .unexpectedEnd) ∨ ∃ b', b = front ++ b' ∧ b' <+: rest := by
  rcases lt_or_ge b.length n with short | long
  · exact .inl (by rw [take, Bytes.split?_eq_none short])
  · obtain ⟨b', rfl⟩ := List.prefix_of_prefix_length_le (List.prefix_append front rest) cut
      (length ▸ long)
    exact .inr ⟨b', rfl, (List.prefix_append_right_inj front).mp cut⟩

theorem readHeader_append (v : UInt32) (rest : Bytes) :
    readHeader (signature ++ (Bytes.ofNatLE 4 v.toNat ++ rest)) = .ok (v, rest) := by
  have number := take_append (Bytes.length_ofNatLE 4 v.toNat) rest
  have value : UInt32.ofNat (Bytes.toNatLE (Bytes.ofNatLE 4 v.toNat)) = v := by
    rw [Bytes.toNatLE_ofNatLE v.toNat_lt, UInt32.ofNat_toNat]
  simp only [readHeader, take_append, ne_eq, not_true_eq_false, if_false, number, value, bind,
    Except.bind, pure, Except.pure]

theorem readHeader_of_prefix
    (cut : b <+: signature ++ (Bytes.ofNatLE 4 revision.toNat ++ rest)) :
    readHeader b = .error (.file .unexpectedEnd) ∨
      ∃ b', readHeader b = .ok (revision, b') ∧
        b = signature ++ (Bytes.ofNatLE 4 revision.toNat ++ b') ∧ b' <+: rest := by
  rcases take_of_prefix rfl cut with short | ⟨b', rfl, cut'⟩
  · exact .inl (by simp only [readHeader, short, bind, Except.bind])
  · rcases take_of_prefix (Bytes.length_ofNatLE 4 _) cut' with short | ⟨b'', rfl, cut''⟩
    · refine .inl ?_
      simp only [readHeader, take_append, ne_eq, not_true_eq_false, if_false, short, bind,
        Except.bind]
    · exact .inr ⟨b'', readHeader_append revision b'', rfl, cut''⟩

end Frames

section Packed

variable {m : Model} {b : Bytes}

def body (m : Model) : Bytes := Bytes.ofNatLE 8 (Stored.pack m).length ++ Stored.pack m

theorem pack_eq (m : Model) :
    pack m = signature ++ (Bytes.ofNatLE 4 revision.toNat ++ body m) := by
  simp only [pack, body, List.append_assoc]

theorem not_revision_lt : ¬revision < revision := by decide

section Sized

variable (fits : (Stored.pack m).length ≤ bufferLimit)
include fits

theorem length_pack_lt : (Stored.pack m).length < 2 ^ 64 :=
  fits.trans_lt (by decide)

theorem toNatLE_length :
    Bytes.toNatLE (Bytes.ofNatLE 8 (Stored.pack m).length) = (Stored.pack m).length :=
  Bytes.toNatLE_ofNatLE (length_pack_lt fits)

theorem unpack_pack_append (rest : Bytes) : unpack (pack m ++ rest) = .ok m := by
  have header := readHeader_append revision (body m ++ rest)
  have length := take_append (Bytes.length_ofNatLE 8 (Stored.pack m).length)
    (Stored.pack m ++ rest)
  have payload : take (Stored.pack m).length (Stored.pack m ++ rest) = .ok (Stored.pack m, rest) :=
    take_append rfl rest
  have whole := LawfulStored.reads m (length_pack_lt fits) []
  rw [List.append_nil] at whole
  simp only [body, List.append_assoc] at header
  simp only [pack_eq, body, List.append_assoc, unpack, header, not_revision_lt, if_false, length,
    toNatLE_length fits, fits.not_gt, payload, whole, bind, Except.bind]

/-- Each of the four parts is taken whole before it is looked at. -/
theorem unpack_of_prefix (cut : b <+: pack m) (short : b ≠ pack m) :
    unpack b = .error (.file .unexpectedEnd) := by
  rw [pack_eq] at cut short
  rcases readHeader_of_prefix cut with ends | ⟨b', header, rfl, cut'⟩
  · simp only [unpack, ends, bind, Except.bind]
  rcases take_of_prefix (Bytes.length_ofNatLE 8 _) cut' with ends | ⟨b'', rfl, cut''⟩
  · simp only [unpack, header, not_revision_lt, if_false, ends, bind, Except.bind]
  rw [← List.append_nil (Stored.pack m)] at cut''
  have length := take_append (Bytes.length_ofNatLE 8 (Stored.pack m).length) b''
  rcases take_of_prefix rfl cut'' with ends | ⟨rest, rfl, none⟩
  · simp only [unpack, header, not_revision_lt, if_false, length, toNatLE_length fits, fits.not_gt,
      ends, bind, Except.bind]
  · rw [List.prefix_nil.mp none, List.append_nil] at short
    exact absurd rfl short

/-- A packed file of a model that fits a buffer is read back whatever follows it, and no
model is read from a part of it. -/
theorem read_write_packed :
    (∀ rest, Format.packed.read (.ok (.file (Format.packed.write m ++ rest))) = .ok m) ∧
    ∀ b, b <+: Format.packed.write m → b ≠ Format.packed.write m →
      Format.packed.read (.ok (.file b)) = .error (.file .unexpectedEnd) := by
  simp only [Format.read, Format.write, packedContents, bind, Except.bind]
  exact ⟨unpack_pack_append fits, fun _ => unpack_of_prefix fits⟩

end Sized

def undefinedProbability : Model where
  layers := [{ Layer.standard with
    name := "Öl"
    probability := ⟨0x7fc00001⟩
    pattern := some ⟨[{
      offset := ⟨-1, 2⟩
      part := .edgeX
      script := (Script.withEntries.createNode (.emitMarker ⟨"Wall", ["Ground"], []⟩)).2.setLink 1
        Pin.defaultOutput .output (some ⟨2, Pin.defaultInput⟩)
      inserts := true }]⟩ }]

theorem read_write_packed_undefinedProbability :
    (Stored.pack undefinedProbability).length ≤ bufferLimit ∧
    Format.packed.read (.ok (.file (Format.packed.write undefinedProbability ++ [0]))) =
      .ok undefinedProbability ∧
    Format.packed.read (.ok (.file ((Format.packed.write undefinedProbability).take 100))) =
      .error (.file .unexpectedEnd) := by
  have fits : (Stored.pack undefinedProbability).length ≤ bufferLimit := by decide +kernel
  obtain ⟨whole, part⟩ := read_write_packed fits
  refine ⟨fits, whole [0], part _ (List.take_prefix 100 _) fun same => ?_⟩
  have length := congrArg List.length same
  revert length
  decide +kernel

end Packed

end MarkerLattice.ModelFile
