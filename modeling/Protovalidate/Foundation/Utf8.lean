import Mathlib.Data.List.Chain

/-! UTF-8 over byte values: the encodings of the Unicode scalar values, and the
texts that consist of them. -/

namespace Protovalidate.Foundation

/-- The bytes of a Unicode scalar value, in the shortest form. -/
def scalarBytes (scalar : Char) : List Nat := (String.utf8EncodeChar scalar).map UInt8.toNat

/-- Nothing but the encodings of scalar values. -/
def WellFormedUtf8 (bytes : List Nat) : Prop := ∃ scalars : List Char, bytes = scalars.flatMap scalarBytes

/-- The number of bytes that a first byte announces. -/
def announcedLength (lead : Nat) : Nat :=
  if lead ≤ 0x7f then 1 else if lead ≤ 0xdf then 2 else if lead ≤ 0xef then 3 else 4

section Scalars

variable {scalar : Char} {lead second : Nat} {bytes rest more : List Nat}

theorem scalar_bounds (scalar : Char) :
    scalar.val.toNat < 0xd800 ∨ (0xdfff < scalar.val.toNat ∧ scalar.val.toNat < 0x110000) := scalar.valid

/-- The four forms of an encoding. -/
theorem scalarBytes_cases (scalar : Char) :
    (scalar.val.toNat ≤ 0x7f ∧ scalarBytes scalar = [scalar.val.toNat]) ∨
      (0x80 ≤ scalar.val.toNat ∧ scalar.val.toNat ≤ 0x7ff ∧
        scalarBytes scalar = [scalar.val.toNat / 64 + 0xc0, scalar.val.toNat % 64 + 0x80]) ∨
      (0x800 ≤ scalar.val.toNat ∧ scalar.val.toNat ≤ 0xffff ∧
        scalarBytes scalar = [scalar.val.toNat / 4096 + 0xe0, scalar.val.toNat / 64 % 64 + 0x80,
          scalar.val.toNat % 64 + 0x80]) ∨
      (0x10000 ≤ scalar.val.toNat ∧ scalar.val.toNat ≤ 0x10ffff ∧
        scalarBytes scalar = [scalar.val.toNat / 262144 + 0xf0, scalar.val.toNat / 4096 % 64 + 0x80,
          scalar.val.toNat / 64 % 64 + 0x80, scalar.val.toNat % 64 + 0x80]) := by
  have bounds := scalar_bounds scalar
  simp only [scalarBytes, String.utf8EncodeChar]
  generalize scalar.val.toNat = v at bounds
  split
  · rename_i one
    refine .inl ⟨one, ?_⟩
    simp only [List.map_cons, List.map_nil, UInt8.toNat_ofNat']
    rw [Nat.mod_eq_of_lt (by omega)]
  · split
    · refine .inr (.inl ⟨by omega, by assumption, ?_⟩)
      simp only [List.map_cons, List.map_nil, UInt8.toNat_ofNat', List.cons.injEq, and_true]
      omega
    · split
      · refine .inr (.inr (.inl ⟨by omega, by assumption, ?_⟩))
        simp only [List.map_cons, List.map_nil, UInt8.toNat_ofNat', List.cons.injEq, and_true]
        omega
      · refine .inr (.inr (.inr ⟨by omega, by omega, ?_⟩))
        simp only [List.map_cons, List.map_nil, UInt8.toNat_ofNat', List.cons.injEq, and_true]
        omega

/-- The first byte announces the number of bytes. -/
theorem scalarBytes_length (same : scalarBytes scalar = lead :: more) : more.length + 1 = announcedLength lead := by
  rw [announcedLength]
  obtain ⟨low, bytes⟩ | ⟨low, high, bytes⟩ | ⟨low, high, bytes⟩ | ⟨low, high, bytes⟩ := scalarBytes_cases scalar
  · cases bytes.symm.trans same
    rw [if_pos low, List.length_nil]
  · cases bytes.symm.trans same
    rw [if_neg (by omega), if_pos (by omega)]
    rfl
  · cases bytes.symm.trans same
    rw [if_neg (by omega), if_neg (by omega), if_pos (by omega)]
    rfl
  · cases bytes.symm.trans same
    rw [if_neg (by omega), if_neg (by omega), if_neg (by omega)]
    rfl

theorem scalarBytes_cons (scalar : Char) : ∃ lead more, scalarBytes scalar = lead :: more := by
  obtain ⟨-, bytes⟩ | ⟨-, -, bytes⟩ | ⟨-, -, bytes⟩ | ⟨-, -, bytes⟩ := scalarBytes_cases scalar <;>
    exact ⟨_, _, bytes⟩

/-- No surrogate is encoded. -/
theorem second_lt_of_ed (same : scalarBytes scalar = 0xed :: second :: more) : second < 0xa0 := by
  have bounds := scalar_bounds scalar
  obtain ⟨-, bytes⟩ | ⟨low, high, bytes⟩ | ⟨low, high, bytes⟩ | ⟨low, high, bytes⟩ := scalarBytes_cases scalar <;>
    rw [bytes] at same <;> simp only [List.cons.injEq, reduceCtorEq, and_false] at same <;> omega

/-- Nothing above the last code point is encoded. -/
theorem second_lt_of_f4 (same : scalarBytes scalar = 0xf4 :: second :: more) : second < 0x90 := by
  obtain ⟨-, bytes⟩ | ⟨low, high, bytes⟩ | ⟨low, high, bytes⟩ | ⟨low, high, bytes⟩ := scalarBytes_cases scalar <;>
    rw [bytes] at same <;> simp only [List.cons.injEq, reduceCtorEq, and_false] at same <;> omega

theorem exists_scalar (value : Nat) (valid : value < 0xd800 ∨ (0xdfff < value ∧ value < 0x110000)) :
    ∃ scalar : Char, scalar.val.toNat = value := ⟨Char.ofNatAux value valid, rfl⟩

/-- A byte that continues an encoding. -/
def Continues (b : Nat) : Prop := 0x80 ≤ b ∧ b ≤ 0xbf

theorem scalarBytes_one {b : Nat} (low : b ≤ 0x7f) : ∃ scalar, scalarBytes scalar = [b] := by
  obtain ⟨scalar, value⟩ := exists_scalar b (.inl (by omega))
  refine ⟨scalar, ?_⟩
  obtain ⟨-, bytes⟩ | ⟨above, -⟩ | ⟨above, -⟩ | ⟨above, -⟩ := scalarBytes_cases scalar
  · rw [bytes, value]
  all_goals omega

theorem scalarBytes_two {b0 b1 : Nat} (lead : 0xc2 ≤ b0 ∧ b0 ≤ 0xdf) (first : Continues b1) :
    ∃ scalar, scalarBytes scalar = [b0, b1] := by
  obtain ⟨low, high⟩ := first
  obtain ⟨scalar, value⟩ := exists_scalar ((b0 - 0xc0) * 64 + (b1 - 0x80)) (.inl (by omega))
  refine ⟨scalar, ?_⟩
  obtain ⟨below, -⟩ | ⟨-, -, bytes⟩ | ⟨above, -⟩ | ⟨above, -⟩ := scalarBytes_cases scalar
  · omega
  · rw [bytes, value, List.cons.injEq, List.cons.injEq]
    exact ⟨by omega, by omega, rfl⟩
  all_goals omega

theorem scalarBytes_three {b0 b1 b2 : Nat} (lead : 0xe0 ≤ b0 ∧ b0 ≤ 0xef) (first : Continues b1) (second : Continues b2)
    (shortest : b0 = 0xe0 → 0xa0 ≤ b1) (noSurrogate : b0 = 0xed → b1 < 0xa0) :
    ∃ scalar, scalarBytes scalar = [b0, b1, b2] := by
  obtain ⟨low, high⟩ := first
  obtain ⟨low', high'⟩ := second
  obtain ⟨scalar, value⟩ := exists_scalar ((b0 - 0xe0) * 4096 + (b1 - 0x80) * 64 + (b2 - 0x80)) (by omega)
  refine ⟨scalar, ?_⟩
  obtain ⟨below, -⟩ | ⟨-, below, -⟩ | ⟨-, -, bytes⟩ | ⟨above, -⟩ := scalarBytes_cases scalar
  · omega
  · omega
  · rw [bytes, value, List.cons.injEq, List.cons.injEq, List.cons.injEq]
    exact ⟨by omega, by omega, by omega, rfl⟩
  · omega

theorem scalarBytes_four {b0 b1 b2 b3 : Nat} (lead : 0xf0 ≤ b0 ∧ b0 ≤ 0xf4) (first : Continues b1) (second : Continues b2)
    (third : Continues b3) (shortest : b0 = 0xf0 → 0x90 ≤ b1) (last : b0 = 0xf4 → b1 < 0x90) :
    ∃ scalar, scalarBytes scalar = [b0, b1, b2, b3] := by
  obtain ⟨low, high⟩ := first
  obtain ⟨low', high'⟩ := second
  obtain ⟨low'', high''⟩ := third
  obtain ⟨scalar, value⟩ :=
    exists_scalar ((b0 - 0xf0) * 262144 + (b1 - 0x80) * 4096 + (b2 - 0x80) * 64 + (b3 - 0x80)) (by omega)
  refine ⟨scalar, ?_⟩
  obtain ⟨below, -⟩ | ⟨-, below, -⟩ | ⟨-, below, -⟩ | ⟨-, -, bytes⟩ := scalarBytes_cases scalar
  · omega
  · omega
  · omega
  · rw [bytes, value, List.cons.injEq, List.cons.injEq, List.cons.injEq, List.cons.injEq]
    exact ⟨by omega, by omega, by omega, by omega, rfl⟩

end Scalars

section Texts

variable {scalar : Char} {lead : Nat} {bytes rest more : List Nat}

theorem wellFormed_nil : WellFormedUtf8 [] := ⟨[], rfl⟩

/-- A well-formed text starts with the encoding its first byte announces. -/
theorem wellFormed_cons (valid : WellFormedUtf8 (lead :: rest)) :
    ∃ scalar more, scalarBytes scalar = lead :: more ∧ ∃ left, rest = more ++ left ∧ WellFormedUtf8 left := by
  obtain ⟨scalars, same⟩ := valid
  cases scalars with
  | nil => cases same
  | cons scalar scalars =>
    obtain ⟨lead', more, bytes⟩ := scalarBytes_cons scalar
    rw [List.flatMap_cons, bytes, List.cons_append] at same
    obtain ⟨rfl, rfl⟩ := List.cons.inj same
    exact ⟨scalar, more, bytes, _, rfl, scalars, rfl⟩

/-- An encoding in front changes nothing. -/
theorem wellFormed_append_iff (scalar : Char) (rest : List Nat) :
    WellFormedUtf8 (scalarBytes scalar ++ rest) ↔ WellFormedUtf8 rest := by
  obtain ⟨lead, more, bytes⟩ := scalarBytes_cons scalar
  constructor
  · rw [bytes, List.cons_append]
    intro valid
    obtain ⟨scalar', more', bytes', left, same, leftValid⟩ := wellFormed_cons valid
    have lengths : more.length = more'.length := by
      have announced := scalarBytes_length bytes
      have announced' := scalarBytes_length bytes'
      omega
    obtain ⟨-, rfl⟩ := List.append_inj same lengths
    exact leftValid
  · rintro ⟨scalars, rfl⟩
    exact ⟨scalar :: scalars, rfl⟩

end Texts
end Protovalidate.Foundation
