import Mathlib.Logic.Function.Basic
import TeamRoles.Proofs.Descriptor.Delimited

/-!
Damage to one byte of a descriptor. Every step of the checksum is injective, in the remainder and in
the byte, so a changed byte changes the checksum however much follows it. The header is outside the
checksum, but a payload belongs to one descriptor only, so damage there is noticed or harmless.
-/

namespace TeamRoles.Descriptor

namespace Checksum

theorem toNat_and_one (r : UInt32) : (r &&& 1).toNat = r.toNat % 2 := by
  rw [UInt32.toNat_and]
  exact Nat.and_one_is_mod r.toNat

theorem toNat_shiftRight_one (r : UInt32) : (r >>> 1).toNat = r.toNat / 2 := by
  simp [UInt32.toNat_shiftRight, Nat.shiftRight_eq_div_pow]

theorem shiftRight_xor_ne (r s : UInt32) : (r >>> 1) ^^^ (0xEDB88320 : UInt32) ≠ s >>> 1 := by
  intro same
  have generator : (r >>> 1) ^^^ (s >>> 1) = 0xEDB88320 := by
    rw [← same, ← UInt32.xor_assoc, UInt32.xor_self, UInt32.zero_xor]
  have below (q : UInt32) : (q >>> 1).toNat < 2 ^ 31 := by
    have bound := q.toNat_lt
    rw [toNat_shiftRight_one]
    omega
  have small := Nat.xor_lt_two_pow (below r) (below s)
  rw [← UInt32.toNat_xor, generator] at small
  exact absurd small (by decide)

theorem eq_of_shiftRight {r s : UInt32} (low : r &&& 1 = 1 ↔ s &&& 1 = 1)
    (rest : r >>> 1 = s >>> 1) : r = s := by
  have halves := congrArg UInt32.toNat rest
  rw [toNat_shiftRight_one, toNat_shiftRight_one] at halves
  simp only [← UInt32.toNat_inj, toNat_and_one, UInt32.reduceToNat] at low
  apply UInt32.toNat_inj.1
  omega

theorem step_injective : Function.Injective step := by
  intro r s same
  unfold step at same
  split at same
  case isTrue odd =>
    split at same
    case isTrue odd' =>
      exact eq_of_shiftRight (iff_of_true odd odd') ((UInt32.xor_left_inj _).1 same)
    case isFalse => exact absurd same (shiftRight_xor_ne r s)
  case isFalse even =>
    split at same
    case isTrue => exact absurd same.symm (shiftRight_xor_ne s r)
    case isFalse even' => exact eq_of_shiftRight (iff_of_false even even') same

theorem steps_injective (n : Nat) : Function.Injective (steps n) := by
  induction n with
  | zero => exact Function.injective_id
  | succ n ih => exact ih.comp step_injective

theorem addByte_inj {r s : UInt32} {b : UInt8} (same : addByte r b = addByte s b) : r = s :=
  (UInt32.xor_left_inj _).1 (steps_injective 8 same)

theorem addByte_inj_byte {r : UInt32} {b c : UInt8} (same : addByte r b = addByte r c) : b = c := by
  have widened : b.toUInt32 = c.toUInt32 := (UInt32.xor_right_inj r).1 (steps_injective 8 same)
  exact UInt8.toUInt32_inj.1 widened

theorem foldl_addByte_inj {bytes : List UInt8} {r s : UInt32}
    (same : bytes.foldl addByte r = bytes.foldl addByte s) : r = s := by
  induction bytes generalizing r s with
  | nil => exact same
  | cons b bytes ih => exact addByte_inj (ih same)

end Checksum

theorem eq_of_checksum_eq {xs ys : List UInt8} {a b : UInt8}
    (same : checksum (xs ++ a :: ys) = checksum (xs ++ b :: ys)) : a = b := by
  have remainders := (UInt32.xor_left_inj _).1 same
  rw [List.foldl_append, List.foldl_append] at remainders
  exact Checksum.addByte_inj_byte (Checksum.foldl_addByte_inj remainders)

theorem checksum_set_ne {bytes : List UInt8} {i : Nat} {byte : UInt8} (lt : i < bytes.length)
    (changed : byte ≠ bytes[i]) : checksum (bytes.set i byte) ≠ checksum bytes := by
  intro same
  have before : bytes = bytes.take i ++ bytes[i] :: bytes.drop (i + 1) := by simp
  have after : bytes.set i byte = bytes.take i ++ byte :: bytes.drop (i + 1) := by
    rw [List.set_eq_take_append_cons_drop, if_pos lt]
  rw [after] at same
  exact changed (eq_of_checksum_eq (same.trans (congrArg checksum before)))

open Reader

theorem outcome_readAll_of_sum_ne {sumOf : List UInt8 → UInt32} {all : List UInt8} {flags : UInt16}
    {sum : UInt32} {s t : Cursor} (past : s.Past (headerWith flags sum) t)
    (wrong : sum ≠ sumOf (all.drop headerSize)) :
    outcome (readAll sumOf all) s =
      (.error (.checksumMismatch sum (sumOf (all.drop headerSize))), t) := by
  simp only [headerWith, Cursor.past_append_iff] at past
  obtain ⟨m₃, ⟨m₂, ⟨m₁, past₁, past₂⟩, past₃⟩, past₄⟩ := past
  have magicRead : Reads (slice 4) s magic m₁ := reads_slice_iff.2 ⟨rfl, past₁⟩
  have versionRead := Codec.Exact.u16.reads_iff.2 ⟨trivial, past₂⟩
  have flagsRead := Codec.Exact.u16.reads_iff.2 ⟨trivial, past₃⟩
  have sumRead := Codec.Exact.u32.reads_iff.2 ⟨trivial, past₄⟩
  simp only [readAll, readAll.lift]
  rw [outcome_bind_of_reads (reads_adapt_iff.2 magicRead), if_neg (not_not_intro rfl),
    outcome_bind_of_reads (reads_adapt_iff.2 versionRead), if_neg (not_not_intro rfl),
    outcome_bind_of_reads (reads_adapt_iff.2 flagsRead),
    outcome_bind_of_reads (reads_adapt_iff.2 sumRead), if_pos wrong]
  rfl

theorem decode_of_sum_ne {flags : UInt16} {sum : UInt32} {rest : List UInt8}
    (wrong : sum ≠ checksum rest) :
    decode (headerWith flags sum ++ rest) = .error (.checksumMismatch sum (checksum rest)) := by
  have past : (Cursor.ofBytes (headerWith flags sum ++ rest)).Past (headerWith flags sum)
      ⟨headerSize, rest⟩ := by
    simp [Cursor.Past, Cursor.ofBytes, length_headerWith]
  rw [← drop_headerWith flags sum rest] at wrong
  have outcome_eq := outcome_readAll_of_sum_ne past wrong
  rw [drop_headerWith] at outcome_eq
  exact congrArg Prod.fst outcome_eq

theorem eq_of_decode_of_drop {bytes other : List UInt8} {d e : Descriptor} (h : decode bytes = .ok d)
    (h' : decode other = .ok e) (same : other.drop headerSize = bytes.drop headerSize) : e = d := by
  obtain ⟨flags, ⟨outline, extension, -⟩, rfl⟩ := decode_eq_ok_iff.1 h
  obtain ⟨flags', ⟨outline', extension', -⟩, rfl⟩ := decode_eq_ok_iff.1 h'
  rw [drop_headerWith, drop_headerWith] at same
  exact payload_inj ⟨outline', extension'⟩ ⟨outline, extension⟩ same

def flagsOf (d : Descriptor) : UInt16 := if d.extension.isPresent then extensionFlag else 0

theorem encode_eq (d : Descriptor) :
    d.encode = headerWith d.flagsOf (checksum d.payload) ++ d.payload := rfl

theorem exists_decode_encode {d : Descriptor} (h : d.InRange) : ∃ e, decode d.encode = .ok e := by
  obtain ⟨x, -, decoded, written⟩ := Extension.exists_reread h.extension
  refine ⟨{ d with extension := x }, decode_eq_ok_iff.2 ⟨d.flagsOf, ⟨h.outline, decoded, ?_⟩, ?_⟩⟩
  · rw [flagsOf, flag_of_present, Extension.isPresent_eq, Extension.isPresent_eq, written]
  · rw [encode_eq]
    simp only [payload, Extension.emit, written]

theorem decode_set_payload {d : Descriptor} {i : Nat} (lt : i < d.encode.length)
    {byte : UInt8} (changed : byte ≠ d.encode[i]) (le : headerSize ≤ i) :
    decode (d.encode.set i byte) = .error (.checksumMismatch (checksum d.payload)
      (checksum (d.payload.set (i - headerSize) byte))) := by
  simp only [encode_eq, List.length_append, length_headerWith] at lt
  have at_payload : d.encode[i] = d.payload[i - headerSize] := by
    simp only [encode_eq]
    rw [List.getElem_append_right (by rwa [length_headerWith])]
    simp only [length_headerWith]
  rw [at_payload] at changed
  rw [encode_eq, List.set_append_right _ _ (by rwa [length_headerWith]), length_headerWith]
  exact decode_of_sum_ne (checksum_set_ne _ changed).symm

theorem decode_damaged (d : Descriptor) (h : d.InRange) (i : Nat) (lt : i < d.encode.length)
    (byte : UInt8) (changed : byte ≠ d.encode[i]) :
    ∃ e, decode d.encode = .ok e ∧
      ((∃ error, decode (d.encode.set i byte) = .error error) ∨
        decode (d.encode.set i byte) = .ok e) ∧
      (headerSize ≤ i → ∃ expected actual,
        decode (d.encode.set i byte) = .error (.checksumMismatch expected actual)) := by
  obtain ⟨e, decodes⟩ := exists_decode_encode h
  refine ⟨e, decodes, ?_, fun le => ⟨_, _, decode_set_payload lt changed le⟩⟩
  by_cases le : headerSize ≤ i
  case pos => exact .inl ⟨_, decode_set_payload lt changed le⟩
  case neg =>
    cases result : decode (d.encode.set i byte) with
    | error error => exact .inl ⟨error, rfl⟩
    | ok e' =>
      have untouched : (d.encode.set i byte).drop headerSize = d.encode.drop headerSize :=
        List.drop_set_of_lt (Nat.lt_of_not_le le)
      rw [eq_of_decode_of_drop decodes result untouched]
      exact .inr rfl

theorem decode_damaged_damagedBox : damagedBox.InRange ∧
    ∃ expected actual,
      decode (damagedBox.encode.set 12 0) = .error (.checksumMismatch expected actual) :=
  have inRange : damagedBox.InRange := by decide
  have damaged := decode_damaged damagedBox inRange 12 (by decide +kernel) 0 (by decide +kernel)
  ⟨inRange, damaged.elim fun _ outcome => outcome.2.2 (by decide)⟩

end TeamRoles.Descriptor
