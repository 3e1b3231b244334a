import TeamRoles.Proofs.Descriptor.Format

/-!
Encoding and decoding descriptors, by the format's checksum or any other one. Decoding what was encoded
gives the descriptor back, up to raw extension bodies, which are read anew; encoding what was decoded gives
the byte string back, up to the flags without a meaning.
-/

namespace TeamRoles.Descriptor

namespace Extension

/-- The version and the body that are kept although their attributes are not known. -/
def raw? : Extension → Option (UInt16 × List UInt8)
  | .unsupported version body => some (version, body)
  | .corrupt version _ body => some (version, body)
  | _ => none

/-- What an extension is after it was written and read again. -/
inductive Reread : Extension → Extension → Prop
  | absent : Reread .absent .absent
  | v1 (a : Attributes) : Reread (.v1 a) (.v1 a)
  | unsupported {x : Extension} {version : UInt16} {body : List UInt8}
    (raw : x.raw? = some (version, body)) (other : version ≠ currentVersion) :
    Reread x (.unsupported version body)
  | complete {x : Extension} {body : List UInt8} {a : Attributes}
    (raw : x.raw? = some (currentVersion, body)) (read : readBody body = .ok a) : Reread x (.v1 a)
  | damaged {x : Extension} {body : List UInt8} {e : DecodeError}
    (raw : x.raw? = some (currentVersion, body)) (read : readBody body = .error e) :
    Reread x (.corrupt currentVersion e.message body)

theorem ofFrame_v1 {a : Attributes} (h : a.InRange) :
    ofFrame currentVersion (Codec.attributes.emit a) = .v1 a := by
  have read : readBody (Codec.attributes.emit a) = .ok a := readBody_eq_ok_iff.2 ⟨h, rfl⟩
  simp [ofFrame, read]

theorem reread_ofFrame {x : Extension} (h : x.InRange) {version : UInt16} {body : List UInt8}
    (written : x.frame? = some (version, body)) : Reread x (ofFrame version body) := by
  have ofRaw (raw : x.raw? = some (version, body)) : Reread x (ofFrame version body) := by
    unfold ofFrame
    split
    case isTrue other => exact .unsupported raw other
    case isFalse same =>
      obtain rfl : version = currentVersion := Decidable.not_not.1 same
      split
      case h_1 a read => exact .complete raw read
      case h_2 e read => exact .damaged raw read
  cases x with
  | absent => cases written
  | v1 a =>
    cases written
    rw [ofFrame_v1 h.1]
    exact .v1 a
  | unsupported version' body' => exact ofRaw written
  | corrupt version' reason body' => exact ofRaw written

theorem Reread.unique {x y z : Extension} (h : Reread x y) (h' : Reread x z) : y = z := by
  cases h <;> cases h' <;> simp_all [raw?]

theorem frame_short {x : Extension} (h : x.InRange) {version : UInt16} {body : List UInt8}
    (written : x.frame? = some (version, body)) : body.length < lengthLimit := by
  cases x with
  | absent => cases written
  | v1 a => cases written; exact h.2
  | unsupported version' body' => cases written; exact h
  | corrupt version' reason body' => cases written; exact h

theorem exists_reread {x : Extension} (h : x.InRange) :
    ∃ y, Reread x y ∧ y.Decoded ∧ y.frame? = x.frame? := by
  cases written : x.frame? with
  | none =>
    cases x with
    | absent => exact ⟨.absent, .absent, .absent, rfl⟩
    | v1 a => cases written
    | unsupported version body => cases written
    | corrupt version reason body => cases written
  | some frame =>
    obtain ⟨version, body⟩ := frame
    exact ⟨ofFrame version body, reread_ofFrame h written, .framed version body (frame_short h written),
      frame?_ofFrame version body⟩

end Extension

/-- All lengths fit into four bytes, also that of an encoded extension body. -/
@[mk_iff] structure InRange (d : Descriptor) : Prop where
  outline : d.toOutline.InRange
  extension : d.extension.InRange

instance (d : Descriptor) : Decidable d.InRange := decidable_of_iff' _ (inRange_iff d)

theorem flag_of_present (present : Bool) :
    ((if present then extensionFlag else 0) &&& extensionFlag != 0) = present := by
  cases present <;> decide

theorem decode_encode (sumOf : List UInt8 → UInt32) (d : Descriptor) (h : d.InRange) :
    (∃ x, d.extension.Reread x ∧ decodeWith sumOf (d.encodeWith sumOf) = .ok { d with extension := x }) ∧
      (d.extension.Reread d.extension → decodeWith sumOf (d.encodeWith sumOf) = .ok d) := by
  obtain ⟨x, reread, decoded, written⟩ := Extension.exists_reread h.extension
  have decodes : decodeWith sumOf (d.encodeWith sumOf) = .ok { d with extension := x } := by
    apply decodeWith_eq_ok_iff.2
    refine ⟨if d.extension.isPresent then extensionFlag else 0, ⟨h.outline, decoded, ?_⟩, ?_⟩
    · rw [flag_of_present, Extension.isPresent_eq, Extension.isPresent_eq, written]
    · have payload_eq : payload { d with extension := x } = d.payload := by
        simp only [payload, Extension.emit, written]
      rw [payload_eq]
      rfl
  refine ⟨⟨x, reread, decodes⟩, fun same => ?_⟩
  rw [decodes, reread.unique same]

/-- A box whose extension claims to be readable and is not. -/
def damagedBox : Descriptor where
  name := "p.Box"
  modifiers := .public
  signature := some "<T:Lcore/Object;>Lcore/Object;"
  superclass := some "core.Object"
  fields := [⟨"value", .private, "TT;"⟩]
  methods := [⟨"get", .public, "()TT;"⟩]
  extension := .unsupported 1 [0xFF, 0xFF]

theorem decode_encode_damagedBox : damagedBox.InRange ∧
    ∃ x, damagedBox.extension.Reread x ∧
      decode damagedBox.encode = .ok { damagedBox with extension := x } :=
  have inRange : damagedBox.InRange := by decide
  ⟨inRange, (decode_encode checksum damagedBox inRange).1⟩

def headerFlags (bytes : List UInt8) : UInt16 := UInt16.ofNat (fromLittleEndian ((bytes.drop 6).take 2))

def withFlags (bytes : List UInt8) (flags : UInt16) : List UInt8 :=
  bytes.take 6 ++ Codec.u16.emit flags ++ bytes.drop 8

theorem headerFlags_headerWith (flags : UInt16) (sum : UInt32) (rest : List UInt8) :
    headerFlags (headerWith flags sum ++ rest) = flags := by
  change UInt16.ofNat (fromLittleEndian (littleEndian 2 flags.toNat)) = flags
  rw [fromLittleEndian_littleEndian flags.toNat_lt, UInt16.ofNat_toNat]

theorem withFlags_headerWith (flags flags' : UInt16) (sum : UInt32) (rest : List UInt8) :
    withFlags (headerWith flags sum ++ rest) flags' = headerWith flags' sum ++ rest := by
  simp [withFlags, headerWith, magic, Codec.u16, littleEndian]

theorem flag_eq (flags : UInt16) :
    (if flags &&& extensionFlag != 0 then extensionFlag else 0) = flags &&& extensionFlag := by
  have bit : (flags &&& extensionFlag).toNat = flags.toNat % 2 := by
    rw [UInt16.toNat_and]
    exact Nat.and_one_is_mod flags.toNat
  apply UInt16.toNat_inj.1
  split
  case isTrue set =>
    have nonzero : (flags &&& extensionFlag).toNat ≠ 0 := by
      intro zero
      exact (bne_iff_ne.1 set) (UInt16.toNat_inj.1 zero)
    change 1 = _
    omega
  case isFalse clear =>
    rw [Bool.not_eq_true, bne_eq_false_iff_eq] at clear
    rw [clear]

theorem encode_of_decode {sumOf : List UInt8 → UInt32} {bytes : List UInt8} {d : Descriptor}
    (h : decodeWith sumOf bytes = .ok d) :
    d.encodeWith sumOf = withFlags bytes (headerFlags bytes &&& extensionFlag) ∧
      ∀ other, decodeWith sumOf other = .ok d →
        other.take 6 = bytes.take 6 ∧ other.drop 8 = bytes.drop 8 ∧
          headerFlags other &&& extensionFlag = headerFlags bytes &&& extensionFlag := by
  obtain ⟨flags, ⟨-, -, present⟩, rfl⟩ := decodeWith_eq_ok_iff.1 h
  constructor
  · rw [headerFlags_headerWith, withFlags_headerWith, ← flag_eq, ← present]
    rfl
  · intro other h'
    obtain ⟨flags', ⟨-, -, present'⟩, rfl⟩ := decodeWith_eq_ok_iff.1 h'
    refine ⟨rfl, rfl, ?_⟩
    rw [headerFlags_headerWith, headerFlags_headerWith, ← flag_eq flags, ← flag_eq flags', ← present,
      ← present']

def laterBox : Descriptor := { damagedBox with extension := .unsupported 7 [1, 2, 3] }

/-- Its bytes, with a flag in the header that has no meaning. -/
def laterBoxBytes : List UInt8 := headerWith 0x8001 (checksum laterBox.payload) ++ laterBox.payload

theorem encode_of_decode_laterBox : decode laterBoxBytes = .ok laterBox ∧
    laterBox.encode = withFlags laterBoxBytes (headerFlags laterBoxBytes &&& extensionFlag) :=
  have decodes : decode laterBoxBytes = .ok laterBox :=
    decode_eq_ok_iff.2 ⟨0x8001, ⟨by decide, .framed 7 [1, 2, 3] (by decide), by decide⟩, rfl⟩
  ⟨decodes, (encode_of_decode decodes).1⟩

end TeamRoles.Descriptor
