import Mathlib.Logic.Basic
import Mathlib.Tactic.MkIffOfInductiveProp
import TeamRoles.Descriptor.Basic
import TeamRoles.Proofs.Descriptor.Codec

/-!
The descriptor format is exact: a byte string decodes to a descriptor if and only if it is the header,
with any unused flags, followed by what the descriptor writes behind it. Values are in range if all
their lengths fit into four bytes, which is the only thing the format cannot write.
-/

namespace TeamRoles.Descriptor

open Reader

def OptionalInRange (o : Option String) : Prop := ∀ s ∈ o, TextInRange s

@[mk_iff] structure Member.InRange (m : Member) : Prop where
  name : TextInRange m.name
  signature : TextInRange m.signature

@[mk_iff] structure Outline.InRange (o : Outline) : Prop where
  name : TextInRange o.name
  signature : OptionalInRange o.signature
  superclass : OptionalInRange o.superclass
  interfaces : ListInRange TextInRange o.interfaces
  enclosing : OptionalInRange o.enclosing
  memberTypes : ListInRange TextInRange o.memberTypes
  fields : ListInRange Member.InRange o.fields
  methods : ListInRange Member.InRange o.methods

@[mk_iff] structure BaseMethodRef.InRange (r : BaseMethodRef) : Prop where
  name : TextInRange r.name
  signature : TextInRange r.signature

@[mk_iff] structure CallinRecord.InRange (r : CallinRecord) : Prop where
  label : TextInRange r.label
  roleMethod : TextInRange r.roleMethod
  roleSignature : TextInRange r.roleSignature
  baseMethods : ListInRange BaseMethodRef.InRange r.baseMethods

@[mk_iff] structure CalloutRecord.InRange (r : CalloutRecord) : Prop where
  roleMethod : TextInRange r.roleMethod
  roleSignature : TextInRange r.roleSignature
  baseMember : TextInRange r.baseMember
  baseSignature : TextInRange r.baseSignature

@[mk_iff] structure AnchorRecord.InRange (r : AnchorRecord) : Prop where
  member : TextInRange r.member
  path : TextInRange r.path

@[mk_iff] structure PrecedenceRecord.InRange (r : PrecedenceRecord) : Prop where
  labels : ListInRange TextInRange r.labels

@[mk_iff] structure Attributes.InRange (a : Attributes) : Prop where
  baseClass : OptionalInRange a.baseClass
  callins : ListInRange CallinRecord.InRange a.callins
  callouts : ListInRange CalloutRecord.InRange a.callouts
  anchors : ListInRange AnchorRecord.InRange a.anchors
  callsBaseConstructor : ListInRange TextInRange a.callsBaseConstructor
  precedences : ListInRange PrecedenceRecord.InRange a.precedences

instance (o : Option String) : Decidable (OptionalInRange o) :=
  inferInstanceAs (Decidable (∀ s ∈ o, TextInRange s))

instance (m : Member) : Decidable m.InRange := decidable_of_iff' _ (Member.inRange_iff m)

instance (o : Outline) : Decidable o.InRange := decidable_of_iff' _ (Outline.inRange_iff o)

instance (r : BaseMethodRef) : Decidable r.InRange := decidable_of_iff' _ (BaseMethodRef.inRange_iff r)

instance (r : CallinRecord) : Decidable r.InRange := decidable_of_iff' _ (CallinRecord.inRange_iff r)

instance (r : CalloutRecord) : Decidable r.InRange :=
  decidable_of_iff' _ (CalloutRecord.inRange_iff r)

instance (r : AnchorRecord) : Decidable r.InRange := decidable_of_iff' _ (AnchorRecord.inRange_iff r)

instance (r : PrecedenceRecord) : Decidable r.InRange :=
  decidable_of_iff' _ (PrecedenceRecord.inRange_iff r)

instance (a : Attributes) : Decidable a.InRange := decidable_of_iff' _ (Attributes.inRange_iff a)

namespace Codec.Exact

theorem modifiers : Codec.modifiers.Exact (fun _ => True) :=
  u32.iso (fun _ => rfl) (fun _ => rfl)

theorem member : Codec.member.Exact Member.InRange := by
  refine ((string.pair <| modifiers.pair string).iso (fun _ => rfl) (fun _ => rfl)).congr ?_
  intro m
  simp only [Member.inRange_iff, true_and]

theorem outline : Codec.outline.Exact Outline.InRange := by
  refine ((string.pair <| modifiers.pair <| string.option.pair <| string.option.pair <|
    string.list.pair <| string.option.pair <| string.list.pair <| member.list.pair member.list).iso
      (fun _ => rfl) (fun _ => rfl)).congr ?_
  intro o
  simp only [Outline.inRange_iff, OptionalInRange, true_and]

theorem callinKind : Codec.callinKind.Exact (fun _ => True) := by
  apply tag
  intro b a
  cases a <;> grind

theorem calloutKind : Codec.calloutKind.Exact (fun _ => True) := by
  apply tag
  intro b a
  cases a <;> grind

theorem baseMethodRef : Codec.baseMethodRef.Exact BaseMethodRef.InRange :=
  ((string.pair string).iso (fun _ => rfl) (fun _ => rfl)).congr BaseMethodRef.inRange_iff

theorem callin : Codec.callin.Exact CallinRecord.InRange := by
  refine ((string.pair <| string.pair <| string.pair <| callinKind.pair baseMethodRef.list).iso
    (fun _ => rfl) (fun _ => rfl)).congr ?_
  intro r
  simp only [CallinRecord.inRange_iff, true_and]

theorem callout : Codec.callout.Exact CalloutRecord.InRange := by
  refine ((string.pair <| string.pair <| calloutKind.pair <| string.pair string).iso
    (fun _ => rfl) (fun _ => rfl)).congr ?_
  intro r
  simp only [CalloutRecord.inRange_iff, true_and]

theorem anchor : Codec.anchor.Exact AnchorRecord.InRange :=
  ((string.pair string).iso (fun _ => rfl) (fun _ => rfl)).congr AnchorRecord.inRange_iff

theorem precedence : Codec.precedence.Exact PrecedenceRecord.InRange := by
  refine ((bool.pair string.list).iso (fun _ => rfl) (fun _ => rfl)).congr ?_
  intro r
  simp only [PrecedenceRecord.inRange_iff, true_and]

theorem attributes : Codec.attributes.Exact Attributes.InRange := by
  refine ((u16.pair <| string.option.pair <| callin.list.pair <| callout.list.pair <|
    anchor.list.pair <| string.list.pair precedence.list).iso
      (fun _ => rfl) (fun _ => rfl)).congr ?_
  intro a
  simp only [Attributes.inRange_iff, OptionalInRange, true_and]

end Codec.Exact

namespace Extension

def InRange : Extension → Prop
  | .absent => True
  | .v1 a => a.InRange ∧ (Codec.attributes.emit a).length < lengthLimit
  | .unsupported _ body => body.length < lengthLimit
  | .corrupt _ _ body => body.length < lengthLimit

instance : (x : Extension) → Decidable x.InRange
  | .absent => inferInstanceAs (Decidable True)
  | .v1 a => inferInstanceAs (Decidable (a.InRange ∧ _ < _))
  | .unsupported _ _ => inferInstanceAs (Decidable (_ < _))
  | .corrupt _ _ _ => inferInstanceAs (Decidable (_ < _))

/-- The states in which an extension can come out of a byte string. -/
inductive Decoded : Extension → Prop
  | absent : Decoded .absent
  | framed (version : UInt16) (body : List UInt8) (short : body.length < lengthLimit) :
    Decoded (ofFrame version body)

theorem readBody_eq_ok_iff {body : List UInt8} {a : Attributes} :
    readBody body = .ok a ↔ a.InRange ∧ body = Codec.attributes.emit a := by
  have reads_iff : readBody body = .ok a ↔ ∃ t, Reads readAttributes (Cursor.ofBytes body) a t := by
    unfold Reads
    change (outcome readAttributes (Cursor.ofBytes body)).1 = _ ↔ _
    cases outcome readAttributes (Cursor.ofBytes body) with
    | mk x t => simp
  simp only [reads_iff, readAttributes, reads_bind_iff, Codec.Exact.attributes.reads_iff,
    reads_expectEnd_iff, reads_pure_iff]
  constructor
  · rintro ⟨t, _, _, ⟨good, past, -⟩, _, _, ⟨done, rfl⟩, rfl, rfl⟩
    rw [done, List.append_nil] at past
    exact ⟨good, past⟩
  · rintro ⟨good, rfl⟩
    exact ⟨⟨(Codec.attributes.emit a).length, []⟩, a, _, ⟨good, by simp [Cursor.Past, Cursor.ofBytes]⟩,
      (), _, ⟨rfl, rfl⟩, rfl, rfl⟩

theorem frame?_ofFrame (version : UInt16) (body : List UInt8) :
    (ofFrame version body).frame? = some (version, body) := by
  unfold ofFrame
  split
  case isTrue => rfl
  case isFalse same =>
    have current : version = currentVersion := Decidable.not_not.1 same
    split
    case h_1 a read => rw [(readBody_eq_ok_iff.1 read).2, current]; rfl
    case h_2 => rfl

theorem isPresent_eq (x : Extension) : x.isPresent = x.frame?.isSome := by
  cases x <;> rfl

theorem frameCodec_exact : frameCodec.Exact (fun frame => frame.2.length < lengthLimit) :=
  (Codec.Exact.u16.pair Codec.Exact.bytes).congr (fun _ => (and_iff_right trivial).symm)

theorem emit_ofFrame (version : UInt16) (body : List UInt8) :
    (ofFrame version body).emit = frameCodec.emit (version, body) := by
  rw [emit, frame?_ofFrame]

theorem isPresent_ofFrame (version : UInt16) (body : List UInt8) :
    (ofFrame version body).isPresent = true := by
  rw [isPresent_eq, frame?_ofFrame]
  rfl

theorem reads_read_iff {present : Bool} {s t : Cursor} {x : Extension} :
    Reads (read present) s x t ↔ (x.Decoded ∧ x.isPresent = present) ∧ s.Past x.emit t := by
  cases present with
  | false =>
    constructor
    · intro h
      obtain ⟨rfl, rfl⟩ := reads_pure_iff.1 h
      exact ⟨⟨.absent, rfl⟩, Cursor.past_nil_iff.2 rfl⟩
    · rintro ⟨⟨decoded, missing⟩, past⟩
      cases decoded with
      | absent => exact reads_pure_iff.2 ⟨rfl, Cursor.past_nil_iff.1 past⟩
      | framed version body => simp [isPresent_ofFrame] at missing
  | true =>
    simp only [read, if_true, reads_bind_iff, reads_pure_iff, frameCodec_exact.reads_iff]
    constructor
    · rintro ⟨⟨version, body⟩, _, ⟨short, past⟩, rfl, rfl⟩
      rw [emit_ofFrame]
      exact ⟨⟨.framed version body short, isPresent_ofFrame version body⟩, past⟩
    · rintro ⟨⟨decoded, there⟩, past⟩
      cases decoded with
      | absent => cases there
      | framed version body short =>
        rw [emit_ofFrame] at past
        exact ⟨(version, body), t, ⟨short, past⟩, rfl, rfl⟩

end Extension

theorem reads_readPayload_iff {present : Bool} {s t : Cursor} {d : Descriptor} :
    Reads (readPayload present) s d t ↔
      (d.toOutline.InRange ∧ d.extension.Decoded ∧ d.extension.isPresent = present) ∧
        s.Past d.payload t ∧ t.rest = [] := by
  simp only [readPayload, payload, reads_bind_iff, Codec.Exact.outline.reads_iff,
    Extension.reads_read_iff, reads_expectEnd_iff, reads_pure_iff, Cursor.past_append_iff]
  constructor
  · rintro ⟨o, m, ⟨good, past⟩, x, m', ⟨⟨decoded, there⟩, past'⟩, _, _, ⟨done, rfl⟩, rfl, rfl⟩
    exact ⟨⟨good, decoded, there⟩, ⟨m, past, past'⟩, done⟩
  · rintro ⟨⟨good, decoded, there⟩, ⟨m, past, past'⟩, done⟩
    exact ⟨_, m, ⟨good, past⟩, _, t, ⟨⟨decoded, there⟩, past'⟩, (), t, ⟨done, rfl⟩, rfl, rfl⟩

/-- The header with all its flags, those without a meaning too. -/
def headerWith (flags : UInt16) (sum : UInt32) : List UInt8 :=
  magic ++ Codec.u16.emit version ++ Codec.u16.emit flags ++ Codec.u32.emit sum

theorem length_headerWith (flags : UInt16) (sum : UInt32) :
    (headerWith flags sum).length = headerSize := by
  simp [headerWith, Codec.u16, Codec.u32, magic, headerSize]

theorem drop_headerWith (flags : UInt16) (sum : UInt32) (rest : List UInt8) :
    (headerWith flags sum ++ rest).drop headerSize = rest :=
  List.drop_left' (length_headerWith flags sum)

theorem reads_readAll_iff {sumOf : List UInt8 → UInt32} {all : List UInt8} {s t : Cursor}
    {d : Descriptor} :
    Reads (readAll sumOf all) s d t ↔ ∃ flags,
      (d.toOutline.InRange ∧ d.extension.Decoded ∧
        d.extension.isPresent = (flags &&& extensionFlag != 0)) ∧
      s.Past (headerWith flags (sumOf (all.drop headerSize)) ++ d.payload) t ∧ t.rest = [] := by
  simp only [readAll, readAll.lift, reads_guard_iff, reads_bind_iff, reads_adapt_iff, reads_slice_iff,
    Codec.Exact.u16.reads_iff, Codec.Exact.u32.reads_iff, true_and, ne_eq, Decidable.not_not,
    reads_readPayload_iff, headerWith, Cursor.past_append_iff]
  constructor
  · rintro ⟨_, m₁, ⟨-, past₁⟩, rfl, _, m₂, past₂, rfl, flags, m₃, past₃, _, m₄, past₄, rfl, good,
      past, done⟩
    exact ⟨flags, good, ⟨m₄, ⟨m₃, ⟨m₂, ⟨m₁, past₁, past₂⟩, past₃⟩, past₄⟩, past⟩, done⟩
  · rintro ⟨flags, good, ⟨m₄, ⟨m₃, ⟨m₂, ⟨m₁, past₁, past₂⟩, past₃⟩, past₄⟩, past⟩, done⟩
    exact ⟨_, m₁, ⟨rfl, past₁⟩, rfl, _, m₂, past₂, rfl, flags, m₃, past₃, _, m₄, past₄, rfl, good,
      past, done⟩

theorem decodeWith_eq_ok_iff {sumOf : List UInt8 → UInt32} {bytes : List UInt8} {d : Descriptor} :
    decodeWith sumOf bytes = .ok d ↔ ∃ flags,
      (d.toOutline.InRange ∧ d.extension.Decoded ∧
        d.extension.isPresent = (flags &&& extensionFlag != 0)) ∧
      bytes = headerWith flags (sumOf d.payload) ++ d.payload := by
  have reads_iff : decodeWith sumOf bytes = .ok d ↔
      ∃ t, Reads (readAll sumOf bytes) (Cursor.ofBytes bytes) d t := by
    unfold Reads
    change (outcome (readAll sumOf bytes) (Cursor.ofBytes bytes)).1 = _ ↔ _
    cases outcome (readAll sumOf bytes) (Cursor.ofBytes bytes) with
    | mk x t => simp
  rw [reads_iff]
  simp only [reads_readAll_iff]
  constructor
  · rintro ⟨t, flags, good, ⟨past, -⟩, done⟩
    have whole : bytes = headerWith flags (sumOf (bytes.drop headerSize)) ++ d.payload := by
      rw [done, List.append_nil] at past
      exact past
    have payload_eq : bytes.drop headerSize = d.payload := by
      rw [whole, drop_headerWith]
    rw [payload_eq] at whole
    exact ⟨flags, good, whole⟩
  · rintro ⟨flags, good, rfl⟩
    refine ⟨⟨(headerWith flags (sumOf d.payload) ++ d.payload).length, []⟩, flags, good, ?_, rfl⟩
    rw [drop_headerWith]
    simp [Cursor.Past, Cursor.ofBytes]

theorem decode_eq_ok_iff {bytes : List UInt8} {d : Descriptor} :
    decode bytes = .ok d ↔ ∃ flags,
      (d.toOutline.InRange ∧ d.extension.Decoded ∧
        d.extension.isPresent = (flags &&& extensionFlag != 0)) ∧
      bytes = headerWith flags (checksum d.payload) ++ d.payload :=
  decodeWith_eq_ok_iff

end TeamRoles.Descriptor
