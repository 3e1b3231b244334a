import TeamRoles.Proofs.Descriptor.RoundTrip

/-!
Descriptors delimit themselves. An exact codec reads a value up to the end of what was written and no
further, so bytes that start with two written values start with the same one. Hence a payload belongs
to one descriptor only, and no byte string that decodes is the start of another one, whatever the
checksum says.
-/

namespace TeamRoles.Descriptor

open Reader

variable {α : Type}

theorem Codec.Exact.append_inj {c : Codec α} {ok : α → Prop} (h : c.Exact ok) {a b : α}
    {xs ys : List UInt8} (okA : ok a) (okB : ok b) (same : c.emit a ++ xs = c.emit b ++ ys) :
    a = b ∧ xs = ys := by
  have reads (v : α) (zs : List UInt8) (good : ok v) :
      Reads c.read (Cursor.ofBytes (c.emit v ++ zs)) v ⟨(c.emit v).length, zs⟩ := by
    apply h.reads_iff.2
    simp [good, Cursor.Past, Cursor.ofBytes]
  have readA := reads a xs okA
  have readB := reads b ys okB
  rw [same] at readA
  have outcomes := readA.symm.trans readB
  simp only [Prod.mk.injEq, Except.ok.injEq, Cursor.mk.injEq] at outcomes
  exact ⟨outcomes.1, outcomes.2.2⟩

namespace Extension

theorem emit_ne_nil_iff (x : Extension) : x.emit ≠ [] ↔ x.isPresent = true := by
  rw [isPresent_eq, emit]
  cases x.frame? with
  | none => simp
  | some frame => simp [frameCodec, Codec.pair, Codec.u16, littleEndian]

theorem emit_append_inj {x y : Extension} {xs ys : List UInt8} (decodedX : x.Decoded)
    (decodedY : y.Decoded) (present : x.isPresent = y.isPresent) (same : x.emit ++ xs = y.emit ++ ys) :
    x = y ∧ xs = ys := by
  cases decodedX with
  | absent =>
    cases decodedY with
    | absent => exact ⟨rfl, same⟩
    | framed version body =>
      rw [isPresent_ofFrame] at present
      cases present
  | framed version body short =>
    cases decodedY with
    | absent =>
      rw [isPresent_ofFrame] at present
      cases present
    | framed version' body' short' =>
      rw [emit_ofFrame, emit_ofFrame] at same
      have frames := frameCodec_exact.append_inj short short' same
      simp only [Prod.mk.injEq] at frames
      simp [frames]

end Extension

structure Decoded (d : Descriptor) : Prop where
  outline : d.toOutline.InRange
  extension : d.extension.Decoded

section Payload

variable {d e : Descriptor} {xs ys : List UInt8}

theorem payload_append_inj (decodedD : d.Decoded) (decodedE : e.Decoded)
    (present : d.extension.isPresent = e.extension.isPresent)
    (same : d.payload ++ xs = e.payload ++ ys) : d = e ∧ xs = ys := by
  simp only [payload, List.append_assoc] at same
  have outlines := Codec.Exact.outline.append_inj decodedD.outline decodedE.outline same
  have extensions := Extension.emit_append_inj decodedD.extension decodedE.extension present outlines.2
  cases d
  cases e
  simp_all

theorem payload_inj (decodedD : d.Decoded) (decodedE : e.Decoded) (same : d.payload = e.payload) :
    d = e := by
  have outlines := Codec.Exact.outline.append_inj decodedD.outline decodedE.outline same
  have present : d.extension.isPresent = e.extension.isPresent := by
    rw [Bool.eq_iff_iff, ← Extension.emit_ne_nil_iff, ← Extension.emit_ne_nil_iff, outlines.2]
  have followed : d.payload ++ [] = e.payload ++ [] := by rw [same]
  exact (payload_append_inj decodedD decodedE present followed).1

end Payload

theorem headerWith_append_inj {flags flags' : UInt16} {sum sum' : UInt32} {xs ys : List UInt8}
    (same : headerWith flags sum ++ xs = headerWith flags' sum' ++ ys) :
    flags = flags' ∧ sum = sum' ∧ xs = ys := by
  simp only [headerWith, List.append_assoc, List.append_cancel_left_eq] at same
  have numbers := Codec.Exact.u16.append_inj trivial trivial same
  exact ⟨numbers.1, Codec.Exact.u32.append_inj trivial trivial numbers.2⟩

theorem self_delimiting (sumOf : List UInt8 → UInt32) (bytes extra : List UInt8)
    (more : extra ≠ []) :
    ¬((∃ d, decodeWith sumOf bytes = .ok d) ∧ ∃ e, decodeWith sumOf (bytes ++ extra) = .ok e) := by
  rintro ⟨⟨d, accepted⟩, e, continued⟩
  obtain ⟨flags, ⟨outline, extension, present⟩, rfl⟩ := decodeWith_eq_ok_iff.1 accepted
  obtain ⟨flags', ⟨outline', extension', present'⟩, same⟩ := decodeWith_eq_ok_iff.1 continued
  rw [List.append_assoc] at same
  have headers := headerWith_append_inj same
  -- The flags are the same, so both payloads have an extension or neither has one.
  have presence : d.extension.isPresent = e.extension.isPresent := by
    rw [present, present', headers.1]
  have payloads : d.payload ++ extra = e.payload ++ [] := by
    rw [headers.2.2, List.append_nil]
  apply more
  exact (payload_append_inj ⟨outline, extension⟩ ⟨outline', extension'⟩ presence payloads).2

theorem self_delimiting_laterBox : decode laterBoxBytes = .ok laterBox ∧
    ¬∃ e, decode (laterBoxBytes ++ [0]) = .ok e :=
  have decodes : decode laterBoxBytes = .ok laterBox :=
    decode_eq_ok_iff.2 ⟨0x8001, ⟨by decide, .framed 7 [1, 2, 3] (by decide), by decide⟩, rfl⟩
  ⟨decodes, fun continued =>
    self_delimiting checksum laterBoxBytes [0] (List.cons_ne_nil 0 []) ⟨⟨laterBox, decodes⟩, continued⟩⟩

end TeamRoles.Descriptor
