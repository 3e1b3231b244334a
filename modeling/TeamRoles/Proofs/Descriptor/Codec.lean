import Mathlib.Algebra.Group.Nat.Defs
import TeamRoles.Descriptor.Wire

/-!
Exact codecs. A codec is exact for a set of values if it reads a value exactly where the value was
written and leaves the cursor right behind it. Every combinator of the binary layer keeps exactness, so
the format has no second spelling of a value and no slack between values.
-/

namespace TeamRoles.Descriptor

variable {α β ε ε' : Type}

def Cursor.Past (s : Cursor) (bytes : List UInt8) (t : Cursor) : Prop :=
  s.rest = bytes ++ t.rest ∧ t.position = s.position + bytes.length

namespace Cursor

theorem past_nil_iff {s t : Cursor} : s.Past [] t ↔ t = s := by
  cases s
  cases t
  simp [Past, eq_comm, and_comm]

theorem past_append_iff {s t : Cursor} {xs ys : List UInt8} :
    s.Past (xs ++ ys) t ↔ ∃ m, s.Past xs m ∧ m.Past ys t := by
  constructor
  · rintro ⟨hr, hp⟩
    refine ⟨⟨s.position + xs.length, ys ++ t.rest⟩, ⟨?_, rfl⟩, rfl, ?_⟩
    · rw [hr, List.append_assoc]
    · rw [hp, List.length_append, Nat.add_assoc]
  · rintro ⟨m, ⟨hr, hp⟩, hr', hp'⟩
    constructor
    · rw [hr, hr', List.append_assoc]
    · rw [hp', hp, List.length_append, Nat.add_assoc]

end Cursor

namespace Reader

def outcome (r : ExceptT ε (StateM Cursor) α) (s : Cursor) : Except ε α × Cursor := r.run.run s

/-- The value `a` is got on the way from `s` to `t`. -/
def Reads (r : ExceptT ε (StateM Cursor) α) (s : Cursor) (a : α) (t : Cursor) : Prop :=
  outcome r s = (.ok a, t)

theorem outcome_bind (r : ExceptT ε (StateM Cursor) α) (f : α → ExceptT ε (StateM Cursor) β)
    (s : Cursor) :
    outcome (r >>= f) s = match outcome r s with
      | (.ok a, t) => outcome (f a) t
      | (.error e, t) => (.error e, t) := by
  change (match outcome r s with | (a, t) => (ExceptT.bindCont f a).run t) = _
  cases outcome r s with
  | mk a t => cases a <;> rfl

theorem outcome_bind_of_reads {r : ExceptT ε (StateM Cursor) α}
    {f : α → ExceptT ε (StateM Cursor) β} {s m : Cursor} {a : α} (h : Reads r s a m) :
    outcome (r >>= f) s = outcome (f a) m := by
  rw [outcome_bind, h]

theorem reads_pure_iff {a b : α} {s t : Cursor} :
    Reads (pure a : ExceptT ε (StateM Cursor) α) s b t ↔ b = a ∧ t = s := by
  change (Except.ok a, s) = (Except.ok b, t) ↔ _
  simp only [Prod.mk.injEq, Except.ok.injEq]
  exact and_congr eq_comm eq_comm

theorem reads_bind_iff {r : ExceptT ε (StateM Cursor) α} {f : α → ExceptT ε (StateM Cursor) β}
    {s t : Cursor} {b : β} :
    Reads (r >>= f) s b t ↔ ∃ a m, Reads r s a m ∧ Reads (f a) m b t := by
  simp only [Reads, outcome_bind]
  cases outcome r s with
  | mk x m =>
    cases x with
    | error e => simp
    | ok a =>
      constructor
      · intro h
        exact ⟨a, m, rfl, h⟩
      · rintro ⟨_, _, h, h'⟩
        cases h
        exact h'

theorem not_reads_throw {e : ε} {s t : Cursor} {a : α} :
    ¬Reads (throw e : ExceptT ε (StateM Cursor) α) s a t := by
  intro h
  cases h

theorem reads_guard_iff {c : Prop} [Decidable c] {e : ε} {r : ExceptT ε (StateM Cursor) α}
    {s t : Cursor} {a : α} :
    Reads (if c then (do throw e; r) else r) s a t ↔ ¬c ∧ Reads r s a t := by
  by_cases h : c
  · simp [h, not_reads_throw]
  · simp [h]

theorem reads_adapt_iff {f : ε → ε'} {r : ExceptT ε (StateM Cursor) α} {s t : Cursor} {a : α} :
    Reads (ExceptT.adapt f r) s a t ↔ Reads r s a t := by
  change (match outcome r s with | (x, t) => (x.mapError f, t)) = (Except.ok a, t) ↔ _
  unfold Reads
  cases outcome r s with
  | mk x m =>
    cases x with
    | error cause =>
      constructor
      · rintro ⟨⟩
      · rintro ⟨⟩
    | ok x =>
      constructor
      · rintro ⟨⟩
        rfl
      · rintro ⟨⟩
        rfl

theorem reads_get_iff {s t c : Cursor} : Reads (get : Reader Cursor) s c t ↔ c = s ∧ t = s := by
  change (Except.ok s, s) = (Except.ok c, t) ↔ _
  simp only [Prod.mk.injEq, Except.ok.injEq]
  exact and_congr eq_comm eq_comm

theorem reads_set_iff {s t c : Cursor} {u : Unit} : Reads (set c : Reader Unit) s u t ↔ t = c := by
  change (Except.ok (), c) = (Except.ok u, t) ↔ _
  simp [eq_comm]

theorem reads_position_iff {s t : Cursor} {n : Nat} :
    Reads position s n t ↔ n = s.position ∧ t = s := by
  simp only [position, reads_bind_iff, reads_get_iff, reads_pure_iff]
  constructor
  · rintro ⟨_, _, ⟨rfl, rfl⟩, rfl, rfl⟩
    exact ⟨rfl, rfl⟩
  · rintro ⟨rfl, rfl⟩
    exact ⟨_, _, ⟨rfl, rfl⟩, rfl, rfl⟩

theorem reads_slice_iff {n : Nat} {s t : Cursor} {bs : List UInt8} :
    Reads (slice n) s bs t ↔ bs.length = n ∧ s.Past bs t := by
  simp only [slice, reads_bind_iff, reads_get_iff]
  constructor
  · rintro ⟨_, _, ⟨rfl, rfl⟩, h⟩
    split at h
    case isTrue le =>
      simp only [reads_bind_iff, reads_set_iff, reads_pure_iff] at h
      obtain ⟨_, _, rfl, rfl, rfl⟩ := h
      rw [Cursor.remaining] at le
      simp [Cursor.Past, Cursor.advance, le]
    case isFalse => exact (not_reads_throw h).elim
  · rintro ⟨rfl, hr, hp⟩
    refine ⟨s, s, ⟨rfl, rfl⟩, ?_⟩
    have le : bs.length ≤ s.remaining := by simp [Cursor.remaining, hr]
    rw [if_pos le]
    simp only [reads_bind_iff, reads_set_iff, reads_pure_iff]
    refine ⟨(), _, rfl, ?_, ?_⟩
    · simp [hr]
    · cases t
      simp_all [Cursor.advance]

theorem reads_expectEnd_iff {s t : Cursor} {u : Unit} :
    Reads expectEnd s u t ↔ s.rest = [] ∧ t = s := by
  simp only [expectEnd, reads_bind_iff, reads_get_iff]
  constructor
  · rintro ⟨_, _, ⟨rfl, rfl⟩, h⟩
    split at h
    case isTrue none =>
      exact ⟨List.length_eq_zero_iff.1 none, (reads_pure_iff.1 h).2⟩
    case isFalse => exact (not_reads_throw h).elim
  · rintro ⟨none, rfl⟩
    refine ⟨t, t, ⟨rfl, rfl⟩, ?_⟩
    have le : t.remaining = 0 := List.length_eq_zero_iff.2 none
    rw [if_pos le]
    exact reads_pure_iff.2 ⟨rfl, rfl⟩

theorem reads_string_iff {n : Nat} {s t : Cursor} {text : String} :
    Reads (string n) s text t ↔
      text.utf8ByteSize = n ∧ s.Past text.toUTF8.data.toList t := by
  simp only [string, reads_bind_iff, reads_position_iff, reads_slice_iff]
  constructor
  · rintro ⟨_, _, ⟨rfl, rfl⟩, bs, m, ⟨hn, hp⟩, h⟩
    split at h
    case h_1 found valid =>
      obtain ⟨rfl, rfl⟩ := reads_pure_iff.1 h
      unfold String.fromUTF8? at valid
      split at valid
      case isTrue =>
        cases valid
        exact ⟨hn, hp⟩
      case isFalse => cases valid
    case h_2 => exact (not_reads_throw h).elim
  · rintro ⟨hn, hp⟩
    refine ⟨_, _, ⟨rfl, rfl⟩, text.toUTF8.data.toList, t, ⟨hn, hp⟩, ?_⟩
    have valid : String.fromUTF8? ⟨text.toUTF8.data.toList.toArray⟩ = some text := by
      unfold String.fromUTF8?
      exact dif_pos text.isValidUTF8
    rw [valid]
    exact reads_pure_iff.2 ⟨rfl, rfl⟩

end Reader

@[simp] theorem length_littleEndian (width n : Nat) : (littleEndian width n).length = width := by
  induction width generalizing n with
  | zero => rfl
  | succ width ih => simp [littleEndian, ih]

theorem fromLittleEndian_lt (bytes : List UInt8) : fromLittleEndian bytes < 256 ^ bytes.length := by
  induction bytes with
  | nil => decide
  | cons b rest ih =>
    have hb := b.toNat_lt
    simp only [fromLittleEndian, List.foldr_cons, List.length_cons, Nat.pow_succ] at *
    omega

theorem littleEndian_fromLittleEndian (bytes : List UInt8) :
    littleEndian bytes.length (fromLittleEndian bytes) = bytes := by
  induction bytes with
  | nil => rfl
  | cons b rest ih =>
    have hb := b.toNat_lt
    have low : UInt8.ofNat (b.toNat + 256 * fromLittleEndian rest) = b := by
      apply UInt8.toNat_inj.1
      simp only [UInt8.toNat_ofNat']
      omega
    have high : (b.toNat + 256 * fromLittleEndian rest) / 256 = fromLittleEndian rest := by omega
    change UInt8.ofNat (b.toNat + 256 * fromLittleEndian rest) ::
      littleEndian rest.length ((b.toNat + 256 * fromLittleEndian rest) / 256) = b :: rest
    rw [low, high, ih]

theorem fromLittleEndian_littleEndian {width n : Nat} (h : n < 256 ^ width) :
    fromLittleEndian (littleEndian width n) = n := by
  induction width generalizing n with
  | zero =>
    have zero : n = 0 := by simpa using h
    rw [zero]
    rfl
  | succ width ih =>
    rw [Nat.pow_succ] at h
    have rest := ih (n := n / 256) (by omega)
    change (UInt8.ofNat n).toNat + 256 * fromLittleEndian (littleEndian width (n / 256)) = n
    rw [rest, UInt8.toNat_ofNat']
    omega

def lengthLimit : Nat := 2 ^ 32

def TextInRange (s : String) : Prop := s.utf8ByteSize < lengthLimit

def ListInRange (ok : α → Prop) (as : List α) : Prop := as.length < lengthLimit ∧ ∀ a ∈ as, ok a

instance (s : String) : Decidable (TextInRange s) := inferInstanceAs (Decidable (_ < _))

instance (ok : α → Prop) [DecidablePred ok] (as : List α) : Decidable (ListInRange ok as) :=
  inferInstanceAs (Decidable (_ ∧ _))

theorem toNat_length {n : Nat} (h : n < lengthLimit) : (UInt32.ofNat n).toNat = n := by
  rw [lengthLimit] at h
  rw [UInt32.toNat_ofNat']
  omega

open Reader

/-- The codec reads `a` exactly where it was written, for the values that satisfy `ok` and no others. -/
structure Codec.Exact (c : Codec α) (ok : α → Prop) : Prop where
  reads_iff : ∀ {s t : Cursor} {a : α}, Reads c.read s a t ↔ ok a ∧ s.Past (c.emit a) t

namespace Codec.Exact

theorem congr {c : Codec α} {ok ok' : α → Prop} (h : c.Exact ok) (same : ∀ a, ok' a ↔ ok a) :
    c.Exact ok' where
  reads_iff := by
    intro s t a
    rw [same, h.reads_iff]

theorem iso {c : Codec α} {ok : α → Prop} {build : α → β} {split : β → α} (h : c.Exact ok)
    (build_split : ∀ b, build (split b) = b) (split_build : ∀ a, split (build a) = a) :
    (c.iso build split).Exact (fun b => ok (split b)) where
  reads_iff := by
    intro s t b
    simp only [Codec.iso, reads_bind_iff, reads_pure_iff]
    constructor
    · rintro ⟨a, m, read, rfl, rfl⟩
      rw [split_build]
      exact h.reads_iff.1 read
    · intro there
      exact ⟨split b, t, h.reads_iff.2 there, (build_split b).symm, rfl⟩

theorem pair {a : Codec α} {b : Codec β} {okA : α → Prop} {okB : β → Prop} (ha : a.Exact okA)
    (hb : b.Exact okB) : (a.pair b).Exact (fun p => okA p.1 ∧ okB p.2) where
  reads_iff := by
    rintro s t ⟨x, y⟩
    simp only [Codec.pair, reads_bind_iff, reads_pure_iff, Cursor.past_append_iff]
    constructor
    · rintro ⟨_, m, readA, _, _, readB, h, rfl⟩
      cases h
      obtain ⟨okx, past⟩ := ha.reads_iff.1 readA
      obtain ⟨oky, past'⟩ := hb.reads_iff.1 readB
      exact ⟨⟨okx, oky⟩, m, past, past'⟩
    · rintro ⟨⟨okx, oky⟩, m, past, past'⟩
      exact ⟨x, m, ha.reads_iff.2 ⟨okx, past⟩, y, t, hb.reads_iff.2 ⟨oky, past'⟩, rfl, rfl⟩

theorem word (width : Nat) {toNat : α → Nat} {ofNat : Nat → α} (lt : ∀ a, toNat a < 256 ^ width)
    (ofNat_toNat : ∀ a, ofNat (toNat a) = a)
    (toNat_ofNat : ∀ n, n < 256 ^ width → toNat (ofNat n) = n) :
    Codec.Exact ⟨fun a => littleEndian width (toNat a),
      do return ofNat (fromLittleEndian (← slice width))⟩ (fun _ => True) where
  reads_iff := by
    intro s t a
    simp only [reads_bind_iff, reads_slice_iff, reads_pure_iff, true_and]
    constructor
    · rintro ⟨bytes, m, ⟨rfl, past⟩, rfl, rfl⟩
      rw [toNat_ofNat _ (fromLittleEndian_lt bytes), littleEndian_fromLittleEndian]
      exact past
    · intro past
      refine ⟨_, t, ⟨length_littleEndian _ _, past⟩, ?_, rfl⟩
      rw [fromLittleEndian_littleEndian (lt a), ofNat_toNat]

theorem u8 : Codec.u8.Exact (fun _ => True) := by
  have emit_eq (n : UInt8) : littleEndian 1 n.toNat = [n] := by simp [littleEndian]
  have exact_word := word 1 UInt8.toNat_lt (fun n => UInt8.ofNat_toNat (x := n))
    (fun n h => by rw [UInt8.toNat_ofNat']; omega)
  simp only [emit_eq] at exact_word
  exact exact_word

theorem u16 : Codec.u16.Exact (fun _ => True) :=
  word 2 UInt16.toNat_lt (fun n => UInt16.ofNat_toNat (x := n))
    (fun n h => by rw [UInt16.toNat_ofNat']; omega)

theorem u32 : Codec.u32.Exact (fun _ => True) :=
  word 4 UInt32.toNat_lt (fun n => UInt32.ofNat_toNat (x := n))
    (fun n h => by rw [UInt32.toNat_ofNat']; omega)

theorem counted (emit : α → List UInt8) (size : α → Nat) (r : Nat → Reader α) {ok : α → Prop}
    (h : ∀ n s t a, Reads (r n) s a t ↔ (size a = n ∧ ok a) ∧ s.Past (emit a) t) :
    Codec.Exact ⟨fun a => Codec.u32.emit (UInt32.ofNat (size a)) ++ emit a,
      do r (← Codec.u32.read).toNat⟩ (fun a => size a < lengthLimit ∧ ok a) where
  reads_iff := by
    intro s t a
    simp only [reads_bind_iff, u32.reads_iff, h, Cursor.past_append_iff, true_and]
    constructor
    · rintro ⟨n, m, past, ⟨same, good⟩, past'⟩
      rw [same, UInt32.ofNat_toNat]
      exact ⟨⟨n.toNat_lt, good⟩, m, past, past'⟩
    · rintro ⟨⟨lt, good⟩, m, past, past'⟩
      exact ⟨_, m, past, ⟨(toNat_length lt).symm, good⟩, past'⟩

theorem bytes : Codec.bytes.Exact (fun bs => bs.length < lengthLimit) := by
  have exact_bytes := counted id List.length slice
    (fun n s t bs => by rw [reads_slice_iff, and_true, id])
  exact exact_bytes.congr (fun bs => (and_iff_left trivial).symm)

theorem string : Codec.string.Exact TextInRange := by
  have exact_text := counted (fun s => s.toUTF8.data.toList) String.utf8ByteSize Reader.string
    (fun n s t text => by rw [reads_string_iff, and_true])
  exact exact_text.congr (fun text => (and_iff_left trivial).symm)

theorem tag {toByte : α → UInt8} {ofByte? : UInt8 → Option α}
    (h : ∀ b a, ofByte? b = some a ↔ toByte a = b) :
    (Codec.tag toByte ofByte?).Exact (fun _ => True) where
  reads_iff := by
    intro s t a
    simp only [Codec.tag, reads_bind_iff, reads_position_iff, u8.reads_iff, true_and]
    constructor
    · rintro ⟨_, _, ⟨rfl, rfl⟩, b, m, past, read⟩
      split at read
      case h_1 found known =>
        obtain ⟨rfl, rfl⟩ := reads_pure_iff.1 read
        rw [(h b a).1 known]
        exact past
      case h_2 => exact (not_reads_throw read).elim
    · intro past
      refine ⟨_, _, ⟨rfl, rfl⟩, toByte a, t, past, ?_⟩
      rw [(h _ a).2 rfl]
      exact reads_pure_iff.2 ⟨rfl, rfl⟩

theorem bool : Codec.bool.Exact (fun _ => True) := by
  apply tag
  intro b a
  unfold boolOfByte?
  cases a <;> grind

theorem option {c : Codec α} {ok : α → Prop} (h : c.Exact ok) :
    (Codec.option c).Exact (fun o => ∀ a ∈ o, ok a) where
  reads_iff := by
    intro s t o
    simp only [Codec.option, reads_bind_iff, bool.reads_iff, true_and]
    cases o with
    | none =>
      constructor
      · rintro ⟨present, m, past, read⟩
        cases present with
        | false =>
          obtain ⟨-, rfl⟩ := reads_pure_iff.1 read
          exact ⟨by simp, past⟩
        | true =>
          simp only [if_true, reads_bind_iff, reads_pure_iff] at read
          obtain ⟨_, _, _, h', _⟩ := read
          cases h'
      · rintro ⟨-, past⟩
        exact ⟨false, t, past, reads_pure_iff.2 ⟨rfl, rfl⟩⟩
    | some a =>
      simp only [Cursor.past_append_iff, Option.mem_some_iff, forall_eq']
      constructor
      · rintro ⟨present, m, past, read⟩
        cases present with
        | false =>
          obtain ⟨h', -⟩ := reads_pure_iff.1 read
          cases h'
        | true =>
          simp only [if_true, reads_bind_iff, reads_pure_iff] at read
          obtain ⟨_, _, read, h', rfl⟩ := read
          cases h'
          obtain ⟨good, past'⟩ := h.reads_iff.1 read
          exact ⟨good, m, past, past'⟩
      · rintro ⟨good, m, past, past'⟩
        refine ⟨true, m, past, ?_⟩
        simp only [if_true, reads_bind_iff, reads_pure_iff]
        exact ⟨a, t, h.reads_iff.2 ⟨good, past'⟩, rfl, rfl⟩

theorem reads_times_iff {c : Codec α} {ok : α → Prop} (h : c.Exact ok) {n : Nat} {s t : Cursor}
    {as : List α} :
    Reads (times c.read n) s as t ↔
      (as.length = n ∧ ∀ a ∈ as, ok a) ∧ s.Past (as.flatMap c.emit) t := by
  induction n generalizing s t as with
  | zero =>
    simp only [times, reads_pure_iff, List.length_eq_zero_iff]
    constructor
    · rintro ⟨rfl, rfl⟩
      exact ⟨⟨rfl, by simp⟩, Cursor.past_nil_iff.2 rfl⟩
    · rintro ⟨⟨rfl, -⟩, past⟩
      exact ⟨rfl, Cursor.past_nil_iff.1 past⟩
  | succ n ih =>
    simp only [times, reads_bind_iff, reads_pure_iff, h.reads_iff, ih]
    constructor
    · rintro ⟨a, m, ⟨good, past⟩, rest, _, ⟨⟨rfl, goods⟩, past'⟩, rfl, rfl⟩
      refine ⟨⟨rfl, ?_⟩, Cursor.past_append_iff.2 ⟨m, past, past'⟩⟩
      simpa using ⟨good, goods⟩
    · rintro ⟨⟨len, goods⟩, past⟩
      cases as with
      | nil => simp at len
      | cons a rest =>
        simp only [List.mem_cons, forall_eq_or_imp] at goods
        obtain ⟨m, past, past'⟩ := Cursor.past_append_iff.1 past
        exact ⟨a, m, ⟨goods.1, past⟩, rest, t, ⟨⟨Nat.succ.inj len, goods.2⟩, past'⟩, rfl, rfl⟩

theorem list {c : Codec α} {ok : α → Prop} (h : c.Exact ok) :
    (Codec.list c).Exact (ListInRange ok) :=
  counted (fun as => as.flatMap c.emit) List.length (times c.read)
    (fun _ _ _ _ => reads_times_iff h)

end Codec.Exact

end TeamRoles.Descriptor
