import TeamRoles.Proofs.BaseCall.Execution

/-!
Sets of call counts. A count is none, one or several; a set of counts is known by its members, and so
are the counts at the places of a node. Each operation of the analysis on such sets has its law here.
-/

namespace TeamRoles

/-- A number of calls as far as it is told apart. -/
inductive Count where
  | zero | one | many
  deriving DecidableEq

namespace Count

def next : Count → Count
  | .zero => .one
  | _ => .many

def add (x : Count) : Nat → Count
  | 0 => x
  | n + 1 => (x.add n).next

def ofCalls (n : Nat) : Count := zero.add n

@[simp] theorem add_zero (x : Count) : x.add 0 = x := rfl

@[simp] theorem add_one (x : Count) : x.add 1 = x.next := rfl

@[simp] theorem add_add (x : Count) (m n : Nat) : (x.add m).add n = x.add (m + n) := by
  induction n with
  | zero => rfl
  | succ n ih => rw [add, ih]; rfl

theorem forall_iff {p : Count → Prop} : (∀ x, p x) ↔ p zero ∧ p one ∧ p many := by
  constructor
  · intro h
    exact ⟨h zero, h one, h many⟩
  · intro h x
    cases x with
    | zero => exact h.1
    | one => exact h.2.1
    | many => exact h.2.2

theorem exists_iff {p : Count → Prop} : (∃ x, p x) ↔ p zero ∨ p one ∨ p many := by
  constructor
  · intro h
    obtain ⟨x, holds⟩ := h
    cases x with
    | zero => exact .inl holds
    | one => exact .inr (.inl holds)
    | many => exact .inr (.inr holds)
  · rintro (holds | holds | holds)
    · exact ⟨zero, holds⟩
    · exact ⟨one, holds⟩
    · exact ⟨many, holds⟩

instance {p : Count → Prop} [DecidablePred p] : Decidable (∀ x, p x) := decidable_of_iff' _ forall_iff

instance {p : Count → Prop} [DecidablePred p] : Decidable (∃ x, p x) := decidable_of_iff' _ exists_iff

theorem ofCalls_add_two (n : Nat) : ofCalls (n + 2) = many := by
  induction n with
  | zero => rfl
  | succ n ih =>
    change (ofCalls (n + 2)).next = many
    rw [ih]
    rfl

theorem ofCalls_eq_zero_iff {n : Nat} : ofCalls n = zero ↔ n = 0 := by
  match n with
  | 0 => simp [ofCalls]
  | 1 => simp [ofCalls, next]
  | n + 2 => simp [ofCalls_add_two]

theorem ofCalls_eq_many_iff {n : Nat} : ofCalls n = many ↔ 2 ≤ n := by
  match n with
  | 0 => simp [ofCalls]
  | 1 => simp [ofCalls, next]
  | n + 2 => simp [ofCalls_add_two]

end Count

namespace CallCounts

def has (c : CallCounts) : Count → Bool
  | .zero => c.zero
  | .one => c.one
  | .many => c.many

instance : Membership Count CallCounts := ⟨fun c x => c.has x = true⟩

instance (c : CallCounts) (x : Count) : Decidable (x ∈ c) := inferInstanceAs (Decidable (_ = _))

variable {a b c : CallCounts} {x : Count}

@[simp] theorem mem_union : x ∈ a.union b ↔ x ∈ a ∨ x ∈ b := by
  cases x <;> exact Bool.or_eq_true_iff

@[simp] theorem not_mem_empty : x ∉ empty := by
  cases x <;> exact Bool.false_ne_true

@[simp] theorem mem_start : x ∈ start ↔ x = .zero := by
  cases x <;> decide

theorem mem_called : x ∈ c.called ↔ ∃ y ∈ c, y.next = x := by
  constructor
  · intro member
    match x, member with
    | .one, called => exact ⟨.zero, called, rfl⟩
    | .many, called =>
      obtain once | often := Bool.or_eq_true_iff.1 called
      · exact ⟨.one, once, rfl⟩
      · exact ⟨.many, often, rfl⟩
  · rintro ⟨y, member, rfl⟩
    cases y with
    | zero => exact member
    | one => exact Bool.or_eq_true_iff.2 (.inl member)
    | many => exact Bool.or_eq_true_iff.2 (.inr member)

theorem not_mem_of_isEmpty (h : c.isEmpty = true) : x ∉ c := by
  obtain ⟨z, o, m⟩ := c
  cases x <;> simp_all [isEmpty, Membership.mem, has]

theorem mem_of_union_eq (same : a.union b = a) (member : x ∈ b) : x ∈ a := by
  rw [← same]
  exact mem_union.2 (.inr member)

theorem mem_problems_iff (c : CallCounts) :
    (.definitelyMissingBaseCall ∈ c.problems ↔ (∃ x, x ∈ c) ∧ ∀ x ∈ c, x = .zero) ∧
    (.potentiallyMissingBaseCall ∈ c.problems ↔ .zero ∈ c ∧ ∃ x ∈ c, x ≠ .zero) ∧
    (.definitelyDuplicateBaseCall ∈ c.problems ↔ (∃ x, x ∈ c) ∧ ∀ x ∈ c, x = .many) ∧
    (.potentiallyDuplicateBaseCall ∈ c.problems ↔ .many ∈ c ∧ ∃ x ∈ c, x ≠ .many) := by
  obtain ⟨none, once, often⟩ := c
  cases none <;> cases once <;> cases often <;> decide

end CallCounts

namespace Exits

variable {a b e : Exits} {c : CallCounts} {place : FlowNode.Place} {exit : Exit} {x : Count}

def countsAt (e : Exits) : FlowNode.Place → CallCounts
  | .inside => e.reachable
  | .left exit => e.counts exit

@[simp] theorem mem_join :
    x ∈ (a.join b).countsAt place ↔ x ∈ a.countsAt place ∨ x ∈ b.countsAt place := by
  cases place with
  | inside => exact CallCounts.mem_union
  | left exit => cases exit <;> exact CallCounts.mem_union

@[simp] theorem not_mem_default : x ∉ ({} : Exits).countsAt place := by
  cases place with
  | inside => exact CallCounts.not_mem_empty
  | left exit => cases exit <;> exact CallCounts.not_mem_empty

theorem mem_add : x ∈ (e.add exit c).countsAt place ↔
    x ∈ e.countsAt place ∨ place = .left exit ∧ x ∈ c := by
  cases place with
  | inside => cases exit <;> simp [add, countsAt]
  | left other => cases exit <;> cases other <;> simp [add, countsAt, counts]

theorem mem_only : x ∈ (only exit c).countsAt place ↔
    (place = .inside ∨ place = .left exit) ∧ x ∈ c := by
  rw [only, mem_add]
  cases place with
  | inside => simp [countsAt]
  | left other => cases other <;> simp [countsAt, counts]

theorem mem_closed : x ∈ e.closed.countsAt place ↔
    place ≠ .left .fallthrough ∧ x ∈ e.countsAt place := by
  cases place with
  | inside => simp [closed, countsAt]
  | left exit => cases exit <;> simp [closed, countsAt, counts]

theorem mem_again : x ∈ e.again ↔ ∃ exit : Exit, exit.Repeats ∧ x ∈ e.countsAt (.left exit) := by
  rw [again, CallCounts.mem_union]
  constructor
  · rintro (member | member)
    · exact ⟨.fallthrough, .fallthrough, member⟩
    · exact ⟨.continued, .continued, member⟩
  · rintro ⟨exit, repeats, member⟩
    cases repeats with
    | fallthrough => exact .inl member
    | continued => exact .inr member

end Exits

end TeamRoles
