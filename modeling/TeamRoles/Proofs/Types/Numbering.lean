import Mathlib.Data.List.Dedup
import Mathlib.Data.List.Perm.Subperm
import TeamRoles.Proofs.Types.Table

/-!
A table of types that finds numbers by hash. It lists the types as `TypeTable` does, and beside the list it
keeps an index from the types back to their numbers, which have 32 bits. As long as there are numbers left, the
list and the index are inverse to each other, whatever the hash is, and the table numbers as one that searches
its list (`internEach_new_exact`).
-/

namespace TeamRoles

open TypeTable (primitives)

structure TypeIndex [Hashable Ty] where
  types : Array Ty := #[]
  numbers : Std.HashMap Ty UInt32 := {}

namespace TypeIndex

def atoms : List Ty := primitives.map .primitive ++ [.null]

def primitive (b : BaseType) : UInt32 := .ofNat (primitives.idxOf b)

def null : UInt32 := .ofNat primitives.length

theorem types_new : TypeTable.new.types.toList = atoms := by decide +kernel

theorem get_primitive (b : BaseType) :
    (primitive b).toNat < TypeTable.new.size ∧ TypeTable.new.get ⟨(primitive b).toNat⟩ = .primitive b := by
  cases b <;> decide +kernel

theorem get_null : null.toNat < TypeTable.new.size ∧ TypeTable.new.get ⟨null.toNat⟩ = .null := by
  decide +kernel

variable [Hashable Ty]

def lookup? (index : TypeIndex) (t : Ty) : Option UInt32 := index.numbers[t]?

def get? (index : TypeIndex) (n : UInt32) : Option Ty := index.types[n.toNat]?

def next (index : TypeIndex) : UInt32 := .ofNat index.types.size

def add (index : TypeIndex) (t : Ty) : TypeIndex := ⟨index.types.push t, index.numbers.insert t index.next⟩

def intern (index : TypeIndex) (t : Ty) : UInt32 × TypeIndex :=
  match index.lookup? t with
  | some n => (n, index)
  | none => (index.next, index.add t)

/-- Numbers the types one after the other, and lists the numbers as they are given. -/
def internEach (index : TypeIndex) : List Ty → List UInt32 × TypeIndex
  | [] => ([], index)
  | t :: rest =>
    let (n, index) := index.intern t
    let (ns, index) := index.internEach rest
    (n :: ns, index)

def new : TypeIndex := (internEach {} atoms).2

variable {index : TypeIndex} {table : TypeTable} {t u : Ty} {n m : UInt32} {types all : List Ty}

theorem intern_of_lookup? (h : index.lookup? t = some n) : index.intern t = (n, index) := by
  rw [intern, h]

theorem intern_of_unknown (h : index.lookup? t = none) : index.intern t = (index.next, index.add t) := by
  rw [intern, h]

theorem lookup?_add : (index.add t).lookup? u = if t = u then some index.next else index.lookup? u := by
  simp only [lookup?, add, Std.HashMap.getElem?_insert, beq_iff_eq]

theorem lookup?_intern_of_lookup? (h : index.lookup? t = some n) : (index.intern u).2.lookup? t = some n := by
  cases found : index.lookup? u with
  | some m => rwa [intern_of_lookup? found]
  | none =>
    have other : u ≠ t := fun same => by simp [← same, found] at h
    rw [intern_of_unknown found, lookup?_add, if_neg other, h]

theorem lookup?_internEach_of_lookup? (h : index.lookup? t = some n) :
    (index.internEach types).2.lookup? t = some n := by
  induction types generalizing index with
  | nil => exact h
  | cons u rest ih => exact ih (lookup?_intern_of_lookup? h)

theorem lookup?_intern_self : (index.intern t).2.lookup? t = some (index.intern t).1 := by
  cases found : index.lookup? t with
  | some n => rwa [intern_of_lookup? found]
  | none => rw [intern_of_unknown found, lookup?_add, if_pos rfl]

theorem lookup?_internEach (index : TypeIndex) (types : List Ty) :
    List.Forall₂ (fun t n => (index.internEach types).2.lookup? t = some n) types (index.internEach types).1 := by
  induction types generalizing index with
  | nil => exact .nil
  | cons t rest ih =>
    have kept : ((index.intern t).2.internEach rest).2.lookup? t = some (index.intern t).1 :=
      lookup?_internEach_of_lookup? lookup?_intern_self
    exact .cons kept (ih _)

structure Exact (index : TypeIndex) : Prop where
  distinct : index.types.toList.Nodup
  small : index.types.size ≤ UInt32.size
  inverse : ∀ t n, index.lookup? t = some n ↔ index.get? n = some t

namespace Exact

theorem lookup?_isSome (h : index.Exact) : (index.lookup? t).isSome ↔ t ∈ index.types := by
  refine ⟨fun found => ?_, fun mem => ?_⟩
  · obtain ⟨n, found⟩ := Option.isSome_iff_exists.1 found
    exact Array.mem_of_getElem? ((h.inverse t n).1 found)
  · obtain ⟨i, inside, rfl⟩ := Array.mem_iff_getElem.1 mem
    have number : (UInt32.ofNat i).toNat = i := UInt32.toNat_ofNat_of_lt (Nat.lt_of_lt_of_le inside h.small)
    rw [(h.inverse _ (.ofNat i)).2 (by rw [get?, number, Array.getElem?_eq_getElem inside])]
    rfl

theorem lookup?_eq_none (h : index.Exact) : index.lookup? t = none ↔ t ∉ index.types := by
  rw [← h.lookup?_isSome, Option.not_isSome_iff_eq_none]

theorem add (h : index.Exact) (unknown : index.lookup? t = none) (room : index.types.size < UInt32.size) :
    (index.add t).Exact := by
  have new := h.lookup?_eq_none.1 unknown
  have next : index.next.toNat = index.types.size := UInt32.toNat_ofNat_of_lt room
  refine ⟨?_, ?_, fun u n => ?_⟩
  · rw [TypeIndex.add, Array.toList_push, ← List.concat_eq_append]
    exact h.distinct.concat (mt Array.mem_toList_iff.1 new)
  · rw [TypeIndex.add, Array.size_push]
    exact room
  · have last : index.next = n ↔ n.toNat = index.types.size := by rw [← next, eq_comm, UInt32.toNat_inj]
    rw [lookup?_add, get?, TypeIndex.add, Array.getElem?_push]
    by_cases same : t = u
    · -- The new type has the new number, and no other number stands for it.
      have old : index.types[n.toNat]? ≠ some u := fun at_n => new (same ▸ Array.mem_of_getElem? at_n)
      rw [if_pos same, Option.some_inj, last]
      split
      next => simp [*]
      next other => simp [other, old]
    · -- The others keep theirs, none of which is the new one.
      rw [if_neg same, h.inverse, get?]
      split
      next at_end => simp [at_end, same]
      next => rfl

theorem intern (h : index.Exact) (room : t ∉ index.types → index.types.size < UInt32.size) :
    (index.intern t).2.Exact := by
  cases found : index.lookup? t with
  | some n => rwa [intern_of_lookup? found]
  | none =>
    rw [intern_of_unknown found]
    exact h.add found (room (h.lookup?_eq_none.1 found))

end Exact

theorem types_intern (h : index.Exact) (same : index.types = table.types) :
    (index.intern t).2.types = (table.intern t).2.types := by
  cases found : index.lookup? t with
  | some n =>
    have known : t ∈ table.types := same ▸ h.lookup?_isSome.1 (by rw [found]; rfl)
    rw [intern_of_lookup? found, TypeTable.intern_of_mem known, same]
  | none =>
    have unknown : table.lookup? t = none := TypeTable.lookup?_eq_none.2 (same ▸ h.lookup?_eq_none.1 found)
    rw [intern_of_unknown found, TypeTable.intern, unknown, add, same]

theorem internEach_exact (few : all.length < UInt32.size) (h : index.Exact) (same : index.types = table.types)
    (known : ∀ t ∈ index.types, t ∈ all) (given : types ⊆ all) :
    (index.internEach types).2.Exact ∧ (index.internEach types).2.types = (table.internAll types).types := by
  induction types generalizing index table with
  | nil => exact ⟨h, same⟩
  | cons t rest ih =>
    rw [List.cons_subset] at given
    have room (new : t ∉ index.types) : index.types.size < UInt32.size := by
      have distinct : (t :: index.types.toList).Nodup := h.distinct.cons (mt Array.mem_toList_iff.1 new)
      have among : t :: index.types.toList ⊆ all :=
        List.cons_subset.2 ⟨given.1, fun u mem => known u (Array.mem_toList_iff.1 mem)⟩
      have fits := (List.subperm_of_subset distinct among).length_le
      rw [List.length_cons, Array.length_toList] at fits
      exact Nat.lt_of_succ_lt (Nat.lt_of_le_of_lt fits few)
    have next := types_intern (t := t) h same
    have known (u : Ty) (mem : u ∈ (index.intern t).2.types) : u ∈ all := by
      rw [next, TypeTable.mem_intern, ← same] at mem
      exact mem.elim (known u) fun last => last ▸ given.1
    exact ih (h.intern room) next known given.2

theorem exact_empty : Exact {} := by
  refine ⟨List.nodup_nil, Nat.zero_le _, fun t n => ?_⟩
  simp [lookup?, get?]

theorem exact_new : new.Exact ∧ new.types = TypeTable.new.types := by
  have built : TypeTable.new = ({} : TypeTable).internAll atoms := rfl
  have few : atoms.length < UInt32.size := by decide
  rw [new, built]
  exact internEach_exact few exact_empty rfl (fun t mem => absurd mem (Array.not_mem_empty t)) (List.Subset.refl atoms)

theorem get?_eq_get (same : index.types = table.types) {id : TypeId} (inside : id.index < table.size)
    (number : n.toNat = id.index) : index.get? n = some (table.get id) := by
  have inside : id.index < table.types.size := inside
  rw [get?, number, same, TypeTable.get, Array.getElem?_eq_getElem inside]
  rfl

theorem Exact.lookup?_eq (h : index.Exact) (same : index.types = table.types) :
    (index.lookup? t).map UInt32.toNat = (table.lookup? t).map TypeId.index := by
  cases found : table.lookup? t with
  | none =>
    rw [h.lookup?_eq_none.2 (same ▸ TypeTable.lookup?_eq_none.1 found)]
    rfl
  | some id =>
    obtain ⟨inside, rfl⟩ := TypeTable.get_of_lookup? found
    have listed : id.index < index.types.size := Nat.lt_of_lt_of_eq inside (congrArg Array.size same.symm)
    have small : id.index < UInt32.size := Nat.lt_of_lt_of_le listed h.small
    have number : (UInt32.ofNat id.index).toNat = id.index := UInt32.toNat_ofNat_of_lt small
    rw [(h.inverse _ _).2 (get?_eq_get same inside number), Option.map_some, number]
    rfl

/-- After any calls on a new table, of fewer types than there are numbers, no type is listed twice, exactly the
atoms and the types of the calls have numbers, list and index are inverse to each other, and known types are not
added again. The numbers that were given, those of the atoms among them, still stand for their types, and differ
if these do. They are the numbers that a table without index gives. -/
theorem internEach_new_exact (few : (atoms ++ types).dedup.length < UInt32.size) :
    let numbers := (new.internEach types).1
    let index := (new.internEach types).2
    let table := TypeTable.new.internAll types
    index.types.toList.Nodup ∧ (∀ t, (index.lookup? t).isSome ↔ t ∈ atoms ++ types) ∧
    (∀ t n, index.lookup? t = some n → index.get? n = some t ∧ index.intern t = (n, index)) ∧
    List.Forall₂ (fun t n => index.get? n = some t ∧ index.lookup? t = some n) types numbers ∧
    (∀ t n u m, (t, n) ∈ types.zip numbers → (u, m) ∈ types.zip numbers → (n = m ↔ t = u)) ∧
    (∀ b, index.get? (primitive b) = some (.primitive b)) ∧ index.get? null = some .null ∧
    index.types = table.types ∧ ∀ t, (index.lookup? t).map UInt32.toNat = (table.lookup? t).map TypeId.index := by
  have seen (t : Ty) : t ∈ new.types → t ∈ (atoms ++ types).dedup := by
    rw [exact_new.2, ← Array.mem_toList_iff, types_new, List.mem_dedup, List.mem_append]
    exact .inl
  have given : types ⊆ (atoms ++ types).dedup := fun t mem => List.mem_dedup.2 (List.mem_append_right _ mem)
  obtain ⟨inv, same⟩ := internEach_exact few exact_new.1 exact_new.2 seen given
  have calls := lookup?_internEach new types
  have standing {n : UInt32} {t : Ty} (first : n.toNat < TypeTable.new.size ∧ TypeTable.new.get ⟨n.toNat⟩ = t) :
      (new.internEach types).2.get? n = some t := by
    have kept := @TypeTable.get_internAll_of_lt _ ⟨n.toNat⟩ types first.1
    rw [get?_eq_get same kept.1 rfl, kept.2, first.2]
  refine ⟨inv.distinct, fun t => ?_, fun t n found => ⟨(inv.inverse t n).1 found, intern_of_lookup? found⟩,
    calls.imp fun t n found => ⟨(inv.inverse t n).1 found, found⟩, fun t n u m first second => ?_,
    fun b => standing (get_primitive b), standing get_null, same, fun t => inv.lookup?_eq same⟩
  · rw [inv.lookup?_isSome, same, TypeTable.mem_internAll, ← Array.mem_toList_iff, types_new, List.mem_append]
  · have first := List.forall₂_zip calls first
    have second := List.forall₂_zip calls second
    refine ⟨fun equal => ?_, fun equal => ?_⟩
    · exact Option.some.inj (((inv.inverse t n).1 first).symm.trans (equal ▸ (inv.inverse u m).1 second))
    · exact Option.some.inj (first.symm.trans (equal ▸ second))

omit [Hashable Ty] in
theorem internEach_new_exact_colliding :
    letI : Hashable Ty := ⟨fun _ => 0⟩
    letI types : List Ty := [.declared ⟨3⟩, .array (.declared ⟨3⟩), .declared ⟨3⟩]
    (atoms ++ types).dedup.length < UInt32.size ∧ (new.internEach types).2.types.toList.Nodup ∧
    List.Forall₂ (fun t n => (new.internEach types).2.get? n = some t ∧ (new.internEach types).2.lookup? t = some n)
      types (new.internEach types).1 := by
  have few : (atoms ++ ([.declared ⟨3⟩, .array (.declared ⟨3⟩), .declared ⟨3⟩] : List Ty)).dedup.length < UInt32.size := by
    decide
  have run := @internEach_new_exact ⟨fun _ => 0⟩ _ few
  exact ⟨few, run.1, run.2.2.2.1⟩

end TypeIndex

end TeamRoles
