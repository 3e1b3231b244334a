import Mathlib.Data.List.Nodup
import TeamRoles.Types.Table

/-!
A table of numbered types. Numbers that were given stay given, and where a type is listed with all its parts
nothing is listed twice.
-/

namespace TeamRoles

def Ty.parts : Ty → List Ty
  | .parameterized _ args enclosing => args ++ enclosing.toList
  | .raw _ enclosing => enclosing.toList
  | .wildcard _ bound => bound.toList
  | .array component => [component]
  | .anchored role _ => [role]
  | _ => []

namespace TypeTable

variable {table : TypeTable} {t u : Ty} {id : TypeId}

/-- No type is listed twice, and the parts of a listed type are listed. -/
structure Coherent (table : TypeTable) : Prop where
  distinct : table.types.toList.Nodup
  closed : ∀ t ∈ table.types, ∀ p ∈ t.parts, p ∈ table.types

theorem get_of_lookup? (h : table.lookup? t = some id) : id.index < table.size ∧ table.get id = t := by
  obtain ⟨i, found, rfl⟩ := Option.map_eq_some_iff.1 h
  rw [Array.idxOf?_eq_map_finIdxOf?_val, Option.map_eq_some_iff] at found
  obtain ⟨i, found, rfl⟩ := found
  have at_i := (Array.finIdxOf?_eq_some_iff.1 found).1
  exact ⟨i.isLt, by simpa [get] using at_i⟩

theorem lookup?_eq_none : table.lookup? t = none ↔ t ∉ table.types := by
  simp [lookup?]

theorem mem_of_get (inside : id.index < table.size) : table.get id ∈ table.types := by
  have inside : id.index < table.types.size := inside
  simp [get, inside]

theorem intern_of_mem (h : t ∈ table.types) : (table.intern t).2 = table := by
  unfold intern
  cases found : table.lookup? t with
  | some id => rfl
  | none => exact absurd h (lookup?_eq_none.1 found)

theorem get_intern : (table.intern t).2.get (table.intern t).1 = t := by
  unfold intern
  cases found : table.lookup? t with
  | some id => exact (get_of_lookup? found).2
  | none => simp [get, size]

theorem mem_intern : u ∈ (table.intern t).2.types ↔ u ∈ table.types ∨ u = t := by
  unfold intern
  cases found : table.lookup? t with
  | some id =>
    obtain ⟨inside, rfl⟩ := get_of_lookup? found
    exact ⟨.inl, fun h => h.elim (fun h => h) fun h => h ▸ mem_of_get inside⟩
  | none => exact Array.mem_push

theorem get_intern_of_lt (inside : id.index < table.size) :
    id.index < (table.intern t).2.size ∧ (table.intern t).2.get id = table.get id := by
  unfold intern
  cases found : table.lookup? t with
  | some _ => exact ⟨inside, rfl⟩
  | none =>
    have inside : id.index < table.types.size := inside
    simp only [get, size, Array.size_push, Array.getElem?_push, if_neg (Nat.ne_of_lt inside)]
    exact ⟨Nat.lt_succ_of_lt inside, trivial⟩

theorem intern_intern : (table.intern t).2.intern t = table.intern t := by
  cases found : table.lookup? t with
  | some id => simp only [intern, found]
  | none =>
    have new := lookup?_eq_none.1 found
    have pushed : (table.intern t).2 = ⟨table.types.push t⟩ := by rw [intern, found]
    cases found' : (table.intern t).2.lookup? t with
    | none => exact absurd (mem_intern.2 (.inr rfl)) (lookup?_eq_none.1 found')
    | some other =>
      -- A number before the last one would be that of a listed type.
      have last : other.index = table.size := by
        obtain ⟨inside, same⟩ := get_of_lookup? found'
        rw [pushed, size, Array.size_push] at inside
        by_contra earlier
        have inside : other.index < table.size := by simp only [size] at earlier ⊢; omega
        exact new (same ▸ (get_intern_of_lt inside).2 ▸ mem_of_get inside)
      rw [intern, found', intern, found, ← last]

theorem Coherent.intern_get (h : table.Coherent) (inside : id.index < table.size) :
    table.intern (table.get id) = (id, table) := by
  unfold intern
  cases found : table.lookup? (table.get id) with
  | none => exact absurd (mem_of_get inside) (lookup?_eq_none.1 found)
  | some other =>
    obtain ⟨inside', same⟩ := get_of_lookup? found
    have inside : id.index < table.types.size := inside
    have inside' : other.index < table.types.size := inside'
    simp only [get, Array.getElem?_eq_getElem, inside, inside', Option.getD_some] at same
    have same : other.index = id.index := h.distinct.getElem_inj_iff.1 same
    cases id; cases other; cases same; rfl

theorem Coherent.intern (h : table.Coherent) (parts : ∀ p ∈ t.parts, p ∈ table.types) :
    (table.intern t).2.Coherent := by
  refine ⟨?_, fun u hu p hp => mem_intern.2 (.inl ?_)⟩
  · unfold TypeTable.intern
    cases found : table.lookup? t with
    | some id => exact h.distinct
    | none =>
      have new : t ∉ table.types.toList := mt Array.mem_toList_iff.1 (lookup?_eq_none.1 found)
      rw [Array.toList_push, List.nodup_append]
      refine ⟨h.distinct, List.nodup_singleton t, fun u hu w hw same => new ?_⟩
      rwa [← List.mem_singleton.1 hw, ← same]
  · obtain hu | rfl := mem_intern.1 hu
    · exact h.closed u hu p hp
    · exact parts p hp

def internAll (table : TypeTable) (types : List Ty) : TypeTable :=
  types.foldl (fun table t => (table.intern t).2) table

theorem Coherent.internAll {types : List Ty} (h : table.Coherent) (atoms : ∀ t ∈ types, t.parts = []) :
    (table.internAll types).Coherent := by
  induction types generalizing table with
  | nil => exact h
  | cons t rest ih =>
    rw [List.forall_mem_cons] at atoms
    exact ih (h.intern (by simp [atoms.1])) atoms.2

theorem coherent_new : new.Coherent := by
  have empty : Coherent {} := ⟨List.nodup_nil, fun t ht => absurd ht (Array.not_mem_empty t)⟩
  exact empty.internAll (by simp [primitives, Ty.parts])

theorem internAll_of_mem {types : List Ty} (h : ∀ t ∈ types, t ∈ table.types) : table.internAll types = table := by
  induction types with
  | nil => rfl
  | cons t rest ih =>
    rw [List.forall_mem_cons] at h
    rw [internAll, List.foldl_cons, intern_of_mem h.1]
    exact ih h.2

theorem get_internAll_of_lt (types : List Ty) (inside : id.index < table.size) :
    id.index < (table.internAll types).size ∧ (table.internAll types).get id = table.get id := by
  induction types generalizing table with
  | nil => exact ⟨inside, rfl⟩
  | cons t rest ih =>
    have kept := get_intern_of_lt (t := t) inside
    exact ⟨(ih kept.1).1, (ih kept.1).2.trans kept.2⟩

theorem mem_internAll {types : List Ty} : u ∈ (table.internAll types).types ↔ u ∈ table.types ∨ u ∈ types := by
  induction types generalizing table with
  | nil => simp [internAll]
  | cons t rest ih =>
    have step : table.internAll (t :: rest) = (table.intern t).2.internAll rest := rfl
    rw [step, ih, mem_intern, List.mem_cons, or_assoc]

end TypeTable

end TeamRoles
