import TeamRoles.Precedence.Basic
import TeamRoles.Proofs.Precedence.Sort

/-!
Tables of successors: what is added to a table leads to what it is added for, and to nothing but nodes.
-/

namespace TeamRoles.Precedence

theorem mem_pairs {α : Type} {l : List α} {a b : α} : (a, b) ∈ pairs l ↔ [a, b].Sublist l := by
  induction l with
  | nil => simp [pairs]
  | cons c l ih =>
    rw [pairs, List.mem_append, ih, List.mem_map]
    constructor
    · rintro (⟨d, hd, same⟩ | sub)
      · cases same
        exact (List.singleton_sublist.2 hd).cons_cons a
      · exact sub.cons c
    · intro sub
      cases sub with
      | cons _ sub => exact .inr sub
      | cons_cons _ sub => exact .inl ⟨b, List.singleton_sublist.1 sub, rfl⟩

variable {α : Type} [DecidableEq α]

theorem addAll_cons {set more : List α} {a : α} :
    addAll set (a :: more) = addAll (if a ∈ set then set else set ++ [a]) more := rfl

theorem mem_addAll {set more : List α} {a : α} : a ∈ addAll set more ↔ a ∈ set ∨ a ∈ more := by
  induction more generalizing set with
  | nil => simp [addAll]
  | cons b more ih =>
    rw [addAll_cons, ih]
    grind

theorem addAll_append {set more rest : List α} :
    addAll set (more ++ rest) = addAll (addAll set more) rest := List.foldl_append

theorem nodup_addAll {set more : List α} (nodup : set.Nodup) : (addAll set more).Nodup := by
  induction more generalizing set with
  | nil => exact nodup
  | cons a more ih =>
    rw [addAll_cons]
    apply ih
    split
    · exact nodup
    · next new => exact List.nodup_append.2 ⟨nodup, by simp, by grind⟩

namespace Successors

variable {s : Successors α} {nodes : List α} {a b x y : α}

theorem mem_keys : x ∈ s.map Prod.fst ↔ (s.lookup x).isSome := by
  rw [← not_iff_not, Option.not_isSome_iff_eq_none, List.lookup_eq_none_iff]
  grind

theorem mem_of_insert :
    y ∈ (s.insert a b).of x ↔ y ∈ s.of x ∨ x = a ∧ y = b ∧ x ∈ s.map Prod.fst := by
  have found : (s.insert a b).lookup x =
      (s.lookup x).map fun next => if x = a then addAll next [b] else next :=
    lookup_map (f := fun x next => if x = a then addAll next [b] else next)
  rw [mem_keys, of, found, of]
  cases s.lookup x with
  | none => simp
  | some next => by_cases same : x = a <;> simp [same, mem_addAll]

/-- The table has the nodes for its keys and leads to nothing else. -/
structure Over (s : Successors α) (nodes : List α) : Prop where
  keys : s.map Prod.fst = nodes
  closed : ∀ a, s.of a ⊆ nodes

@[simp]
theorem of_ofNodes : (ofNodes nodes).of a = [] := by
  rw [of, ofNodes, lookup_map_node (f := fun _ => [])]
  split <;> rfl

theorem over_ofNodes (nodes : List α) : (ofNodes nodes).Over nodes where
  keys := by simp [ofNodes, Function.comp_def]
  closed := by simp

theorem Over.insert (h : s.Over nodes) (isNode : b ∈ nodes) : (s.insert a b).Over nodes := by
  refine ⟨by simpa [Successors.insert, Function.comp_def] using h.keys, fun x y behind => ?_⟩
  rcases mem_of_insert.1 behind with old | ⟨-, rfl, -⟩
  · exact h.closed x old
  · exact isNode

theorem Over.relate (h : s.Over nodes) : (s.relate a b).Over nodes := by
  unfold Successors.relate
  split
  · next isKey =>
    refine h.insert ?_
    rw [← h.keys]
    simpa using isKey
  · exact h

theorem mem_of_relate (h : s.Over nodes) :
    y ∈ (s.relate a b).of x ↔ y ∈ s.of x ∨ (a ∈ nodes ∧ b ∈ nodes) ∧ a = x ∧ b = y := by
  have isKey : s.any (·.1 = b) = true ↔ b ∈ nodes := by
    rw [← h.keys]
    simp
  unfold Successors.relate
  split
  · next known =>
    rw [mem_of_insert, h.keys]
    grind
  · next unknown => grind

end Successors

end TeamRoles.Precedence
