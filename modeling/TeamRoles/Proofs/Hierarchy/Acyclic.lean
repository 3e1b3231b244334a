import Mathlib.Data.List.Chain
import TeamRoles.Proofs.Session.Reachable

/-!
The stored hierarchy has no cycles beside the root. An edge that would close a cycle is replaced by one
to the root, which is not checked again. From the end of any other edge there is no way back when the
edge is stored, and what lies above that end never changes.
-/

namespace TeamRoles.Env

/-- The type has the name, or the provider knows it under the name. -/
def Known (e : Env) (name : String) (b : BindingId) : Prop :=
  e.Named name b ∨
    ∃ d, e.provider.find name = .ok (some d) ∧ d.name ≠ name ∧ (d.name, b) ∈ e.byName

/-- A type that has the name of the root, or that the name in its descriptor has been bound to. -/
def IsRoot (e : Env) (b : BindingId) : Prop :=
  e.Named e.options.wellKnown.object b ∨
    ∃ d, e.provider.find e.options.wellKnown.object = .ok (some d) ∧ (d.name, b) ∈ e.byName

def Low (e : Env) (b c : BindingId) : Prop := e.Above b c ∧ ¬e.IsRoot b

def Cycle (e : Env) (b : BindingId) (path : List BindingId) : Prop :=
  List.IsChain e.Above (b :: path ++ [b])

structure Coherent (e : Env) : Prop where
  known : ∀ name b, (name, b) ∈ e.byName → e.Known name b
  problems : ∀ name b, e.StandsFor name b → e.Named name b
  settled : ∀ b, (e.binding b).isProblem = true → (e.binding b).supertypes = .resolved {}
  acyclic : ∀ b, ¬Relation.TransGen e.Low b b

section Names

variable {e e' : Env} {b c : BindingId} {name : String} {slot : Slot Supertypes}

theorem Known.stable (h : e.Extends e') (known : e.Known name b) : e'.Known name b := by
  rcases known with named | ⟨d, given, other, bound⟩
  · exact .inl (named.stable h)
  · exact .inr ⟨d, by rw [h.provider, given], other, h.byName _ bound⟩

theorem IsRoot.stable (h : e.Extends e') (root : e.IsRoot b) : e'.IsRoot b := by
  rw [IsRoot, h.options, h.provider]
  rcases root with named | ⟨d, given, bound⟩
  · exact .inl (named.stable h)
  · exact .inr ⟨d, given, h.byName _ bound⟩

theorem named_setSupertypes_iff : (e.setSupertypes b slot).Named name c ↔ e.Named name c := by
  rw [Named, Named, name_setSupertypes]
  exact and_congr_left fun _ => by rw [setSupertypes, size_update]

theorem known_setSupertypes_iff : (e.setSupertypes b slot).Known name c ↔ e.Known name c :=
  or_congr_left named_setSupertypes_iff

theorem isRoot_setSupertypes_iff : (e.setSupertypes b slot).IsRoot c ↔ e.IsRoot c :=
  or_congr_left named_setSupertypes_iff

theorem Coherent.isRoot_of_denotes (h : e.Coherent)
    (denotes : e.Denotes e.options.wellKnown.object b) : e.IsRoot b := by
  rcases denotes with bound | ⟨d, given, bound⟩
  · rcases h.known _ _ bound with named | ⟨d, given, -, bound⟩
    · exact .inl named
    · exact .inr ⟨d, given, bound⟩
  · exact .inr ⟨d, given, bound⟩

theorem MayBind.known (h : e.Coherent) (may : e.MayBind name b) : e.Known name b := by
  cases may with
  | named named => exact .inl named
  | problem stands => exact .inl (h.problems name b stands)
  | otherName d given other bound => exact .inr ⟨d, given, other, bound⟩

end Names

section Paths

variable {α : Type} {r r' : α → α → Prop} {a b : α}

theorem eq_of_path_of_no_edge (h : ∀ c, ¬r a c) (path : Relation.ReflTransGen r a b) : b = a := by
  rcases path.cases_head with same | ⟨c, edge, -⟩
  · exact same.symm
  · exact absurd edge (h c)

theorem path_or_leaves {x y : α}
    (edges : ∀ x y, r' x y → r x y ∨ x = b ∧ ¬Relation.ReflTransGen r y b)
    (path : Relation.TransGen r' x y) :
    Relation.TransGen r x y ∨ Relation.ReflTransGen r x b ∧
      ∃ z, ¬Relation.ReflTransGen r z b ∧ Relation.ReflTransGen r z y := by
  induction path with
  | single edge =>
    rcases edges _ _ edge with old | ⟨rfl, noReturn⟩
    · exact .inl (.single old)
    · exact .inr ⟨.refl, _, noReturn, .refl⟩
  | tail _ edge ih =>
    rcases edges _ _ edge with old | ⟨rfl, noReturn⟩
    -- A way that has left `b` by a new edge does not come back to leave it again.
    · rcases ih with path | ⟨toB, z, noReturn, path⟩
      · exact .inl (path.tail old)
      · exact .inr ⟨toB, z, noReturn, path.tail old⟩
    · rcases ih with path | ⟨-, z, noReturn', path⟩
      · exact .inr ⟨path.to_reflTransGen, _, noReturn, .refl⟩
      · exact absurd path noReturn'

theorem acyclic_of_edges (edges : ∀ x y, r' x y → r x y ∨ x = b ∧ ¬Relation.ReflTransGen r y b)
    (acyclic : ∀ a, ¬Relation.TransGen r a a) (a : α) : ¬Relation.TransGen r' a a := by
  intro cycle
  rcases path_or_leaves edges cycle with cycle | ⟨toB, z, noReturn, path⟩
  · exact acyclic a cycle
  · exact noReturn (path.trans toB)

theorem transGen_of_isChain {p : α → Prop} {l : List α} (chain : List.IsChain r (a :: l ++ [b]))
    (h : ∀ x ∈ a :: l, p x) : Relation.TransGen (fun x y => r x y ∧ p x) a b := by
  induction l generalizing a with
  | nil => exact .single ⟨by simpa using chain, h a List.mem_cons_self⟩
  | cons c l ih =>
    obtain ⟨edge, rest⟩ := List.isChain_cons_cons.1 chain
    obtain ⟨ha, hl⟩ := List.forall_mem_cons.1 h
    exact .head ⟨edge, ha⟩ (ih rest hl)

theorem exists_edge_of_isChain {x : α} {l : List α} (chain : List.IsChain r (a :: l ++ [b]))
    (h : x ∈ a :: l) : ∃ y, r x y := by
  induction l generalizing a with
  | nil =>
    cases List.mem_singleton.1 h
    exact ⟨b, by simpa using chain⟩
  | cons c l ih =>
    obtain ⟨edge, rest⟩ := List.isChain_cons_cons.1 chain
    rcases List.mem_cons.1 h with rfl | h
    · exact ⟨c, edge⟩
    · exact ih rest h

end Paths

namespace Coherent

variable {e e' : Env} {b c : BindingId} {slot : Slot Supertypes}

theorem isRoot_of_standsFor (h : e.Coherent)
    (stands : e.StandsFor e.options.wellKnown.object b) : e.IsRoot b :=
  .inl (h.problems _ _ stands)

theorem acyclic_of_above (h : e.Coherent) (grown : e.Extends e')
    (above : ∀ x y, e'.Above x y → e.Above x y) (a : BindingId) :
    ¬Relation.TransGen e'.Low a a := by
  have old : e'.Low ≤ e.Low := by
    rintro x y ⟨edge, low⟩
    exact ⟨above x y edge, fun root => low (root.stable grown)⟩
  exact fun cycle => h.acyclic a (Relation.TransGen.mono old a a cycle)

theorem quiet (h : e.Coherent) (same : e.SameHierarchy e') : e'.Coherent where
  known name b bound := by
    rw [same.byName] at bound
    exact (h.known name b bound).stable same.extends
  problems name b stands := by
    rw [StandsFor, same.problems] at stands
    exact (h.problems name b stands).stable same.extends
  settled b problem := by
    rw [Binding.isProblem, (same.binding b).origin] at problem
    rw [(same.binding b).supertypes, h.settled b problem]
  acyclic := by
    refine h.acyclic_of_above same.extends ?_
    rintro x y ⟨s, stored, hy⟩
    exact ⟨s, by rw [← (same.binding x).supertypes, stored], hy⟩

theorem add {x : Binding} (h : e.Coherent)
    (settled : x.isProblem = true → x.supertypes = .resolved {})
    (bare : ∀ s, x.supertypes = .resolved s → s = {}) : (e.addBinding x).Coherent where
  known name b bound := (h.known name b bound).stable extends_addBinding
  problems name b stands := (h.problems name b stands).stable extends_addBinding
  settled b problem := by
    by_cases new : b = e.nextBinding
    · subst new
      rw [binding_addBinding_self] at problem ⊢
      exact settled problem
    · rw [binding_addBinding_of_ne new] at problem ⊢
      exact h.settled b problem
  acyclic := by
    refine h.acyclic_of_above extends_addBinding ?_
    rintro a y ⟨s, stored, hy⟩
    by_cases new : a = e.nextBinding
    · subst new
      rw [binding_addBinding_self] at stored
      rw [bare s stored] at hy
      cases hy
    · rw [binding_addBinding_of_ne new] at stored
      exact ⟨s, stored, hy⟩

theorem addProblem {x : Binding} {reason : ProblemReason} (h : e.Coherent)
    (settled : x.supertypes = .resolved {}) : (e.addProblem x x.name reason).Coherent := by
  have added : (e.addBinding x).Coherent := h.add (fun _ => settled) (by simp [settled])
  refine ⟨added.known, ?_, added.settled, added.acyclic⟩
  rintro name b ⟨reason', entry⟩
  rcases List.mem_cons.1 entry with new | old
  · cases new
    exact named_addBinding
  · exact added.problems name b ⟨reason', old⟩

theorem bindName {name : String} (h : e.Coherent) (may : e.MayBind name b) :
    (e.bindName name b).Coherent where
  known other c bound := by
    have grown : e.Extends (e.bindName name b) := (Evolves.bind may).extends
    rcases List.mem_cons.1 bound with new | old
    · cases new
      exact (may.known h).stable grown
    · exact (h.known other c old).stable grown
  problems name b stands := h.problems name b stands
  settled := h.settled
  acyclic := h.acyclic_of_above (Evolves.bind may).extends fun _ _ edge => edge

theorem setSupertypes (h : e.Coherent) (proper : (e.binding b).isProblem = false)
    (acyclic : ∀ a, ¬Relation.TransGen (e.setSupertypes b slot).Low a a) :
    (e.setSupertypes b slot).Coherent where
  known name c bound := known_setSupertypes_iff.2 (h.known name c bound)
  problems name c stands := named_setSupertypes_iff.2 (h.problems name c stands)
  settled c problem := by
    rw [Binding.isProblem, origin_setSupertypes] at problem
    have other : c ≠ b := by
      rintro rfl
      exact Bool.false_ne_true (proper.symm.trans problem)
    rw [supertypes_setSupertypes_of_ne other]
    exact h.settled c problem
  acyclic := acyclic

theorem isProblem_eq_false (h : e.Coherent) (pending : (e.binding b).supertypes ≠ .resolved {}) :
    (e.binding b).isProblem = false :=
  Bool.eq_false_iff.2 fun problem => pending (h.settled b problem)

theorem begin (h : e.Coherent) (inside : b.index < e.bindings.size)
    (fresh : (e.binding b).supertypes = .unresolved) :
    (e.setSupertypes b .inProgress).Coherent := by
  refine h.setSupertypes (h.isProblem_eq_false (by simp [fresh])) ?_
  refine h.acyclic_of_above ((Extends.refl e).setSupertypes fresh) ?_
  rintro x y ⟨s, stored, hy⟩
  by_cases same : x = b
  · subst same
    rw [supertypes_setSupertypes_self inside] at stored
    cases stored
  · rw [supertypes_setSupertypes_of_ne same] at stored
    exact ⟨s, stored, hy⟩

theorem no_way_back (h : e.Coherent) (pending : (e.binding b).supertypes = .inProgress)
    (low : ¬e.IsRoot b) (admits : e.Admits b c) : ¬Relation.ReflTransGen e.Low c b := by
  intro path
  -- No low edge leaves the root, so a way from there to `b` has no steps.
  have not_root (root : e.IsRoot c) : False := by
    cases eq_of_path_of_no_edge (fun _ edge => edge.2 root) path
    exact low root
  cases admits with
  | problem problem =>
    have settled := h.settled c problem
    have top (d : BindingId) : ¬e.Low c d := by
      rintro ⟨⟨s, stored, hd⟩, -⟩
      rw [settled] at stored
      cases stored
      cases hd
    cases eq_of_path_of_no_edge top path
    rw [settled] at pending
    cases pending
  | root denotes => exact not_root (h.isRoot_of_denotes denotes)
  | rootProblem stands => exact not_root (h.isRoot_of_standsFor stands)
  | clear clear =>
    have above : e.Low ≤ e.Above := fun _ _ edge => edge.1
    exact (clear b (Relation.ReflTransGen.mono above c b path)).1 rfl

theorem finish {s : Supertypes} (h : e.Coherent) (inside : b.index < e.bindings.size)
    (pending : (e.binding b).supertypes = .inProgress) (admits : ∀ c ∈ s.bindings, e.Admits b c) :
    (e.setSupertypes b (.resolved s)).Coherent := by
  refine h.setSupertypes (h.isProblem_eq_false (by simp [pending])) ?_
  refine acyclic_of_edges (b := b) ?_ h.acyclic
  rintro x y ⟨⟨s', stored, hy⟩, low⟩
  rw [isRoot_setSupertypes_iff] at low
  by_cases same : x = b
  · subst same
    rw [supertypes_setSupertypes_self inside] at stored
    cases stored
    exact .inr ⟨rfl, h.no_way_back pending low (admits y hy)⟩
  · rw [supertypes_setSupertypes_of_ne same] at stored
    exact .inl ⟨⟨s', stored, hy⟩, low⟩

end Coherent

theorem Evolves.coherent {e e' : Env} (evolves : e.Evolves e') (h : e.Coherent) : e'.Coherent := by
  induction evolves with
  | refl => exact h
  | trans _ _ ih ih' => exact ih' (ih h)
  | quiet same => exact h.quiet same
  | add proper fresh => exact h.add (by simp [proper]) (by simp [fresh])
  | problem _ settled => exact h.addProblem settled
  | bind may => exact h.bindName may
  | @supertypes e e' b s inside fresh evolves admits ih =>
    -- Nothing inside the resolution has touched the slot, so no edge starts at `b` yet.
    have begun := h.begin inside fresh
    have pending : ((e.setSupertypes b .inProgress).binding b).supertypes = .inProgress :=
      supertypes_setSupertypes_self inside
    refine (ih begun).finish ?_ ?_ admits
    · exact Nat.lt_of_lt_of_le inside ((evolves.extends.of_setSupertypes fresh).size)
    · rw [evolves.extends.supertypes b (by simp [pending]), pending]
  | abort inside fresh _ ih => exact ih (h.begin inside fresh)

theorem Coherent.start {provider : Provider} {options : Options} {diagnostics : Diagnostics} :
    Coherent { options, provider, diagnostics } := by
  constructor
  · intro name b bound
    cases bound
  · rintro name b ⟨reason, entry⟩
    cases entry
  · intro b problem
    exact absurd (lt_size_of_isProblem problem) (Nat.not_lt_zero _)
  · intro b cycle
    obtain ⟨c, ⟨⟨s, stored, -⟩, -⟩, -⟩ := Relation.TransGen.head'_iff.1 cycle
    rw [binding_of_size_le (Nat.zero_le _)] at stored
    cases stored

theorem Reachable.coherent {provider : Provider} {options : Options} {e : Env}
    (h : Reachable provider options e) :
    e.Coherent ∧ e.provider = provider ∧ e.options = options := by
  obtain ⟨config, evolves⟩ := h.evolves
  exact ⟨evolves.coherent .start, evolves.extends.provider, evolves.extends.options⟩

theorem Coherent.named_of_denotes {e : Env} {b : BindingId} {name : String} (h : e.Coherent)
    (honest : ∀ d, e.provider.find name = .ok (some d) → d.name = name) (denotes : e.Denotes name b) :
    e.Named name b := by
  have bound : (name, b) ∈ e.byName := by
    rcases denotes with bound | ⟨d, given, bound⟩
    · exact bound
    · exact honest d given ▸ bound
  rcases h.known _ _ bound with named | ⟨d, given, other, -⟩
  · exact named
  · exact absurd (honest d given) other

theorem Coherent.isRoot_iff_named {e : Env} {b : BindingId} (h : e.Coherent)
    (honest : ∀ d, e.provider.find e.options.wellKnown.object = .ok (some d) →
      d.name = e.options.wellKnown.object) :
    e.IsRoot b ↔ e.Named e.options.wellKnown.object b := by
  constructor
  · rintro (named | ⟨d, given, bound⟩)
    · exact named
    · exact h.named_of_denotes honest (.inr ⟨d, given, bound⟩)
  · exact .inl

/-- Every cycle leads through the root, so there is none if nothing lies above the root. Where the
descriptor of the root carries its name, the root is what has that name. -/
theorem cycles_lead_through_root {provider : Provider} {options : Options} {e : Env}
    (h : Reachable provider options e) :
    (∀ b path, e.Cycle b path → ∃ c ∈ b :: path, e.IsRoot c) ∧
    ((∀ c, e.IsRoot c → ∀ d, ¬e.Above c d) → ∀ b path, ¬e.Cycle b path) ∧
    ((∀ d, provider.find options.wellKnown.object = .ok (some d) →
        d.name = options.wellKnown.object) →
      ∀ c, e.IsRoot c ↔ e.Named options.wellKnown.object c) := by
  obtain ⟨coherent, rfl, rfl⟩ := h.coherent
  have through (b : BindingId) (path : List BindingId) (cycle : e.Cycle b path) :
      ∃ c ∈ b :: path, e.IsRoot c := by
    by_contra none
    exact coherent.acyclic b (transGen_of_isChain cycle fun c hc root => none ⟨c, hc, root⟩)
  refine ⟨through, ?_, fun honest c => coherent.isRoot_iff_named honest⟩
  intro top b path cycle
  obtain ⟨c, hc, root⟩ := through b path cycle
  obtain ⟨d, edge⟩ := exists_edge_of_isChain cycle hc
  exact top c root d edge

instance (e : Env) : DecidableRel e.Above := fun b c =>
  decidable_of_iff (∃ s ∈ (e.binding b).supertypes.get?, c ∈ s.bindings) (by
    unfold Above
    cases (e.binding b).supertypes <;> simp [Slot.get?])

instance (e : Env) (b : BindingId) (path : List BindingId) : Decidable (e.Cycle b path) :=
  inferInstanceAs (Decidable (List.IsChain e.Above (b :: path ++ [b])))

def looped : Provider where
  find
    | "core.Object" => .ok (some { name := "core.Object", superclass := some "q.A" })
    | "q.A" => .ok (some { name := "q.A", superclass := some "core.Object" })
    | _ => .ok none
  packageExists _ := false

theorem cycles_lead_through_root_looped :
    ∃ e, Reachable looped {} e ∧ e.Cycle ⟨0⟩ [⟨1⟩] ∧ ∃ c ∈ [⟨0⟩, ⟨1⟩], e.Named "core.Object" c := by
  have start : Reachable looped {} _ := .new rfl
  have reachable := (start.step (.findType "q.A")).step (.ask (.supertypes ⟨0⟩))
  refine ⟨_, reachable, by decide +kernel, ?_⟩
  obtain ⟨through, -, named⟩ := cycles_lead_through_root reachable
  obtain ⟨c, hc, root⟩ := through ⟨0⟩ [⟨1⟩] (by decide +kernel)
  refine ⟨c, hc, (named ?_ c).1 root⟩
  rintro d ⟨⟩
  rfl

/-- A class that the provider gives for the root under a name of its own, and that extends itself. -/
def aliased : Provider where
  find
    | "core.Object" => .ok (some { name := "x.Y", superclass := some "x.Y" })
    | _ => .ok none
  packageExists _ := false

/-- A cycle beside the type that has the name of the root, which has no supertypes. -/
theorem exists_cycle_beside_root_name :
    ∃ e, Reachable aliased {} e ∧ e.Cycle ⟨0⟩ [] ∧ (e.binding ⟨0⟩).name ≠ "core.Object" ∧
      e.lookup? "core.Object" = some ⟨1⟩ ∧ (e.binding ⟨1⟩).name = "core.Object" ∧
      (e.binding ⟨1⟩).supertypes.get?.map Supertypes.bindings = some [] := by
  have start : Reachable aliased {} _ := .new rfl
  have loaded := (start.step (.findType "core.Object")).step (.ask (.supertypes ⟨0⟩))
  have declared := loaded.step (.addUnits [{
    fileName := "Object", package := "core", types := [{ name := "Object" }] }])
  refine ⟨_, declared.step (.ask (.supertypes ⟨1⟩)), ?_⟩
  decide +kernel

end TeamRoles.Env
