import TeamRoles.Proofs.Session.Pass
import TeamRoles.Proofs.Session.Reachable

/-!
Which prefix of a qualified reference its type is found by. The prefixes are asked for one after the
other, the shortest first, and the first that names a type is taken.
-/

namespace TeamRoles

namespace Name

def ofSegments (segments : List String) : String := segments.foldl qualify ""

theorem ofSegments_concat {segments : List String} {last : String} :
    ofSegments (segments ++ [last]) = qualify (ofSegments segments) last :=
  List.foldl_concat ..

theorem foldl_qualify {rest : List String} {name : String} (given : name ≠ "") :
    rest.foldl qualify name = ".".intercalate (name :: rest) := by
  induction rest generalizing name with
  | nil => exact String.intercalate_singleton.symm
  | cons second rest ih =>
    have joined : qualify name second = name ++ "." ++ second := by simp [qualify, given]
    calc
      (second :: rest).foldl qualify name = rest.foldl qualify (name ++ "." ++ second) := by
        rw [List.foldl_cons, joined]
      _ = ".".intercalate ((name ++ "." ++ second) :: rest) := ih (by simp [given])
      _ = ".".intercalate (name :: second :: rest) := by
        rw [String.intercalate_cons_append, String.intercalate_cons_cons]

theorem ofSegments_eq_intercalate {segments : List String} (given : "" ∉ segments) :
    ofSegments segments = ".".intercalate segments := by
  cases segments with
  | nil => rfl
  | cons first rest => exact foldl_qualify fun empty => given (empty ▸ List.mem_cons_self)

end Name

namespace Resolve

variable {ℓ : Nat} {o : Oracle} {segments : List String} {e d e' : Env} {k : Nat}

def probe (segments : List String) (k : Nat) : Resolve (Option BindingId) :=
  findProper (Name.ofSegments (segments.take k))

/-- The prefixes of two or more but fewer than `k` segments name nothing when they are asked for in turn. -/
inductive Passes (o : Oracle) (segments : List String) (e : Env) : Nat → Env → Prop where
  | start : Passes o segments e 2 e
  | next {k : Nat} {d e' : Env} (before : Passes o segments e k d) (inside : k ≤ segments.length)
      (nothing : probe segments k o d = (.ok none, e')) : Passes o segments e (k + 1) e'

theorem findProper_triple {name : String} : Triple ℓ (fun _ => True) (findProper name)
    fun found e => ∀ b ∈ found, e.Denotes name b ∧ (e.binding b).isProblem = false := by
  refine .bind (Triple.ask (.findType name) (by simp)) fun found => .get_bind fun e => .pure ?_
  rintro _ ⟨rfl, denotes⟩ b hb
  obtain ⟨found, proper⟩ := Option.mem_filter_iff.1 hb
  exact ⟨denotes b found, by simpa using proper⟩

def headBehind (segments : List String) (k : Nat) : Resolve (Option (BindingId × Nat)) :=
  findQualifiedHead (Name.ofSegments (segments.take k)) k (segments.drop k)

theorem headBehind_of_length_lt (short : segments.length < k + 2) : headBehind segments k = pure none := by
  have few : (segments.drop k).length < 2 := by
    rw [List.length_drop]
    omega
  unfold headBehind
  generalize segments.drop k = rest at few ⊢
  match rest, few with
  | [], _ => rfl
  | [last], _ => rfl

theorem headBehind_of_le_length (inside : k + 2 ≤ segments.length) :
    headBehind segments k = (do
      match ← probe segments (k + 2) with
      | some b => return some (b, k + 1)
      | none => headBehind segments (k + 1)) := by
  have first : segments.drop k = segments[k] :: segments.drop (k + 1) := List.drop_eq_getElem_cons (by omega)
  have second : segments.drop (k + 1) = segments[k + 1] :: segments.drop (k + 2) :=
    List.drop_eq_getElem_cons (by omega)
  have package : segments.take (k + 1) = segments.take k ++ [segments[k]] :=
    List.take_succ_eq_append_getElem (by omega)
  have name : segments.take (k + 2) = segments.take (k + 1) ++ [segments[k + 1]] :=
    List.take_succ_eq_append_getElem (by omega)
  unfold headBehind probe
  rw [first, second, findQualifiedHead, name, Name.ofSegments_concat, package, Name.ofSegments_concat]
  rfl

theorem Passes.rest (h : Passes o segments e k d) :
    ∃ i, k = i + 2 ∧ findQualifiedHead "" 0 segments o e = headBehind segments i o d := by
  induction h with
  | start => exact ⟨0, rfl, rfl⟩
  | next before inside nothing ih =>
    obtain ⟨i, rfl, same⟩ := ih
    refine ⟨i + 1, rfl, same.trans ?_⟩
    rw [headBehind_of_le_length inside, bind_apply_ok nothing]

theorem Passes.found {b : BindingId} (h : Passes o segments e (k + 1) d) (inside : k + 1 ≤ segments.length)
    (answered : probe segments (k + 1) o d = (.ok (some b), e')) :
    findQualifiedHead "" 0 segments o e = (.ok (some (b, k)), e') := by
  obtain ⟨i, eq, same⟩ := h.rest
  obtain rfl : k = i + 1 := by omega
  rw [same, headBehind_of_le_length inside, bind_apply_ok answered]
  rfl

theorem Passes.aborted {cause : Abort} (h : Passes o segments e k d) (inside : k ≤ segments.length)
    (failed : probe segments k o d = (.error cause, e')) :
    findQualifiedHead "" 0 segments o e = (.error cause, e') := by
  obtain ⟨i, rfl, same⟩ := h.rest
  rw [same, headBehind_of_le_length inside, bind_apply_error failed]

theorem Passes.nothing (h : Passes o segments e k d) (all : segments.length < k) :
    findQualifiedHead "" 0 segments o e = (.ok none, d) := by
  obtain ⟨i, rfl, same⟩ := h.rest
  rw [same, headBehind_of_length_lt all]
  rfl

theorem Passes.ends {k : Nat} {d : Env} (h : Passes o segments e k d) : ∃ k d, Passes o segments e k d ∧
    (segments.length < k ∨ k ≤ segments.length ∧ (probe segments k o d).1 ≠ .ok none) := by
  by_cases all : segments.length < k
  · exact ⟨k, d, h, .inl all⟩
  · by_cases nothing : (probe segments k o d).1 = .ok none
    · exact (h.next (by omega) (Prod.ext nothing rfl)).ends
    · exact ⟨k, d, h, .inr ⟨by omega, nothing⟩⟩
termination_by segments.length + 1 - k

theorem findQualifiedHead_cases (o : Oracle) (segments : List String) (e : Env) :
    (∃ k d, Passes o segments e k d ∧ segments.length < k ∧
      findQualifiedHead "" 0 segments o e = (.ok none, d)) ∨
    (∃ k d b e', Passes o segments e (k + 1) d ∧ k + 1 ≤ segments.length ∧
      probe segments (k + 1) o d = (.ok (some b), e') ∧
      findQualifiedHead "" 0 segments o e = (.ok (some (b, k)), e')) ∨
    ∃ k d cause e', Passes o segments e k d ∧ k ≤ segments.length ∧
      probe segments k o d = (.error cause, e') ∧
      findQualifiedHead "" 0 segments o e = (.error cause, e') := by
  have fresh : Passes o segments e 2 e := .start
  obtain ⟨k, d, passes, all | ⟨inside, stops⟩⟩ := fresh.ends
  · exact .inl ⟨k, d, passes, all, passes.nothing all⟩
  · obtain ⟨i, rfl, -⟩ := passes.rest
    rcases outcome : probe segments (i + 2) o d with ⟨cause | _ | b, e'⟩
    · exact .inr (.inr ⟨_, d, cause, e', passes, inside, outcome, passes.aborted inside outcome⟩)
    · exact absurd (congrArg Prod.fst outcome) stops
    · exact .inr (.inl ⟨_, d, b, e', passes, inside, outcome, passes.found inside outcome⟩)

/-- A qualified reference takes the shortest prefix of two or more segments that names a type, and nothing
only if no prefix does. -/
theorem findQualifiedHead_shortest (depth : Nat) (segments : List String) (e : Env) :
    (∀ b k e', findQualifiedHead "" 0 segments (oracle depth) e = (.ok (some (b, k)), e') ↔
      ∃ d, Passes (oracle depth) segments e (k + 1) d ∧ k + 1 ≤ segments.length ∧
        probe segments (k + 1) (oracle depth) d = (.ok (some b), e')) ∧
    (∀ e', findQualifiedHead "" 0 segments (oracle depth) e = (.ok none, e') ↔
      ∃ k, segments.length < k ∧ Passes (oracle depth) segments e k e') ∧
    (∀ cause e', findQualifiedHead "" 0 segments (oracle depth) e = (.error cause, e') ↔
      ∃ k d, Passes (oracle depth) segments e k d ∧ k ≤ segments.length ∧
        probe segments k (oracle depth) d = (.error cause, e')) ∧
    ∀ k b d e', probe segments k (oracle depth) d = (.ok (some b), e') →
      e'.Denotes (Name.ofSegments (segments.take k)) b ∧ (e'.binding b).isProblem = false := by
  have cases := findQualifiedHead_cases (oracle depth) segments e
  refine ⟨fun b k e' => ⟨fun run => ?_, fun ⟨d, passes, inside, answered⟩ => passes.found inside answered⟩,
    fun e' => ⟨fun run => ?_, fun ⟨k, all, passes⟩ => passes.nothing all⟩,
    fun cause e' => ⟨fun run => ?_, fun ⟨k, d, passes, inside, failed⟩ => passes.aborted inside failed⟩,
    fun k b d e' answered => (findProper_triple (ℓ := 0).at_depth trivial answered).2 b rfl⟩
  all_goals rw [run] at cases
  · obtain ⟨_, _, _, _, ⟨⟩⟩ | ⟨k, d, b, e', passes, inside, answered, ⟨⟩⟩ | ⟨_, _, _, _, _, _, _, ⟨⟩⟩ := cases
    exact ⟨d, passes, inside, answered⟩
  · obtain ⟨k, d, passes, all, ⟨⟩⟩ | ⟨_, _, _, _, _, _, _, ⟨⟩⟩ | ⟨_, _, _, _, _, _, _, ⟨⟩⟩ := cases
    exact ⟨k, all, passes⟩
  · obtain ⟨_, _, _, _, ⟨⟩⟩ | ⟨_, _, _, _, _, _, _, ⟨⟩⟩ | ⟨k, d, cause, e', passes, inside, failed, ⟨⟩⟩ := cases
    exact ⟨k, d, passes, inside, failed⟩

/-! A shorter prefix that hides a longer one -/

/-- A type with the name of a package, a type of the package, and a reference to the latter. -/
def packageBesideType : List UnitDecl := [
  { fileName := "b", package := "a", types := [{ name := "b", modifiers := [.public] }] },
  { fileName := "c", package := "a.b", types := [{ name := "c", modifiers := [.public] }] },
  { fileName := "U", package := "q", types := [{
      name := "U", fields := [{ name := "f", type := .named [.mk "a" [], .mk "b" [], .mk "c" []] }] }] }]

def besideType : Env :=
  ((Operation.addUnits packageBesideType).perform.run { options := {}, provider := (Library.core {}).provider }).2

/-- A longer prefix names a type too. The reference that means it is reported as undefined. -/
theorem exists_longer_head : ∃ e b c, Env.Reachable (Library.core {}).provider {} e ∧
    ((findQualifiedHead "" 0 ["a", "b", "c"]).run e).1 = .ok (some (b, 1)) ∧
    ((probe ["a", "b", "c"] 3).run e).1 = .ok (some c) ∧
    (e.binding b).name = "a.b" ∧ (e.binding c).name = "a.b.c" ∧
    ((Operation.ask (.fields ⟨2⟩)).perform.run e).2.diagnostics.problems.toList.map
      (fun p => (p.id, p.arguments)) = [(.undefinedType, ["a.b.c"])] := by
  have reachable : Env.Reachable (Library.core {}).provider {} besideType :=
    .step (.addUnits packageBesideType) (.new rfl)
  refine ⟨besideType, ⟨0⟩, ⟨1⟩, reachable, ?_⟩
  decide +kernel

end Resolve

end TeamRoles
