import Mathlib.Data.List.Basic
import TeamRoles.Name

/-!
The families of generated names. Every generated name is made of two words with a separator between them. In
that of a surrogate the method comes first and the second word is fixed; in those of accessors and precedence
wrappers the first word is fixed. So wrappers are never taken for anything else, but the accessors of a field
that is called as surrogates end are surrogates of methods that are called as accessors begin
(`families_meet`).
-/

namespace TeamRoles.Name

variable {p s r name kind kind' word word' m f : String}

theorem dropFront?_eq_some_iff : dropFront? p s = some r ↔ s = p ++ r := by
  simp only [dropFront?, Option.map_eq_some_iff, List.isPrefixOf?_eq_some_iff_append_eq]
  constructor
  · rintro ⟨rest, split, rfl⟩
    rw [← String.toList_inj, String.toList_append, String.toList_ofList, split]
  · rintro rfl
    exact ⟨r.toList, String.toList_append.symm, String.ofList_toList⟩

theorem dropEnd?_eq_some_iff : dropEnd? p s = some r ↔ s = r ++ p := by
  simp only [dropEnd?, Option.map_eq_some_iff, List.isSuffixOf?_eq_some_iff_append_eq]
  constructor
  · rintro ⟨rest, split, rfl⟩
    rw [← String.toList_inj, String.toList_append, String.toList_ofList, split]
  · rintro rfl
    exact ⟨r.toList, String.toList_append.symm, String.ofList_toList⟩

theorem isEmpty_toList : s.toList.isEmpty = false ↔ s ≠ "" := by
  rw [List.isEmpty_eq_false_iff, ne_eq, String.toList_eq_nil_iff]

structure Plain (s : String) : Prop where
  nonempty : s ≠ ""
  whole : '$' ∉ s.toList

def ofWords (kind word : String) : String := generated ++ (kind ++ ("$" ++ word))

theorem takeWhile_words (h : '$' ∉ kind.toList) (rest : List Char) :
    (kind.toList ++ '$' :: rest).takeWhile (· != '$') = kind.toList := by
  rw [List.takeWhile_append_of_pos fun c mem => bne_iff_ne.2 (ne_of_mem_of_not_mem mem h)]
  simp

theorem ofWords_inj (h : '$' ∉ kind.toList) (h' : '$' ∉ kind'.toList) :
    ofWords kind word = ofWords kind' word' ↔ kind = kind' ∧ word = word' := by
  have separator (w : String) : "$".toList ++ w.toList = '$' :: w.toList := rfl
  simp only [ofWords, ← String.toList_inj, String.toList_append, List.append_right_inj, separator]
  refine ⟨fun equal => ?_, fun ⟨kinds, words⟩ => by rw [kinds, words]⟩
  have kinds : kind.toList = kind'.toList := by
    rw [← takeWhile_words h word.toList, equal, takeWhile_words h']
  rw [kinds, List.append_right_inj, List.cons_inj_right] at equal
  exact ⟨kinds, equal⟩

theorem surrogate_eq (m : String) : surrogate m = ofWords m "base" := String.append_assoc

theorem getter_eq (f : String) : getter f = ofWords "get" f := by
  simp only [getter, ofWords, ← String.append_assoc]; rfl

theorem setter_eq (f : String) : setter f = ofWords "set" f := by
  simp only [setter, ofWords, ← String.append_assoc]; rfl

theorem precedenceWrapper_eq (i : Nat) : precedenceWrapper i = ofWords "prec" i.repr := by
  simp only [precedenceWrapper, ofWords, ← String.append_assoc]; rfl

theorem plain_iff : Plain m ↔ ¬(m.toList.isEmpty || m.toList.contains '$') := by
  rw [Bool.or_eq_true, not_or, List.contains_iff_mem, Bool.not_eq_true, isEmpty_toList]
  exact ⟨fun plain => ⟨plain.nonempty, plain.whole⟩, fun ⟨nonempty, whole⟩ => ⟨nonempty, whole⟩⟩

theorem surrogateTarget?_eq_some_iff : surrogateTarget? name = some m ↔ Plain m ∧ name = surrogate m := by
  simp only [surrogateTarget?, bind, Option.bind_eq_some_iff, dropFront?_eq_some_iff, dropEnd?_eq_some_iff]
  constructor
  · rintro ⟨_, rfl, a, rfl, accepted⟩
    obtain ⟨plain, rfl⟩ := (Option.ite_none_left_eq_some.1 accepted).imp_right Option.some.inj
    exact ⟨plain_iff.2 plain, String.append_assoc.symm⟩
  · rintro ⟨plain, rfl⟩
    exact ⟨_, String.append_assoc, m, rfl, if_neg (plain_iff.1 plain)⟩

theorem isSurrogate_iff : isSurrogate name ↔ ∃ m, Plain m ∧ name = ofWords m "base" := by
  simp only [isSurrogate, Option.isSome_iff_exists, surrogateTarget?_eq_some_iff, surrogate_eq]

theorem isAccessor_iff : isAccessor name ↔ ∃ f ≠ "", name = getter f ∨ name = setter f := by
  have either (f : String) : (dropFront? getterStart name <|> dropFront? setterStart name) = some f ↔
      name = getter f ∨ name = setter f := by
    simp only [Option.orElse_eq_orElse, Option.orElse_eq_or, Option.or_eq_some_iff, dropFront?_eq_some_iff]
    refine or_congr_right (and_iff_right_of_imp fun set => ?_)
    refine Option.eq_none_iff_forall_ne_some.2 fun f' get => ?_
    have both := (dropFront?_eq_some_iff.1 get).symm.trans set
    rw [← getter, ← setter, getter_eq, setter_eq, ofWords_inj (by decide) (by decide)] at both
    exact absurd both.1 (by decide)
  simp only [← either, isAccessor]
  cases dropFront? getterStart name <|> dropFront? setterStart name with
  | none => simp
  | some field => simp

theorem isPrecedenceWrapper_iff : isPrecedenceWrapper name ↔
    ∃ index, index ≠ "" ∧ index.toList.all Char.isDigit ∧ name = ofWords "prec" index := by
  have wrapped (index : String) : dropFront? precedenceStart name = some index ↔ name = ofWords "prec" index := by
    rw [dropFront?_eq_some_iff, ofWords, ← String.append_assoc, ← String.append_assoc]; rfl
  simp only [← wrapped, isPrecedenceWrapper]
  cases dropFront? precedenceStart name with
  | none => simp
  | some index => simp

theorem isPrecedenceWrapper_precedenceWrapper (i : Nat) : isPrecedenceWrapper (precedenceWrapper i) := by
  refine isPrecedenceWrapper_iff.2 ⟨i.repr, Nat.repr_ne_empty, ?_, precedenceWrapper_eq i⟩
  rw [Nat.toList_repr, List.all_eq_true]
  exact fun c mem => Nat.isDigit_of_mem_toDigits (by decide) (by decide) mem

theorem not_isSurrogate_of_isPrecedenceWrapper (wrapper : isPrecedenceWrapper name) : ¬isSurrogate name := by
  obtain ⟨index, -, digits, rfl⟩ := isPrecedenceWrapper_iff.1 wrapper
  intro surrogate
  obtain ⟨m, plain, equal⟩ := isSurrogate_iff.1 surrogate
  obtain ⟨-, rfl⟩ := (ofWords_inj (by decide) plain.whole).1 equal
  exact absurd digits (by decide)

theorem not_isAccessor_of_isPrecedenceWrapper (wrapper : isPrecedenceWrapper name) : ¬isAccessor name := by
  obtain ⟨index, -, -, rfl⟩ := isPrecedenceWrapper_iff.1 wrapper
  intro accessor
  obtain ⟨f, -, equal | equal⟩ := isAccessor_iff.1 accessor
  · rw [getter_eq, ofWords_inj (by decide) (by decide)] at equal
    exact absurd equal.1 (by decide)
  · rw [setter_eq, ofWords_inj (by decide) (by decide)] at equal
    exact absurd equal.1 (by decide)

theorem getter_eq_surrogate_iff (plain : Plain m) : getter f = surrogate m ↔ m = "get" ∧ f = "base" := by
  rw [getter_eq, surrogate_eq, ofWords_inj (by decide) plain.whole, eq_comm (a := m)]

theorem setter_eq_surrogate_iff (plain : Plain m) : setter f = surrogate m ↔ m = "set" ∧ f = "base" := by
  rw [setter_eq, surrogate_eq, ofWords_inj (by decide) plain.whole, eq_comm (a := m)]

theorem isSurrogate_and_isAccessor_iff :
    isSurrogate name ∧ isAccessor name ↔ name = getter "base" ∨ name = setter "base" := by
  constructor
  · rintro ⟨recognised, accessor⟩
    obtain ⟨m, plain, rfl⟩ := isSurrogate_iff.1 recognised
    rw [← surrogate_eq] at accessor ⊢
    obtain ⟨f, -, equal | equal⟩ := isAccessor_iff.1 accessor
    · obtain ⟨rfl, rfl⟩ := (getter_eq_surrogate_iff plain).1 equal.symm
      exact .inl rfl
    · obtain ⟨rfl, rfl⟩ := (setter_eq_surrogate_iff plain).1 equal.symm
      exact .inr rfl
  · rintro (rfl | rfl)
    · exact ⟨isSurrogate_iff.2 ⟨"get", ⟨by decide, by decide⟩, rfl⟩, isAccessor_iff.2 ⟨"base", by decide, .inl rfl⟩⟩
    · exact ⟨isSurrogate_iff.2 ⟨"set", ⟨by decide, by decide⟩, rfl⟩, isAccessor_iff.2 ⟨"base", by decide, .inr rfl⟩⟩

/-- Generated names are recognised as what they are, and only the two accessors of a field called `base` are
recognised as something else too: as the surrogates of methods called `get` and `set`. -/
theorem families_meet (method : Plain m) (field : f ≠ "") (i : Nat) (name : String) :
    surrogateTarget? (surrogate m) = some m ∧ isAccessor (getter f) ∧ isAccessor (setter f) ∧
    isPrecedenceWrapper (precedenceWrapper i) ∧
    (isPrecedenceWrapper name → ¬isSurrogate name ∧ ¬isAccessor name) ∧
    (isSurrogate name ∧ isAccessor name ↔ name = getter "base" ∨ name = setter "base") ∧
    (getter f = surrogate m ↔ m = "get" ∧ f = "base") ∧ (setter f = surrogate m ↔ m = "set" ∧ f = "base") :=
  ⟨surrogateTarget?_eq_some_iff.2 ⟨method, rfl⟩, isAccessor_iff.2 ⟨f, field, .inl rfl⟩,
    isAccessor_iff.2 ⟨f, field, .inr rfl⟩, isPrecedenceWrapper_precedenceWrapper i,
    fun wrapper => ⟨not_isSurrogate_of_isPrecedenceWrapper wrapper, not_isAccessor_of_isPrecedenceWrapper wrapper⟩,
    isSurrogate_and_isAccessor_iff, getter_eq_surrogate_iff method, setter_eq_surrogate_iff method⟩

theorem families_meet_get :
    Plain "get" ∧ "base" ≠ "" ∧ surrogateTarget? (surrogate "get") = some "get" ∧ getter "base" = surrogate "get" ∧
    setter "base" ≠ surrogate "get" := by
  have plain : Plain "get" := ⟨by decide, by decide⟩
  obtain ⟨target, -, -, -, -, -, get, set⟩ := families_meet plain (by decide : "base" ≠ "") 0 ""
  exact ⟨plain, by decide, target, get.2 ⟨rfl, rfl⟩, fun equal => absurd (set.1 equal).1 (by decide)⟩

/-- The surrogate of a static method `get` passes for an accessor, and so gets no team as its argument. -/
theorem surrogate_passes_for_accessor :
    Plain "get" ∧ Plain "base" ∧ getter "base" = surrogate "get" ∧ isSurrogate (getter "base") ∧
    isAccessor (surrogate "get") ∧ ∀ m : Modifiers, needsTeamInstance m true (surrogate "get") = false := by
  refine ⟨⟨by decide, by decide⟩, ⟨by decide, by decide⟩, rfl, by decide, by decide, fun m => ?_⟩
  rw [needsTeamInstance, show isAccessor (surrogate "get") = true by decide, Bool.not_true, Bool.and_false]

end TeamRoles.Name
