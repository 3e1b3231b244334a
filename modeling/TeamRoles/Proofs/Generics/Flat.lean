import TeamRoles.Proofs.Generics.Answers

/-!
Types without raw types, wildcards and enclosing instantiations are interned: one that contains another
type, or is equivalent to it, is the same type.
-/

namespace TeamRoles

namespace Ty

mutual

/-- Neither a raw type nor a wildcard nor an instantiation within another one occurs in the type. -/
def isFlat : Ty → Bool
  | .parameterized _ args enclosing => enclosing.isNone && allFlat args
  | .raw _ _ => false
  | .wildcard _ _ => false
  | .array component => component.isFlat
  | .anchored role _ => role.isFlat
  | _ => true

def allFlat : List Ty → Bool
  | [] => true
  | t :: rest => t.isFlat && allFlat rest

end

theorem allFlat_iff {l : List Ty} : allFlat l = true ↔ ∀ t ∈ l, t.isFlat = true := by
  induction l with
  | nil => simp [allFlat]
  | cons t l ih => simp [allFlat, ih]

/-- A class type that is neither raw nor within an instantiation, whatever its arguments are. -/
def isBare : Ty → Bool
  | .declared _ => true
  | .parameterized _ _ enclosing => enclosing.isNone
  | .anchored role _ => role.isBare
  | _ => false

/-- A type of the class is good enough for the class itself; an instantiation has to be the same. -/
def Fits (sup found : Ty) : Prop := found = sup ∨ ∃ c, sup = .declared c ∧ Env.bindingOf? found = some c

structure IsTarget (sup : Ty) (target : BindingId) : Prop where
  flat : sup.isFlat = true
  bare : sup.isBare = true
  plain : ∀ role path, sup ≠ .anchored role path
  named : Env.bindingOf? sup = some target

theorem Fits.bindingOf?_eq {sup found : Ty} (h : sup.Fits found) :
    Env.bindingOf? found = Env.bindingOf? sup := by
  rcases h with rfl | ⟨c, rfl, named⟩
  · rfl
  · exact named

theorem Fits.eq_of_declared {sup : Ty} {c : BindingId} (h : sup.Fits (.declared c)) : .declared c = sup := by
  rcases h with rfl | ⟨d, rfl, ⟨⟩⟩ <;> rfl

end Ty

namespace Resolve

variable {e : Env} {depth : Nat} {x y : Ty} {xs ys : List Ty}

/-- An answer that is yes if the condition holds and changes nothing, with the depth that it takes. -/
def Interns (depth : Nat) (e : Env) (x : Resolve Bool) (p : Prop) (n : Nat) : Prop :=
  Answers (oracle depth) (· = e) x (fun r e' => e' = e ∧ (r = true ↔ p)) (depth < n)

namespace Interns

variable {p q r : Prop} {n m : Nat} {x y : Resolve Bool}

theorem yes (answered : x (oracle depth) e = (.ok true, e)) (holds : p) : Interns depth e x p n := by
  refine .of_ok (a := true) ?_
  rintro _ rfl
  exact ⟨answered, rfl, iff_of_true rfl holds⟩

theorem no (fails : ¬p) : Interns depth e (pure false) p n := by
  refine .pure ?_
  rintro _ rfl
  exact ⟨rfl, iff_of_false nofun fails⟩

theorem mono (h : Interns depth e x p n) (le : n ≤ m) : Interns depth e x p m :=
  h.weaken fun short => Nat.lt_of_lt_of_le short le

theorem congr (h : Interns depth e x p n) (iff : p ↔ q) : Interns depth e x q n :=
  h.post fun _ _ answered => ⟨answered.1, answered.2.trans iff⟩

theorem ask (depth : Nat) (q : Query Bool) (h : ∀ d, Interns d e (answer q) p n) :
    Interns depth e (Resolve.ask q) p (n + 1) := by
  refine Answers.ask (fun none => by omega) fun d succ => ?_
  exact (h d).weaken fun short => by omega

theorem answers {P : Env → Prop} (h : ∀ e, P e → Interns depth e x p n) :
    Answers (oracle depth) P x (fun r e => P e ∧ (r = true ↔ p)) (depth < n) := by
  refine fun e he => ⟨fun r e' answered => ?_, (h e he e rfl).2⟩
  obtain ⟨rfl, iff⟩ := (h e he e rfl).1 r e' answered
  exact ⟨he, iff⟩

theorem bind (hx : Interns depth e x p n) (hy : p → Interns depth e y q n) (iff : r ↔ p ∧ q) :
    Interns depth e (do if ← x then y else return false) r n := by
  refine Answers.bind hx fun answered => ?_
  by_cases holds : p
  · refine .ite (fun _ => ?_) fun other => ?_
    · refine ((hy holds).pre fun _ h => h.1).post fun r e' h => ⟨h.1, h.2.trans ?_⟩
      exact ⟨fun h => iff.2 ⟨holds, h⟩, fun h => (iff.1 h).2⟩
    · refine .pure ?_
      rintro _ ⟨-, answered⟩
      exact absurd (answered.2 holds) other
  · refine .ite (fun yes e' he => absurd (he.2.1 yes) holds) fun _ => ?_
    exact (no fun h => holds (iff.1 h).1).pre fun _ h => h.1

end Interns

theorem contains_self : contains x x (oracle depth) e = (.ok true, e) := by
  unfold contains
  rw [if_pos (by simp)]
  rfl

theorem interns_self {f : Ty → Ty → Resolve Bool} {n : Nat}
    (h : x ≠ y → Interns depth e (f x y) (x = y) n) :
    Interns depth e (if x == y then return true else f x y) (x = y) n := by
  by_cases same : x = y
  · rw [if_pos (by simpa using same)]
    exact .yes rfl same
  · rw [if_neg (by simpa using same)]
    exact h same

theorem contains_interns (known : e.RootKnown) (flat : x.isFlat = true) {n : Nat}
    (equivalent : ∀ d, Interns d e (isEquivalent x y) (x = y) n) :
    Interns depth e (contains x y) (x = y) (n + 1) := by
  unfold contains
  refine interns_self (f := fun x y => _) fun other => ?_
  refine Answers.bind (objectType_answers (by rintro _ rfl; exact known) fun none => by omega) fun root => ?_
  split
  · cases flat
  · cases flat
  · cases flat
  · cases flat
  · cases flat
  · cases flat
  · cases flat
  · exact Interns.no other
  · exact Interns.ask depth (.isEquivalent x y) equivalent

mutual

theorem isEquivalent_interns (x : Ty) (flat : x.isFlat = true) (known : e.RootKnown) (y : Ty)
    (depth : Nat) : Interns depth e (isEquivalent x y) (x = y) (2 * sizeOf x) := by
  unfold isEquivalent
  refine interns_self (f := fun x y => _) fun other => ?_
  split
  · next g xs outer h ys outer' =>
    obtain ⟨rfl, args⟩ : outer = none ∧ Ty.allFlat xs = true := by simpa [Ty.isFlat] using flat
    refine Answers.ite (fun differ => Interns.no other) fun same => ?_
    obtain ⟨rfl, length⟩ : g = h ∧ xs.length = ys.length := by simpa using same
    have compared := containsBothWays_interns xs args known ys depth length
    refine Interns.bind (q := outer' = none) (compared.mono ?_) (fun _ => ?_) (by simp [eq_comm])
    · simp only [Ty.parameterized.sizeOf_spec]
      omega
    · cases outer' with
      | none => exact .yes rfl rfl
      | some outer' => exact .no nofun
  · cases flat
  · next x y =>
    have compared := Interns.ask depth (.isEquivalent x y) fun d =>
      isEquivalent_interns x flat known y d
    refine (compared.mono ?_).congr (by simp)
    simp only [Ty.array.sizeOf_spec]
    omega
  · next x p y q =>
    refine Answers.ite (fun same => ?_) fun differ => Interns.no other
    have compared := Interns.ask depth (.isEquivalent x y) fun d => isEquivalent_interns x flat known y d
    refine (compared.mono ?_).congr (by simp [beq_iff_eq.1 same])
    simp only [Ty.anchored.sizeOf_spec]
    omega
  · exact Interns.no other

theorem containsBothWays_interns (xs : List Ty) (flat : Ty.allFlat xs = true) (known : e.RootKnown)
    (ys : List Ty) (depth : Nat) (same : xs.length = ys.length) :
    Interns depth e (containsBothWays (xs.zip ys)) (xs = ys) (2 * sizeOf xs) := by
  match xs, ys with
  | [], [] => exact .yes rfl rfl
  | x :: xs, y :: ys =>
    obtain ⟨first, others⟩ : x.isFlat = true ∧ Ty.allFlat xs = true := by simpa [Ty.allFlat] using flat
    have there := Interns.ask depth (.contains x y) fun d =>
      contains_interns known first fun d => isEquivalent_interns x first known y d
    have back : Interns depth e (ask (.contains x x)) True 1 :=
      Interns.ask depth _ fun d => .yes contains_self trivial
    have rest := containsBothWays_interns xs others known ys depth (by simpa using same)
    have sizes : sizeOf (x :: xs) = 1 + sizeOf x + sizeOf xs := List.cons.sizeOf_spec x xs
    refine Interns.bind (q := xs = ys) (there.mono (by omega)) (fun eq => ?_) (by simp)
    subst eq
    exact Interns.bind (back.mono (by omega)) (fun _ => rest.mono (by omega)) (by simp)

end

theorem containsAll_interns (flat : Ty.allFlat xs = true) (known : e.RootKnown)
    (same : xs.length = ys.length) :
    Interns depth e (containsAll (xs.zip ys)) (xs = ys) (2 * sizeOf xs) := by
  induction xs generalizing ys with
  | nil =>
    cases ys with
    | nil => exact .yes rfl rfl
    | cons => cases same
  | cons x xs ih =>
    cases ys with
    | nil => cases same
    | cons y ys =>
      obtain ⟨first, others⟩ : x.isFlat = true ∧ Ty.allFlat xs = true := by
        simpa [Ty.allFlat] using flat
      have head := Interns.ask depth (.contains x y) fun d =>
        contains_interns known first fun d => isEquivalent_interns x first known y d
      have sizes : sizeOf (x :: xs) = 1 + sizeOf x + sizeOf xs := List.cons.sizeOf_spec x xs
      refine Interns.bind (q := xs = ys) (head.mono (by omega)) (fun _ => ?_) (by simp)
      exact (ih others (by simpa using same)).mono (by omega)

theorem fitsTarget_interns {found sup : Ty} {target : BindingId} (wanted : sup.IsTarget target)
    (known : e.RootKnown) (foundBare : found.isBare = true) (same : Env.bindingOf? found = some target) :
    Interns depth e (fitsTarget found sup) (sup.Fits found) (2 * sizeOf sup) := by
  obtain ⟨flat, bare, plain, named⟩ := wanted
  replace same := same.trans named.symm
  clear named
  unfold fitsTarget
  split
  · next c => exact .yes rfl (.inr ⟨c, rfl, same⟩)
  · cases bare
  · next g xs outer h wanted outer' =>
    obtain ⟨rfl, args⟩ : outer' = none ∧ Ty.allFlat wanted = true := by simpa [Ty.isFlat] using flat
    obtain rfl : outer = none := by simpa [Ty.isBare] using foundBare
    obtain rfl : g = h := by simpa [Env.bindingOf?] using same
    have iff : wanted = xs ↔ (Ty.parameterized g wanted none).Fits (.parameterized g xs none) := by
      simp [Ty.Fits, eq_comm]
    refine Answers.ite (fun length => ?_) fun differ => Interns.no ?_
    · refine ((containsAll_interns args known (beq_iff_eq.1 length).symm).mono ?_).congr iff
      simp only [Ty.parameterized.sizeOf_spec]
      omega
    · rw [← iff]
      rintro rfl
      simp at differ
  · next notDeclared notRaw notBoth =>
    refine .no ?_
    rintro (rfl | ⟨c, rfl, -⟩)
    · cases found with
      | declared c => exact notDeclared c rfl
      | raw g outer => exact notRaw g outer rfl
      | parameterized g args outer => exact notBoth g args outer g args outer rfl rfl
      | anchored role path => exact plain role path rfl
      | _ => cases bare
    · exact notDeclared c rfl

end Resolve

end TeamRoles
