import TeamRoles.Proofs.Signature.Formals

/-!
Reading and printing of signatures undo each other. A text is accepted exactly if it is printed by a
well-formed signature, and then that signature is what is read.
-/

namespace TeamRoles.Signature

def ClassType.Within (n : Nat) (c : ClassType) : Prop := c.toTypeSig.Within (n + 1)

structure ClassSig.Within (n : Nat) (x : ClassSig) : Prop where
  formals : FormalsWithin n x.formals
  superclass : x.superclass.Within n
  interfaces : ∀ i ∈ x.interfaces, i.Within n
  count : x.interfaces.length < n

structure MethodSig.Within (n : Nat) (x : MethodSig) : Prop where
  formals : FormalsWithin n x.formals
  params : ∀ a ∈ x.params, a.Within n
  count : x.params.length < n
  ret : x.ret.Within n
  throws : ∀ a ∈ x.throws, a.Within n
  thrown : x.throws.length < n

theorem MethodSig.print_eq (x : MethodSig) :
    x.print = printFormals x.formals ++ '(' :: (x.params.flatMap TypeSig.print ++ [')'] ++
      (x.ret.print ++ x.throws.flatMap fun thrown => '^' :: thrown.print)) := by
  simp [MethodSig.print]

namespace Parser

variable {s t : Cursor} {fuel n : Nat}

theorem reads_classType_iff {c : ClassType} {e : Expected} :
    Reads (classType n e) s c t ↔ c.Within n ∧ s.Past c.print t := by
  simp only [classType, reads_bind_iff, reads_expect_iff, (exactAt n).segments, reads_pure_iff]
  rw [ClassType.print, ClassType.toTypeSig, TypeSig.print]
  constructor
  · rintro ⟨_, m, p₁, segments, _, ⟨d, w, past⟩, rfl, rfl⟩
    exact ⟨⟨Nat.succ_le_succ d, w⟩, p₁.cons past⟩
  · rintro ⟨⟨d, w⟩, past⟩
    obtain ⟨m, p₁, past⟩ := Cursor.past_cons_iff.1 past
    exact ⟨(), m, p₁, c.segments, t, ⟨Nat.le_of_succ_le_succ d, w, past⟩, rfl, rfl⟩

theorem reads_interfacesUntilEnd_iff {is : List ClassType} :
    Reads (interfacesUntilEnd fuel n) s is t ↔ is.length < n ∧ (∀ i ∈ is, i.Within fuel) ∧
      s.Past (is.flatMap ClassType.print) t ∧ t.rest = [] := by
  induction n generalizing s t is with
  | zero =>
    rw [interfacesUntilEnd, iff_false_left not_reads_fail]
    simp
  | succ n ih =>
    rw [interfacesUntilEnd, reads_peek_bind_iff]
    constructor
    · intro h
      split at h
      case isTrue ended =>
        obtain ⟨rfl, rfl⟩ := reads_pure_iff.1 h
        exact ⟨Nat.succ_pos n, nofun, Cursor.past_nil_iff.2 rfl, by simpa using ended⟩
      case isFalse =>
        simp only [reads_bind_iff, reads_classType_iff, ih, reads_pure_iff] at h
        obtain ⟨i, m, ⟨wi, pi⟩, is, _, ⟨short, w, past, ended⟩, rfl, rfl⟩ := h
        refine ⟨Nat.succ_lt_succ short, List.forall_mem_cons.2 ⟨wi, w⟩, ?_, ended⟩
        rw [List.flatMap_cons]
        exact pi.append past
    · rintro ⟨short, w, past, ended⟩
      cases is with
      | nil =>
        obtain rfl := Cursor.past_nil_iff.1 past
        rw [if_pos (by simpa using ended)]
        exact reads_pure_iff.2 ⟨rfl, rfl⟩
      | cons i is =>
        obtain ⟨wi, w⟩ := List.forall_mem_cons.1 w
        rw [List.flatMap_cons] at past
        obtain ⟨m, pi, past⟩ := Cursor.past_append_iff.1 past
        have head : s.rest.head? = some 'L' := by
          rw [ClassType.print, ClassType.toTypeSig, TypeSig.print] at pi
          exact pi.head
        rw [head, if_neg (by simp)]
        simp only [reads_bind_iff, reads_classType_iff, ih, reads_pure_iff]
        exact ⟨i, m, ⟨wi, pi⟩, is, t, ⟨Nat.lt_of_succ_lt_succ short, w, past, ended⟩, rfl, rfl⟩

theorem reads_paramsUntilClosed_iff {as : List TypeSig} :
    Reads (paramsUntilClosed fuel n) s as t ↔ as.length < n ∧ (∀ a ∈ as, a.Within fuel) ∧
      s.Past (as.flatMap TypeSig.print ++ [')']) t := by
  induction n generalizing s t as with
  | zero =>
    rw [paramsUntilClosed, iff_false_left not_reads_fail]
    simp
  | succ n ih =>
    rw [paramsUntilClosed, reads_peek_bind_iff]
    constructor
    · intro h
      split at h
      case h_1 head =>
        simp only [reads_bump_bind_iff head, reads_pure_iff] at h
        obtain ⟨_, past, rfl, rfl⟩ := h
        exact ⟨Nat.succ_pos n, nofun, past⟩
      case h_2 => exact (not_reads_fail h).elim
      case h_3 =>
        simp only [reads_bind_iff, reads_typeSig_iff, ih, reads_pure_iff] at h
        obtain ⟨a, m, ⟨wa, pa⟩, as, _, ⟨short, w, past⟩, rfl, rfl⟩ := h
        refine ⟨Nat.succ_lt_succ short, List.forall_mem_cons.2 ⟨wa, w⟩, ?_⟩
        rw [List.flatMap_cons, List.append_assoc]
        exact pa.append past
    · rintro ⟨short, w, past⟩
      cases as with
      | nil =>
        rw [List.flatMap_nil, List.nil_append] at past
        rw [past.head]
        exact (reads_bump_bind_iff past.head).2 ⟨t, past, reads_pure_iff.2 ⟨rfl, rfl⟩⟩
      | cons a as =>
        obtain ⟨wa, w⟩ := List.forall_mem_cons.1 w
        rw [List.flatMap_cons, List.append_assoc] at past
        obtain ⟨m, pa, past⟩ := Cursor.past_append_iff.1 past
        obtain ⟨c, cs, starts, other⟩ := a.print_starts
        have head : s.rest.head? = some c := by
          rw [starts] at pa
          exact pa.head
        rw [head]
        split
        case h_3 =>
          simp only [reads_bind_iff, reads_typeSig_iff, ih, reads_pure_iff]
          exact ⟨a, m, ⟨wa, pa⟩, as, t, ⟨Nat.lt_of_succ_lt_succ short, w, past⟩, rfl, rfl⟩
        all_goals simp_all

theorem reads_finish_iff {u : Unit} : Reads finish s u t ↔ s.rest = [] ∧ t = s := by
  rw [finish, reads_peek_bind_iff]
  split
  case isTrue ended =>
    have : s.rest = [] := by simpa using ended
    simp [reads_pure_iff, this]
  case isFalse more =>
    have : s.rest ≠ [] := by simpa using more
    simp [not_reads_fail, this]

theorem reads_wholeType_iff {x : TypeSig} :
    Reads (wholeType n) s x t ↔ x.Within n ∧ s.Past x.print t ∧ t.rest = [] := by
  simp only [wholeType, reads_bind_iff, reads_typeSig_iff, reads_finish_iff, reads_pure_iff]
  constructor
  · rintro ⟨_, _, ⟨w, past⟩, _, _, ⟨ended, rfl⟩, rfl, rfl⟩
    exact ⟨w, past, ended⟩
  · rintro ⟨w, past, ended⟩
    exact ⟨x, t, ⟨w, past⟩, (), t, ⟨ended, rfl⟩, rfl, rfl⟩

theorem reads_wholeClass_iff {x : ClassSig} :
    Reads (wholeClass n) s x t ↔ x.Within n ∧ s.Past x.print t ∧ t.rest = [] := by
  simp only [wholeClass, reads_bind_iff, reads_formals_iff, reads_classType_iff,
    reads_interfacesUntilEnd_iff, reads_pure_iff]
  constructor
  · rintro ⟨ps, _, ⟨wp, pp, -⟩, c, _, ⟨wc, pc⟩, is, _, ⟨count, wi, pi, ended⟩, rfl, rfl⟩
    exact ⟨⟨wp, wc, wi, count⟩, (pp.append pc).append pi, ended⟩
  · rintro ⟨⟨wp, wc, wi, count⟩, past, ended⟩
    obtain ⟨m₂, p₂, pi⟩ := Cursor.past_append_iff.1 past
    obtain ⟨m₁, pp, pc⟩ := Cursor.past_append_iff.1 p₂
    refine ⟨x.formals, m₁, ⟨wp, pp, ?_⟩, x.superclass, m₂, ⟨wc, pc⟩, x.interfaces, t,
      ⟨count, wi, pi, ended⟩, rfl, rfl⟩
    intro _
    rw [ClassType.print, ClassType.toTypeSig, TypeSig.print] at pc
    rw [pc.head]
    decide

theorem reads_wholeMethod_iff {x : MethodSig} :
    Reads (wholeMethod n) s x t ↔ x.Within n ∧ s.Past x.print t ∧ t.rest = [] := by
  simp only [wholeMethod, reads_bind_iff, reads_formals_iff, reads_expect_iff,
    reads_paramsUntilClosed_iff, reads_typeSig_iff, reads_marked_iff, reads_finish_iff,
    reads_pure_iff]
  constructor
  · rintro ⟨ps, _, ⟨wp, pp, -⟩, _, _, p₁, as, _, ⟨count, wa, pa⟩, r, _, ⟨wr, pr⟩, ts, _,
      ⟨thrown, wt, pt, -⟩, _, _, ⟨ended, rfl⟩, rfl, rfl⟩
    refine ⟨⟨wp, wa, count, wr, wt, thrown⟩, ?_, ended⟩
    rw [MethodSig.print_eq]
    exact pp.append (p₁.cons (pa.append (pr.append pt)))
  · rintro ⟨⟨wp, wa, count, wr, wt, thrown⟩, past, ended⟩
    rw [MethodSig.print_eq] at past
    obtain ⟨m₁, pp, past⟩ := Cursor.past_append_iff.1 past
    obtain ⟨m₂, p₁, past⟩ := Cursor.past_cons_iff.1 past
    obtain ⟨m₃, pa, past⟩ := Cursor.past_append_iff.1 past
    obtain ⟨m₄, pr, pt⟩ := Cursor.past_append_iff.1 past
    refine ⟨x.formals, m₁, ⟨wp, pp, ?_⟩, (), m₂, p₁, x.params, m₃, ⟨count, wa, pa⟩, x.ret, m₄,
      ⟨wr, pr⟩, x.throws, t, ⟨thrown, wt, pt, ?_⟩, (), t, ⟨ended, rfl⟩, rfl, rfl⟩
    · intro _
      rw [p₁.head]
      decide
    · rw [ended]
      decide

theorem parse_eq_ok_iff {α : Type} {p : Nat → Parser α} {within : Nat → α → Prop}
    {print : α → List Char} {text : String} {x : α}
    (exact : ∀ {n s t x}, Reads (p n) s x t ↔ within n x ∧ s.Past (print x) t ∧ t.rest = []) :
    parse p text = .ok x ↔ within (fuelFor text) x ∧ String.ofList (print x) = text := by
  have reads : parse p text = .ok x ↔ ∃ t, Reads (p (fuelFor text)) ⟨0, text.toList⟩ x t := by
    unfold parse Reads
    cases (p (fuelFor text)).run ⟨0, text.toList⟩ with
    | error e => simp
    | ok r => simp [Prod.ext_iff]
  rw [reads]
  constructor
  · rintro ⟨t, h⟩
    obtain ⟨w, past, ended⟩ := exact.1 h
    refine ⟨w, ?_⟩
    have read : text.toList = print x ++ t.rest := past.1
    rw [← String.toList_inj, String.toList_ofList, read, ended, List.append_nil]
  · rintro ⟨w, rfl⟩
    refine ⟨⟨width (print x), []⟩, exact.2 ⟨w, ⟨?_, ?_⟩, rfl⟩⟩
    · simp
    · simp

end Parser

theorem TypeSig.WellFormed.within {n : Nat} {a : TypeSig} (w : a.WellFormed)
    (h : 2 * a.print.length ≤ n) : a.Within n :=
  ⟨a.depth_le.trans h, w⟩

section Lengths

variable {α : Type} {f : α → List Char} {l : List α}

theorem length_le_flatMap {a : α} (h : a ∈ l) : (f a).length ≤ (l.flatMap f).length := by
  rw [List.flatMap_def]
  exact (List.sublist_flatten_of_mem (List.mem_map_of_mem h)).length_le

theorem count_le_flatMap (h : ∀ a, 0 < (f a).length) : l.length ≤ (l.flatMap f).length := by
  induction l with
  | nil => exact Nat.zero_le _
  | cons a l ih =>
    have := h a
    rw [List.flatMap_cons, List.length_append, List.length_cons]
    omega

end Lengths

theorem Formal.print_length_pos (p : Formal) : 0 < p.print.length := by
  rw [Formal.print, List.length_append, List.length_cons]
  omega

theorem Formal.WellFormed.within {n : Nat} {p : Formal} (w : p.WellFormed)
    (h : 2 * p.print.length ≤ n) : p.Within n := by
  have length : p.print.length = p.name.toList.length + 1 +
      ((p.classBound.toList.flatMap TypeSig.print).length +
        (p.interfaceBounds.flatMap fun bound => ':' :: bound.print).length) := by
    simp only [Formal.print, List.length_append, List.length_cons]
    omega
  refine ⟨w.name, ?_, ?_⟩
  · intro b hb
    apply (w.bounds b hb).within
    rcases List.mem_append.1 hb with hb | hb
    · have := length_le_flatMap (f := TypeSig.print) hb
      omega
    · have := length_le_flatMap (f := fun bound : TypeSig => ':' :: bound.print) hb
      simp only [List.length_cons] at this
      omega
  · have := count_le_flatMap (f := fun bound : TypeSig => ':' :: bound.print)
      (l := p.interfaceBounds) (fun _ => Nat.succ_pos _)
    omega

theorem Formal.Within.wellFormed {n : Nat} {p : Formal} (w : p.Within n) : p.WellFormed :=
  ⟨w.name, fun b hb => (w.bounds b hb).2⟩

theorem FormalsWellFormed.within {n : Nat} {ps : List Formal} (w : FormalsWellFormed ps)
    (h : 2 * (printFormals ps).length < n) : FormalsWithin n ps := by
  have length : (ps.flatMap Formal.print).length ≤ (printFormals ps).length := by
    rw [printFormals]
    cases ps.flatMap Formal.print <;> simp [argList]
  refine ⟨?_, w.bounded, ?_⟩
  · intro p hp
    apply (w.each p hp).within
    have := length_le_flatMap (f := Formal.print) hp
    omega
  · intro _
    have := count_le_flatMap (f := Formal.print) (l := ps) Formal.print_length_pos
    omega

theorem FormalsWithin.wellFormed {n : Nat} {ps : List Formal} (w : FormalsWithin n ps) :
    FormalsWellFormed ps :=
  ⟨fun p hp => (w.each p hp).wellFormed, w.bounded⟩

theorem ClassType.WellFormed.within {n : Nat} {c : ClassType} (w : c.WellFormed)
    (h : 2 * c.print.length ≤ n) : c.Within n :=
  TypeSig.WellFormed.within w (Nat.le_succ_of_le h)

theorem ClassSig.within_iff {n : Nat} {x : ClassSig} (h : 2 * x.print.length < n) :
    x.Within n ↔ x.WellFormed := by
  constructor
  · intro w
    exact ⟨w.formals.wellFormed, w.superclass.2, fun i hi => (w.interfaces i hi).2⟩
  · intro w
    simp only [ClassSig.print, List.length_append] at h
    refine ⟨w.formals.within (by omega), w.superclass.within (by omega), ?_, ?_⟩
    · intro i hi
      have := length_le_flatMap (f := ClassType.print) hi
      exact (w.interfaces i hi).within (by omega)
    · have := count_le_flatMap (f := ClassType.print) (l := x.interfaces)
        (fun c => c.toTypeSig.print_length_pos)
      omega

theorem MethodSig.within_iff {n : Nat} {x : MethodSig} (h : 2 * x.print.length < n) :
    x.Within n ↔ x.WellFormed := by
  constructor
  · intro w
    exact ⟨w.formals.wellFormed, fun a ha => (w.params a ha).2, w.ret.2,
      fun a ha => (w.throws a ha).2⟩
  · intro w
    simp only [MethodSig.print, List.length_append, List.length_cons] at h
    refine ⟨w.formals.within (by omega), ?_, ?_, w.ret.within (by omega), ?_, ?_⟩
    · intro a ha
      have := length_le_flatMap (f := TypeSig.print) ha
      exact (w.params a ha).within (by omega)
    · have := count_le_flatMap (f := TypeSig.print) (l := x.params) TypeSig.print_length_pos
      omega
    · intro a ha
      have := length_le_flatMap (f := fun thrown : TypeSig => '^' :: thrown.print) ha
      simp only [List.length_cons] at this
      exact (w.throws a ha).within (by omega)
    · have := count_le_flatMap (f := fun thrown : TypeSig => '^' :: thrown.print) (l := x.throws)
        (fun _ => Nat.succ_pos _)
      omega

theorem TypeSig.within_iff {n : Nat} {x : TypeSig} (h : 2 * x.print.length < n) :
    x.Within n ↔ x.WellFormed :=
  ⟨And.right, fun w => w.within h.le⟩

theorem lt_fuelFor_ofList (cs : List Char) : 2 * cs.length < Parser.fuelFor (String.ofList cs) := by
  rw [Parser.fuelFor, String.toList_ofList]
  omega

theorem parseType_eq_ok_iff {text : String} {x : TypeSig} :
    parseType text = .ok x ↔ x.WellFormed ∧ x.text = text := by
  rw [parseType, Parser.parse_eq_ok_iff Parser.reads_wholeType_iff]
  apply and_congr_left
  rintro rfl
  exact TypeSig.within_iff (lt_fuelFor_ofList x.print)

theorem parseClass_eq_ok_iff {text : String} {x : ClassSig} :
    parseClass text = .ok x ↔ x.WellFormed ∧ x.text = text := by
  rw [parseClass, Parser.parse_eq_ok_iff Parser.reads_wholeClass_iff]
  apply and_congr_left
  rintro rfl
  exact ClassSig.within_iff (lt_fuelFor_ofList x.print)

theorem formals_of_parseClass {text : String} {x : ClassSig} (parsed : parseClass text = .ok x)
    (plain : text.toList.head? ≠ some '<') : x.formals = [] := by
  obtain ⟨-, rfl⟩ := parseClass_eq_ok_iff.1 parsed
  rw [ClassSig.text, String.toList_ofList] at plain
  cases formals : x.formals with
  | nil => rfl
  | cons p ps =>
    -- A formal has a colon, so that the list of formals does not print as nothing.
    obtain ⟨c, cs, printed⟩ : ∃ c cs, (p :: ps).flatMap Formal.print = c :: cs := by
      cases name : p.name.toList <;> simp [Formal.print, name]
    simp [ClassSig.print, printFormals, formals, printed, argList] at plain

theorem parseMethod_eq_ok_iff {text : String} {x : MethodSig} :
    parseMethod text = .ok x ↔ x.WellFormed ∧ x.text = text := by
  rw [parseMethod, Parser.parse_eq_ok_iff Parser.reads_wholeMethod_iff]
  apply and_congr_left
  rintro rfl
  exact MethodSig.within_iff (lt_fuelFor_ofList x.print)

/-- A reader and a printer that agree on one text for each value that is `ok`. -/
structure Inverse {α : Type} (parse : String → Except Error α) (print : α → String)
    (ok : α → Prop) : Prop where
  print_of_parse {text : String} {x : α} : parse text = .ok x → print x = text
  parse_print {x : α} : ok x → parse (print x) = .ok x
  accepted_iff {text : String} : (∃ x, parse text = .ok x) ↔ ∃ x, ok x ∧ print x = text
  print_injective {x y : α} : ok x → ok y → print x = print y → x = y

theorem Inverse.of_iff {α : Type} {parse : String → Except Error α} {print : α → String}
    {ok : α → Prop} (h : ∀ {text x}, parse text = .ok x ↔ ok x ∧ print x = text) :
    Inverse parse print ok where
  print_of_parse hx := (h.1 hx).2
  parse_print hx := h.2 ⟨hx, rfl⟩
  accepted_iff := exists_congr fun _ => h
  print_injective {x y} hx hy same := by
    have read : parse (print y) = .ok x := h.2 ⟨hx, same⟩
    rw [h.2 ⟨hy, rfl⟩] at read
    exact (Except.ok.inj read).symm

theorem parse_inverse_print :
    Inverse parseType TypeSig.text TypeSig.WellFormed ∧
      Inverse parseClass ClassSig.text ClassSig.WellFormed ∧
      Inverse parseMethod MethodSig.text MethodSig.WellFormed :=
  ⟨.of_iff parseType_eq_ok_iff, .of_iff parseClass_eq_ok_iff, .of_iff parseMethod_eq_ok_iff⟩

end TeamRoles.Signature
