import TeamRoles.Proofs.Signature.Types

/-!
Reading of type parameters. A parameter without a bound can only be told from the next name by the
closing angle, which is why it has to be the last one.
-/

namespace TeamRoles.Signature

def TypeSig.Within (n : Nat) (a : TypeSig) : Prop := a.depth ≤ n ∧ a.WellFormed

structure Formal.Within (n : Nat) (p : Formal) : Prop where
  name : NameWithout [':', '>'] p.name
  bounds : ∀ bound ∈ p.bounds, bound.Within n
  count : p.interfaceBounds.length < n

structure FormalsWithin (n : Nat) (ps : List Formal) : Prop where
  each : ∀ p ∈ ps, p.Within n
  bounded : ∀ p ∈ ps.dropLast, p.bounds ≠ []
  count : ps ≠ [] → ps.length < n

namespace Parser

variable {s t m : Cursor} {fuel n : Nat}

theorem reads_typeSig_iff {a : TypeSig} :
    Reads (typeSig n) s a t ↔ a.Within n ∧ s.Past a.print t := by
  rw [(exactAt n).typeSig, TypeSig.Within, and_assoc]

theorem reads_marked_iff {mark : Char} {as : List TypeSig} :
    Reads (marked mark fuel n) s as t ↔ as.length < n ∧ (∀ a ∈ as, a.Within fuel) ∧
      s.Past (as.flatMap fun a => mark :: a.print) t ∧ t.rest.head? ≠ some mark := by
  induction n generalizing s t as with
  | zero =>
    rw [marked, iff_false_left not_reads_fail]
    simp
  | succ n ih =>
    rw [marked, reads_peek_bind_iff]
    constructor
    · intro h
      split at h
      case isTrue head =>
        simp only [reads_bump_bind_iff head, reads_bind_iff, reads_typeSig_iff, ih,
          reads_pure_iff] at h
        obtain ⟨m₁, p₁, a, m₂, ⟨wa, pa⟩, as, _, ⟨short, w, past, stop⟩, rfl, rfl⟩ := h
        refine ⟨Nat.succ_lt_succ short, List.forall_mem_cons.2 ⟨wa, w⟩, ?_, stop⟩
        rw [List.flatMap_cons]
        exact (p₁.cons pa).append past
      case isFalse other =>
        obtain ⟨rfl, rfl⟩ := reads_pure_iff.1 h
        exact ⟨Nat.succ_pos n, nofun, Cursor.past_nil_iff.2 rfl, other⟩
    · rintro ⟨short, w, past, stop⟩
      cases as with
      | nil =>
        obtain rfl := Cursor.past_nil_iff.1 past
        rw [if_neg stop]
        exact reads_pure_iff.2 ⟨rfl, rfl⟩
      | cons a as =>
        obtain ⟨wa, w⟩ := List.forall_mem_cons.1 w
        rw [List.flatMap_cons] at past
        obtain ⟨m₂, pm, past⟩ := Cursor.past_append_iff.1 past
        obtain ⟨m₁, p₁, pa⟩ := Cursor.past_cons_iff.1 pm
        rw [p₁.head, if_pos rfl]
        simp only [reads_bump_bind_iff p₁.head, reads_bind_iff, reads_typeSig_iff, ih,
          reads_pure_iff]
        exact ⟨m₁, p₁, a, m₂, ⟨wa, pa⟩, as, t, ⟨Nat.lt_of_succ_lt_succ short, w, past, stop⟩, rfl, rfl⟩

theorem reads_classBound_iff {b : Option TypeSig} :
    Reads (classBound n) s b t ↔ (∀ a ∈ b, a.Within n) ∧ s.Past (b.toList.flatMap TypeSig.print) t ∧
      (b = none → t.rest.head? = some ':' ∨ t.rest.head? = some '>') := by
  rw [classBound, reads_peek_bind_iff]
  constructor
  · intro h
    split at h
    case isTrue next =>
      obtain ⟨rfl, rfl⟩ := reads_pure_iff.1 h
      exact ⟨nofun, Cursor.past_nil_iff.2 rfl, fun _ => next⟩
    case isFalse =>
      simp only [reads_bind_iff, reads_typeSig_iff, reads_pure_iff] at h
      obtain ⟨a, _, ⟨w, past⟩, rfl, rfl⟩ := h
      simpa using ⟨w, past⟩
  · rintro ⟨w, past, next⟩
    cases b with
    | none =>
      obtain rfl := Cursor.past_nil_iff.1 past
      rw [if_pos (next rfl)]
      exact reads_pure_iff.2 ⟨rfl, rfl⟩
    | some a =>
      simp only [Option.toList_some, List.flatMap_singleton] at past
      obtain ⟨c, cs, starts, other⟩ := a.print_starts
      have head : s.rest.head? = some c := by
        rw [starts] at past
        exact past.head
      rw [head, if_neg]
      · simp only [reads_bind_iff, reads_typeSig_iff, reads_pure_iff]
        exact ⟨a, t, ⟨w a rfl, past⟩, rfl, rfl⟩
      · rintro (h | h) <;> simp_all

theorem reads_formal_iff {p : Formal} :
    Reads (formal n) s p t ↔ p.Within n ∧ s.Past p.print t ∧ t.rest.head? ≠ some ':' ∧
      (p.bounds = [] → t.rest.head? = some '>') := by
  simp only [formal, reads_bind_iff, reads_ident_iff, reads_expect_iff, reads_classBound_iff,
    reads_marked_iff, reads_pure_iff]
  constructor
  · rintro ⟨name, _, ⟨wn, pn, -⟩, _, _, p₁, bound, _, ⟨wb, pb, next⟩, bounds, _,
      ⟨count, w, past, stop⟩, rfl, rfl⟩
    refine ⟨⟨wn, ?_, count⟩, ?_, stop, ?_⟩
    · intro b hb
      rcases List.mem_append.1 hb with hb | hb
      · exact wb b (Option.mem_toList.1 hb)
      · exact w b hb
    · rw [Formal.print, String.toList_ofList]
      exact pn.append (p₁.cons (pb.append past))
    · intro none
      obtain ⟨hb, rfl⟩ := List.append_eq_nil_iff.1 none
      obtain rfl := Cursor.past_nil_iff.1 past
      exact (next (Option.toList_eq_nil_iff.1 hb)).resolve_left stop
  · rintro ⟨⟨wn, w, count⟩, past, stop, last⟩
    rw [Formal.print] at past
    obtain ⟨m₁, pn, past⟩ := Cursor.past_append_iff.1 past
    obtain ⟨m₂, p₁, past⟩ := Cursor.past_cons_iff.1 past
    obtain ⟨m₃, pb, past⟩ := Cursor.past_append_iff.1 past
    refine ⟨p.name.toList, m₁, ⟨?_, pn, ?_⟩, (), m₂, p₁, p.classBound, m₃, ⟨?_, pb, ?_⟩,
      p.interfaceBounds, t, ⟨count, ?_, past, stop⟩, ?_, rfl⟩
    · rwa [String.ofList_toList]
    · intro c head
      rw [p₁.head, Option.some.injEq] at head
      rw [← head]
      exact List.mem_cons_self
    · intro b hb
      exact w b (List.mem_append_left _ (Option.mem_toList.2 hb))
    · intro none
      cases bounds : p.interfaceBounds with
      | nil =>
        rw [bounds] at past
        obtain rfl := Cursor.past_nil_iff.1 past
        exact .inr (last (by simp [Formal.bounds, none, bounds]))
      | cons b bs =>
        rw [bounds, List.flatMap_cons, List.cons_append] at past
        exact .inl past.head
    · intro b hb
      exact w b (List.mem_append_right _ hb)
    · rw [String.ofList_toList]

theorem formals_start {ps : List Formal} (w : ∀ p ∈ ps, p.Within n) :
    ∃ c cs, ps.flatMap Formal.print ++ ['>'] = c :: cs ∧ c ≠ ':' ∧ (c = '>' ↔ ps = []) := by
  cases ps with
  | nil => exact ⟨'>', [], rfl, by decide, by simp⟩
  | cons p ps =>
    obtain ⟨some, other⟩ := (w p List.mem_cons_self).name
    cases name : p.name.toList with
    | nil => exact absurd (String.toList_eq_nil_iff.1 name) some
    | cons c cs =>
      have hc : c ∉ [':', '>'] := other c (by rw [name]; exact List.mem_cons_self)
      rw [List.flatMap_cons, Formal.print, name]
      exact ⟨c, _, rfl, by simp_all, by simp_all⟩

theorem forall_mem_dropLast_cons_iff {p : Formal} {ps : List Formal} {q : Formal → Prop} :
    (∀ a ∈ (p :: ps).dropLast, q a) ↔ (ps ≠ [] → q p) ∧ ∀ a ∈ ps.dropLast, q a := by
  cases ps <;> simp

theorem reads_formalsUntilClosed_iff {ps : List Formal} :
    Reads (formalsUntilClosed fuel n) s ps t ↔ ps.length < n ∧ (∀ p ∈ ps, p.Within fuel) ∧
      (∀ p ∈ ps.dropLast, p.bounds ≠ []) ∧ s.Past (ps.flatMap Formal.print ++ ['>']) t := by
  induction n generalizing s t ps with
  | zero =>
    rw [formalsUntilClosed, iff_false_left not_reads_fail]
    simp
  | succ n ih =>
    rw [formalsUntilClosed, reads_peek_bind_iff]
    constructor
    · intro h
      split at h
      case isTrue head =>
        simp only [reads_bump_bind_iff head, reads_pure_iff] at h
        obtain ⟨_, past, rfl, rfl⟩ := h
        exact ⟨Nat.succ_pos n, nofun, nofun, past⟩
      case isFalse =>
        obtain ⟨p, m, hp, h⟩ := reads_bind_iff.1 h
        obtain ⟨wp, pp, -, last⟩ := reads_formal_iff.1 hp
        rw [reads_peek_bind_iff] at h
        split at h
        case isTrue => exact (not_reads_fail h).elim
        case isFalse =>
          simp only [reads_bind_iff, reads_pure_iff, ih] at h
          obtain ⟨ps, _, ⟨short, w, bounded, past⟩, rfl, rfl⟩ := h
          refine ⟨Nat.succ_lt_succ short, List.forall_mem_cons.2 ⟨wp, w⟩,
            forall_mem_dropLast_cons_iff.2 ⟨?_, bounded⟩, ?_⟩
          -- Without a bound the closing angle came next, so no further parameter was read.
          · intro more none
            obtain ⟨c, cs, start, -, closing⟩ := formals_start w
            rw [start] at past
            rw [past.head, Option.some.injEq] at last
            exact more (closing.1 (last none))
          · rw [List.flatMap_cons, List.append_assoc]
            exact pp.append past
    · rintro ⟨short, w, bounded, past⟩
      cases ps with
      | nil =>
        rw [List.flatMap_nil, List.nil_append] at past
        rw [past.head, if_pos rfl]
        exact (reads_bump_bind_iff past.head).2 ⟨t, past, reads_pure_iff.2 ⟨rfl, rfl⟩⟩
      | cons p ps =>
        obtain ⟨c, cs, start, -, open_⟩ := formals_start w
        have head : s.rest.head? = some c := by
          rw [start] at past
          exact past.head
        rw [head, if_neg (by simpa using open_)]
        obtain ⟨wp, w⟩ := List.forall_mem_cons.1 w
        obtain ⟨bound, bounded⟩ := forall_mem_dropLast_cons_iff.1 bounded
        rw [List.flatMap_cons, List.append_assoc] at past
        obtain ⟨m, pp, past⟩ := Cursor.past_append_iff.1 past
        obtain ⟨d, ds, start', colon, closing⟩ := formals_start w
        have next : m.rest.head? = some d := by
          rw [start'] at past
          exact past.head
        refine reads_bind_iff.2 ⟨p, m, reads_formal_iff.2 ⟨wp, pp, ?_, ?_⟩, ?_⟩
        · simpa [next] using colon
        · intro none
          rw [next, Option.some.injEq, closing]
          exact Classical.not_not.1 fun more => bound more none
        · rw [reads_peek_bind_iff, next, if_neg (by simp)]
          simp only [reads_bind_iff, reads_pure_iff, ih]
          exact ⟨ps, t, ⟨Nat.lt_of_succ_lt_succ short, w, bounded, past⟩, rfl, rfl⟩

theorem reads_formals_iff {ps : List Formal} :
    Reads (formals n) s ps t ↔ FormalsWithin n ps ∧ s.Past (printFormals ps) t ∧
      (ps = [] → t.rest.head? ≠ some '<') := by
  rw [formals, reads_peek_bind_iff]
  constructor
  · intro h
    split at h
    case isTrue head =>
      simp only [reads_bump_bind_iff head, reads_bind_iff, reads_formalsUntilClosed_iff] at h
      obtain ⟨m, p₁, ps, _, ⟨short, w, bounded, past⟩, h⟩ := h
      cases ps with
      | nil => exact (not_reads_fail h).elim
      | cons p ps =>
        obtain ⟨rfl, rfl⟩ := reads_pure_iff.1 h
        refine ⟨⟨w, bounded, fun _ => short⟩, ?_, nofun⟩
        rw [printFormals, argList_of_ne_nil (by simp [Formal.print])]
        exact p₁.cons past
    case isFalse other =>
      obtain ⟨rfl, rfl⟩ := reads_pure_iff.1 h
      exact ⟨⟨nofun, nofun, nofun⟩, Cursor.past_nil_iff.2 rfl, fun _ => other⟩
  · rintro ⟨⟨w, bounded, short⟩, past, other⟩
    cases ps with
    | nil =>
      obtain rfl := Cursor.past_nil_iff.1 past
      rw [if_neg (other rfl)]
      exact reads_pure_iff.2 ⟨rfl, rfl⟩
    | cons p ps =>
      rw [printFormals, argList_of_ne_nil (by simp [Formal.print])] at past
      obtain ⟨m, p₁, past⟩ := Cursor.past_cons_iff.1 past
      rw [p₁.head, if_pos rfl]
      simp only [reads_bump_bind_iff p₁.head, reads_bind_iff, reads_formalsUntilClosed_iff]
      exact ⟨m, p₁, _, t, ⟨short (List.cons_ne_nil p ps), w, bounded, past⟩,
        reads_pure_iff.2 ⟨rfl, rfl⟩⟩

end Parser

end TeamRoles.Signature
