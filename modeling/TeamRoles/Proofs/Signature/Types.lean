import TeamRoles.Proofs.Signature.Reading

/-!
Reading of types. The five functions that read types call each other; with fuel `n` they read exactly
the well-formed values of depth at most `n`.
-/

namespace TeamRoles

theorem BaseType.ofCode?_eq_some_iff {c : Char} {b : BaseType} :
    BaseType.ofCode? c = some b ↔ b.code = c := by
  constructor
  · intro h
    simpa using List.find?_some h
  · rintro rfl
    cases b <;> rfl

namespace Signature

theorem TypeSig.print_starts (t : TypeSig) :
    ∃ c cs, t.print = c :: cs ∧ c ∉ [':', '>', '*', '+', '-', ')'] := by
  cases t with
  | base b => exact ⟨b.code, [], by rw [TypeSig.print], by cases b <;> decide⟩
  | cls segments => exact ⟨'L', _, by rw [TypeSig.print]; rfl, by decide⟩
  | var name => exact ⟨'T', _, by rw [TypeSig.print]; rfl, by decide⟩
  | array component => exact ⟨'[', _, by rw [TypeSig.print], by decide⟩

theorem printInner_starts (inner : List Segment) :
    ∃ c cs, printInner inner ++ [';'] = c :: cs ∧ c ∈ ['.', ';'] := by
  cases inner with
  | nil => exact ⟨';', [], by rw [printInner]; rfl, by decide⟩
  | cons segment inner =>
    cases segment with
    | mk name args => exact ⟨'.', _, by rw [printInner]; rfl, by decide⟩

theorem argList_starts (args : List TypeArg) (inner : List Segment) :
    ∃ c cs, argList (printArgs args) ++ (printInner inner ++ [';']) = c :: cs ∧
      c ∈ ['<', '.', ';'] := by
  cases args with
  | nil =>
    obtain ⟨c, cs, starts, hc⟩ := printInner_starts inner
    exact ⟨c, cs, by rw [printArgs, argList, List.nil_append, starts], List.mem_cons_of_mem _ hc⟩
  | cons arg args =>
    rw [argList_of_ne_nil (printArgs_cons_ne_nil arg args)]
    exact ⟨'<', _, rfl, by decide⟩

theorem argsDepth_cons_le_iff {n : Nat} {arg : TypeArg} {args : List TypeArg} :
    argsDepth (arg :: args) ≤ n + 1 ↔ arg.depth ≤ n ∧ argsDepth args ≤ n := by
  rw [argsDepth]
  omega

namespace Parser

variable {s t m : Cursor} {n : Nat}

structure ExactAt (n : Nat) : Prop where
  typeSig {s t : Cursor} {a : TypeSig} :
    Reads (typeSig n) s a t ↔ a.depth ≤ n ∧ a.WellFormed ∧ s.Past a.print t
  segments {s t : Cursor} {a : List Segment} :
    Reads (segments n) s a t ↔
      segmentsDepth a ≤ n ∧ SegmentsWellFormed a ∧ s.Past (printSegments a ++ [';']) t
  innerSegments {s t : Cursor} {a : List Segment} :
    Reads (innerSegments n) s a t ↔
      innerDepth a ≤ n ∧ InnerWellFormed a ∧ s.Past (printInner a ++ [';']) t
  typeArgs {s t : Cursor} {a : List TypeArg} :
    Reads (typeArgs n) s a t ↔ argListDepth a ≤ n ∧ ArgsWellFormed a ∧
      s.Past (argList (printArgs a)) t ∧ (a = [] → t.rest.head? ≠ some '<')
  argsUntilClosed {s t : Cursor} {a : List TypeArg} :
    Reads (argsUntilClosed n) s a t ↔
      argsDepth a ≤ n ∧ ArgsWellFormed a ∧ s.Past (printArgs a ++ ['>']) t

theorem exactAt_zero : ExactAt 0 where
  typeSig {_ _ a} := by
    rw [typeSig, iff_false_left not_reads_fail]
    cases a <;> simp [TypeSig.depth]
  segments {_ _ a} := by
    rw [segments, iff_false_left not_reads_fail]
    cases a with
    | nil => simp [SegmentsWellFormed]
    | cons segment inner =>
      cases segment
      simp [segmentsDepth]
  innerSegments {_ _ a} := by
    rw [innerSegments, iff_false_left not_reads_fail]
    cases a with
    | nil => simp [innerDepth]
    | cons segment inner =>
      cases segment
      simp [innerDepth]
  typeArgs {_ _ a} := by
    rw [typeArgs, iff_false_left not_reads_fail]
    cases a <;> simp [argListDepth]
  argsUntilClosed {_ _ a} := by
    rw [argsUntilClosed, iff_false_left not_reads_fail]
    cases a <;> simp [argsDepth]

theorem reads_tail_iff (exact : ExactAt n) {args : List TypeArg} {inner : List Segment} :
    (∃ m, Reads (typeArgs n) s args m ∧ Reads (innerSegments n) m inner t) ↔
      max (argListDepth args) (innerDepth inner) ≤ n ∧ ArgsWellFormed args ∧ InnerWellFormed inner ∧
        s.Past (argList (printArgs args) ++ (printInner inner ++ [';'])) t := by
  simp only [exact.typeArgs, exact.innerSegments, Nat.max_le]
  constructor
  · rintro ⟨m, ⟨da, wa, pa, -⟩, di, wi, pi⟩
    exact ⟨⟨da, di⟩, wa, wi, pa.append pi⟩
  · rintro ⟨⟨da, di⟩, wa, wi, past⟩
    obtain ⟨m, pa, pi⟩ := Cursor.past_append_iff.1 past
    refine ⟨m, ⟨da, wa, pa, ?_⟩, di, wi, pi⟩
    intro _ angle
    obtain ⟨c, cs, starts, hc⟩ := printInner_starts inner
    rw [starts] at pi
    obtain rfl : '<' = c := Option.some.inj (angle.symm.trans pi.head)
    exact absurd hc (by decide)

theorem stop_of_past_tail {args : List TypeArg} {inner : List Segment}
    (h : s.Past (argList (printArgs args) ++ (printInner inner ++ [';'])) t) :
    ∀ c, s.rest.head? = some c → c ∈ ['<', '.', ';'] := by
  intro c head
  obtain ⟨d, cs, starts, hd⟩ := argList_starts args inner
  rw [starts] at h
  obtain rfl : c = d := Option.some.inj (head.symm.trans h.head)
  exact hd

theorem reads_segments_succ_iff (exact : ExactAt n) {a : List Segment} :
    Reads (segments (n + 1)) s a t ↔
      segmentsDepth a ≤ n + 1 ∧ SegmentsWellFormed a ∧ s.Past (printSegments a ++ [';']) t := by
  simp only [segments, reads_bind_iff, reads_pure_iff]
  constructor
  · rintro ⟨path, m, hp, args, m', ha, inner, _, hi, rfl, rfl⟩
    obtain ⟨wn, pn, -⟩ := reads_path_iff.1 ⟨path, hp, rfl⟩
    obtain ⟨d, wa, wi, past⟩ := (reads_tail_iff exact).1 ⟨m', ha, hi⟩
    refine ⟨Nat.succ_le_succ d, ⟨wn, wa, wi⟩, ?_⟩
    rw [printSegments, List.append_assoc, List.append_assoc]
    exact pn.append past
  · cases a with
    | nil =>
      rintro ⟨-, h, -⟩
      exact h.elim
    | cons segment inner =>
      obtain ⟨name, args⟩ := segment
      rintro ⟨d, ⟨wn, wa, wi⟩, past⟩
      rw [printSegments, List.append_assoc, List.append_assoc] at past
      obtain ⟨m, pn, pt⟩ := Cursor.past_append_iff.1 past
      obtain ⟨path, hp, rfl⟩ := reads_path_iff.2 ⟨wn, pn, stop_of_past_tail pt⟩
      obtain ⟨m', ha, hi⟩ := (reads_tail_iff exact).2 ⟨Nat.le_of_succ_le_succ d, wa, wi, pt⟩
      exact ⟨path, m, hp, args, m', ha, inner, t, hi, rfl, rfl⟩

theorem reads_innerSegments_succ_iff (exact : ExactAt n) {a : List Segment} :
    Reads (innerSegments (n + 1)) s a t ↔
      innerDepth a ≤ n + 1 ∧ InnerWellFormed a ∧ s.Past (printInner a ++ [';']) t := by
  rw [innerSegments, reads_peek_bind_iff]
  constructor
  · intro h
    split at h
    case isTrue dot =>
      simp only [reads_bump_bind_iff dot, reads_bind_iff, reads_pure_iff] at h
      obtain ⟨m₁, p₁, name, m₂, hn, args, m₃, ha, inner, _, hi, rfl, rfl⟩ := h
      obtain ⟨wn, pn, -⟩ := reads_ident_iff.1 hn
      obtain ⟨d, wa, wi, past⟩ := (reads_tail_iff exact).1 ⟨m₃, ha, hi⟩
      refine ⟨Nat.succ_le_succ d, ⟨wn, wa, wi⟩, ?_⟩
      rw [printInner, String.toList_ofList, List.append_assoc, List.append_assoc]
      exact p₁.cons (pn.append past)
    case isFalse =>
      simp only [reads_bind_iff, reads_expect_iff, reads_pure_iff] at h
      obtain ⟨_, _, past, rfl, rfl⟩ := h
      exact ⟨by simp [innerDepth], trivial, past⟩
  · cases a with
    | nil =>
      rintro ⟨-, -, past⟩
      rw [printInner, List.nil_append] at past
      rw [past.head, if_neg (by decide)]
      simp only [reads_bind_iff, reads_expect_iff, reads_pure_iff]
      exact ⟨(), t, past, trivial, rfl⟩
    | cons segment inner =>
      obtain ⟨name, args⟩ := segment
      rintro ⟨d, ⟨wn, wa, wi⟩, past⟩
      rw [printInner, List.append_assoc, List.append_assoc] at past
      obtain ⟨m₁, p₁, p₂⟩ := Cursor.past_cons_iff.1 past
      obtain ⟨m₂, pn, pt⟩ := Cursor.past_append_iff.1 p₂
      obtain ⟨m₃, ha, hi⟩ := (reads_tail_iff exact).2 ⟨Nat.le_of_succ_le_succ d, wa, wi, pt⟩
      rw [p₁.head, if_pos rfl]
      simp only [reads_bump_bind_iff p₁.head, reads_bind_iff, reads_pure_iff, reads_ident_iff]
      refine ⟨m₁, p₁, name.toList, m₂, ⟨?_, pn, stop_of_past_tail pt⟩, args, m₃, ha, inner, t, hi,
        ?_, rfl⟩
      · rwa [String.ofList_toList]
      · rw [String.ofList_toList]

theorem reads_typeArgs_succ_iff (exact : ExactAt n) {a : List TypeArg} :
    Reads (typeArgs (n + 1)) s a t ↔ argListDepth a ≤ n + 1 ∧ ArgsWellFormed a ∧
      s.Past (argList (printArgs a)) t ∧ (a = [] → t.rest.head? ≠ some '<') := by
  rw [typeArgs, reads_peek_bind_iff]
  constructor
  · intro h
    split at h
    case isTrue angle =>
      simp only [reads_bump_bind_iff angle, reads_bind_iff, exact.argsUntilClosed] at h
      obtain ⟨m₁, p₁, args, m₂, ⟨d, wa, pa⟩, h⟩ := h
      cases args with
      | nil => exact (not_reads_fail h).elim
      | cons arg args =>
        obtain ⟨rfl, rfl⟩ := reads_pure_iff.1 h
        refine ⟨Nat.succ_le_succ d, wa, ?_, nofun⟩
        rw [argList_of_ne_nil (printArgs_cons_ne_nil arg args)]
        exact p₁.cons pa
    case isFalse other =>
      obtain ⟨rfl, rfl⟩ := reads_pure_iff.1 h
      exact ⟨by simp [argListDepth], trivial, Cursor.past_nil_iff.2 rfl, fun _ => other⟩
  · cases a with
    | nil =>
      rintro ⟨-, -, past, other⟩
      obtain rfl := Cursor.past_nil_iff.1 past
      rw [if_neg (other rfl)]
      exact reads_pure_iff.2 ⟨rfl, rfl⟩
    | cons arg args =>
      rintro ⟨d, wa, past, -⟩
      rw [argList_of_ne_nil (printArgs_cons_ne_nil arg args)] at past
      obtain ⟨m₁, p₁, pa⟩ := Cursor.past_cons_iff.1 past
      rw [p₁.head, if_pos rfl]
      simp only [reads_bump_bind_iff p₁.head, reads_bind_iff, exact.argsUntilClosed]
      rw [argListDepth] at d
      have d' : argsDepth (arg :: args) ≤ n := Nat.le_of_succ_le_succ d
      exact ⟨m₁, p₁, _, t, ⟨d', wa, pa⟩, reads_pure_iff.2 ⟨rfl, rfl⟩⟩

theorem past_args_cons {arg : TypeArg} {args : List TypeArg} (h : s.Past arg.print m)
    (h' : m.Past (printArgs args ++ ['>']) t) : s.Past (printArgs (arg :: args) ++ ['>']) t := by
  rw [printArgs, List.append_assoc]
  exact h.append h'

theorem argsUntilClosed_sound (exact : ExactAt n) {a : List TypeArg}
    (h : Reads (argsUntilClosed (n + 1)) s a t) :
    argsDepth a ≤ n + 1 ∧ ArgsWellFormed a ∧ s.Past (printArgs a ++ ['>']) t := by
  rw [argsUntilClosed, reads_peek_bind_iff] at h
  split at h
  case h_1 head =>
    simp only [reads_bump_bind_iff head, reads_pure_iff] at h
    obtain ⟨_, past, rfl, rfl⟩ := h
    exact ⟨by simp [argsDepth], trivial, past⟩
  case h_2 head =>
    simp only [reads_bump_bind_iff head, reads_bind_iff, reads_pure_iff, exact.argsUntilClosed] at h
    obtain ⟨_, p₁, args, _, ⟨d, w, past⟩, rfl, rfl⟩ := h
    exact ⟨argsDepth_cons_le_iff.2 ⟨Nat.zero_le n, d⟩, ⟨trivial, w⟩, past_args_cons p₁ past⟩
  case h_3 head =>
    simp only [reads_bump_bind_iff head, reads_bind_iff, reads_pure_iff, exact.argsUntilClosed,
      exact.typeSig] at h
    obtain ⟨_, p₁, bound, _, ⟨db, wb, pb⟩, args, _, ⟨d, w, past⟩, rfl, rfl⟩ := h
    exact ⟨argsDepth_cons_le_iff.2 ⟨db, d⟩, ⟨wb, w⟩, past_args_cons (p₁.cons pb) past⟩
  case h_4 head =>
    simp only [reads_bump_bind_iff head, reads_bind_iff, reads_pure_iff, exact.argsUntilClosed,
      exact.typeSig] at h
    obtain ⟨_, p₁, bound, _, ⟨db, wb, pb⟩, args, _, ⟨d, w, past⟩, rfl, rfl⟩ := h
    exact ⟨argsDepth_cons_le_iff.2 ⟨db, d⟩, ⟨wb, w⟩, past_args_cons (p₁.cons pb) past⟩
  case h_5 =>
    simp only [reads_bind_iff, reads_pure_iff, exact.argsUntilClosed, exact.typeSig] at h
    obtain ⟨type, _, ⟨db, wb, pb⟩, args, _, ⟨d, w, past⟩, rfl, rfl⟩ := h
    exact ⟨argsDepth_cons_le_iff.2 ⟨db, d⟩, ⟨wb, w⟩, past_args_cons pb past⟩
  case h_6 => exact (not_reads_fail h).elim

theorem argsUntilClosed_complete (exact : ExactAt n) {a : List TypeArg} (d : argsDepth a ≤ n + 1)
    (w : ArgsWellFormed a) (past : s.Past (printArgs a ++ ['>']) t) :
    Reads (argsUntilClosed (n + 1)) s a t := by
  rw [argsUntilClosed, reads_peek_bind_iff]
  cases a with
  | nil =>
    rw [printArgs, List.nil_append] at past
    rw [past.head]
    simp only [reads_bump_bind_iff past.head, reads_pure_iff]
    exact ⟨t, past, trivial, rfl⟩
  | cons arg args =>
    obtain ⟨da, dr⟩ := argsDepth_cons_le_iff.1 d
    obtain ⟨wa, wr⟩ := w
    rw [printArgs, List.append_assoc] at past
    obtain ⟨m, pa, pr⟩ := Cursor.past_append_iff.1 past
    match arg with
    | .any =>
      rw [TypeArg.print] at pa
      rw [pa.head]
      simp only [reads_bump_bind_iff pa.head, reads_bind_iff, reads_pure_iff, exact.argsUntilClosed]
      exact ⟨m, pa, args, t, ⟨dr, wr, pr⟩, rfl, rfl⟩
    | .extends bound =>
      rw [TypeArg.print] at pa
      obtain ⟨m', p₁, pb⟩ := Cursor.past_cons_iff.1 pa
      rw [p₁.head]
      simp only [reads_bump_bind_iff p₁.head, reads_bind_iff, reads_pure_iff, exact.argsUntilClosed,
        exact.typeSig]
      exact ⟨m', p₁, bound, m, ⟨da, wa, pb⟩, args, t, ⟨dr, wr, pr⟩, rfl, rfl⟩
    | .super bound =>
      rw [TypeArg.print] at pa
      obtain ⟨m', p₁, pb⟩ := Cursor.past_cons_iff.1 pa
      rw [p₁.head]
      simp only [reads_bump_bind_iff p₁.head, reads_bind_iff, reads_pure_iff, exact.argsUntilClosed,
        exact.typeSig]
      exact ⟨m', p₁, bound, m, ⟨da, wa, pb⟩, args, t, ⟨dr, wr, pr⟩, rfl, rfl⟩
    | .exact type =>
      rw [TypeArg.print] at pa
      obtain ⟨c, cs, starts, other⟩ := type.print_starts
      have head : s.rest.head? = some c := by
        rw [starts] at pa
        exact pa.head
      rw [head]
      split
      case h_5 =>
        simp only [reads_bind_iff, reads_pure_iff, exact.argsUntilClosed, exact.typeSig]
        exact ⟨type, m, ⟨da, wa, pa⟩, args, t, ⟨dr, wr, pr⟩, rfl, rfl⟩
      -- no type starts with the mark of a wildcard or with the closing angle
      all_goals simp_all

theorem typeSig_sound (exact : ExactAt n) {a : TypeSig} (h : Reads (typeSig (n + 1)) s a t) :
    a.depth ≤ n + 1 ∧ a.WellFormed ∧ s.Past a.print t := by
  rw [typeSig, reads_peek_bind_iff] at h
  split at h
  case h_1 head =>
    simp only [reads_bump_bind_iff head, reads_bind_iff, reads_pure_iff, exact.segments] at h
    obtain ⟨_, p₁, segments, _, ⟨d, w, past⟩, rfl, rfl⟩ := h
    exact ⟨Nat.succ_le_succ d, w, p₁.cons past⟩
  case h_2 head =>
    simp only [reads_bump_bind_iff head, reads_bind_iff, reads_pure_iff, reads_ident_iff,
      reads_expect_iff] at h
    obtain ⟨_, p₁, name, _, ⟨w, pn, -⟩, _, _, p₂, rfl, rfl⟩ := h
    refine ⟨by simp [TypeSig.depth], w, ?_⟩
    rw [TypeSig.print, String.toList_ofList]
    exact p₁.cons (pn.append p₂)
  case h_3 head =>
    simp only [reads_bump_bind_iff head, reads_bind_iff, reads_pure_iff, exact.typeSig] at h
    obtain ⟨_, p₁, component, _, ⟨d, w, past⟩, rfl, rfl⟩ := h
    exact ⟨Nat.succ_le_succ d, w, p₁.cons past⟩
  case h_4 c _ _ _ head =>
    cases code : BaseType.ofCode? c with
    | none =>
      rw [code] at h
      exact (not_reads_fail h).elim
    | some b =>
      simp only [code, reads_bump_bind_iff head, reads_pure_iff] at h
      obtain ⟨_, past, rfl, rfl⟩ := h
      refine ⟨by simp [TypeSig.depth], trivial, ?_⟩
      rw [TypeSig.print, BaseType.ofCode?_eq_some_iff.1 code]
      exact past
  case h_5 => exact (not_reads_fail h).elim

theorem typeSig_complete (exact : ExactAt n) {a : TypeSig} (d : a.depth ≤ n + 1)
    (w : a.WellFormed) (past : s.Past a.print t) : Reads (typeSig (n + 1)) s a t := by
  rw [typeSig, reads_peek_bind_iff]
  cases a with
  | base b =>
    rw [TypeSig.print] at past
    have code : BaseType.ofCode? b.code = some b := BaseType.ofCode?_eq_some_iff.2 rfl
    rw [past.head]
    split
    case h_4 c _ _ _ head =>
      obtain rfl : b.code = c := Option.some.inj head
      rw [code]
      exact (reads_bump_bind_iff past.head).2 ⟨t, past, reads_pure_iff.2 ⟨rfl, rfl⟩⟩
    -- no base type has the letter of another kind of type
    all_goals cases b <;> simp_all [BaseType.code]
  | cls segments =>
    rw [TypeSig.print] at past
    obtain ⟨m, p₁, ps⟩ := Cursor.past_cons_iff.1 past
    rw [p₁.head]
    simp only [reads_bump_bind_iff p₁.head, reads_bind_iff, reads_pure_iff, exact.segments]
    exact ⟨m, p₁, segments, t, ⟨Nat.le_of_succ_le_succ d, w, ps⟩, rfl, rfl⟩
  | var name =>
    rw [TypeSig.print] at past
    obtain ⟨m, p₁, past⟩ := Cursor.past_cons_iff.1 past
    obtain ⟨m', pn, p₂⟩ := Cursor.past_append_iff.1 past
    have stop : ∀ c, m'.rest.head? = some c → c ∈ [';'] := by
      intro c head
      rw [p₂.head, Option.some.injEq] at head
      rw [← head]
      exact List.mem_singleton_self _
    rw [p₁.head]
    simp only [reads_bump_bind_iff p₁.head, reads_bind_iff, reads_pure_iff, reads_ident_iff,
      reads_expect_iff]
    refine ⟨m, p₁, name.toList, m', ⟨?_, pn, stop⟩, (), t, p₂, ?_, rfl⟩
    · rwa [String.ofList_toList]
    · rw [String.ofList_toList]
  | array component =>
    rw [TypeSig.print] at past
    obtain ⟨m, p₁, pc⟩ := Cursor.past_cons_iff.1 past
    rw [p₁.head]
    simp only [reads_bump_bind_iff p₁.head, reads_bind_iff, reads_pure_iff, exact.typeSig]
    exact ⟨m, p₁, component, t, ⟨Nat.le_of_succ_le_succ d, w, pc⟩, rfl, rfl⟩

theorem exactAt (n : Nat) : ExactAt n := by
  induction n with
  | zero => exact exactAt_zero
  | succ n ih =>
    exact
      { typeSig := ⟨typeSig_sound ih, fun ⟨d, w, past⟩ => typeSig_complete ih d w past⟩
        segments := reads_segments_succ_iff ih
        innerSegments := reads_innerSegments_succ_iff ih
        typeArgs := reads_typeArgs_succ_iff ih
        argsUntilClosed :=
          ⟨argsUntilClosed_sound ih, fun ⟨d, w, past⟩ => argsUntilClosed_complete ih d w past⟩ }

end Parser

end Signature

end TeamRoles
