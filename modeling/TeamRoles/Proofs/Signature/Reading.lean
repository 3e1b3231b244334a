import Mathlib.Data.List.TakeWhile
import TeamRoles.Signature.Parser
import TeamRoles.Proofs.Signature.WellFormed

/-!
What the parser of signatures reads. Each function of the parser reads a well-formed value exactly
where the value is printed, and leaves the cursor right behind it. Where the grammar is decided by the
next character, the character is part of the statement.
-/

namespace TeamRoles.Signature

variable {α β : Type}

namespace Parser

theorem foldl_width (k : Nat) (cs : List Char) :
    cs.foldl (fun n c => n + c.utf8Size) k = k + width cs := by
  induction cs generalizing k with
  | nil => rfl
  | cons c cs ih =>
    simp only [width, List.foldl_cons, Nat.zero_add]
    rw [ih, ih c.utf8Size, Nat.add_assoc]

theorem width_append (xs ys : List Char) : width (xs ++ ys) = width xs + width ys := by
  rw [width, List.foldl_append, foldl_width]
  rfl

end Parser

def Cursor.Past (s : Cursor) (cs : List Char) (t : Cursor) : Prop :=
  s.rest = cs ++ t.rest ∧ t.offset = s.offset + Parser.width cs

namespace Cursor

variable {s t : Cursor} {x : Char} {cs ds : List Char}

theorem past_nil_iff : s.Past [] t ↔ t = s := by
  cases s
  cases t
  simp [Past, Parser.width, eq_comm, and_comm]

theorem past_append_iff : s.Past (cs ++ ds) t ↔ ∃ m, s.Past cs m ∧ m.Past ds t := by
  constructor
  · rintro ⟨hr, ho⟩
    refine ⟨⟨s.offset + Parser.width cs, ds ++ t.rest⟩, ⟨?_, rfl⟩, rfl, ?_⟩
    · rw [hr, List.append_assoc]
    · rw [ho, Parser.width_append, Nat.add_assoc]
  · rintro ⟨m, ⟨hr, ho⟩, hr', ho'⟩
    constructor
    · rw [hr, hr', List.append_assoc]
    · rw [ho', ho, Parser.width_append, Nat.add_assoc]

theorem past_cons_iff : s.Past (x :: cs) t ↔ ∃ m, s.Past [x] m ∧ m.Past cs t :=
  @past_append_iff s t [x] cs

theorem Past.append {m : Cursor} (h : s.Past cs m) (h' : m.Past ds t) : s.Past (cs ++ ds) t :=
  past_append_iff.2 ⟨m, h, h'⟩

theorem Past.cons {m : Cursor} (h : s.Past [x] m) (h' : m.Past cs t) : s.Past (x :: cs) t :=
  past_cons_iff.2 ⟨m, h, h'⟩

theorem Past.head (h : s.Past (x :: cs) t) : s.rest.head? = some x := by
  rw [h.1]
  rfl

end Cursor

namespace Parser

/-- The value `a` is read on the way from `s` to `t`. -/
def Reads (p : Parser α) (s : Cursor) (a : α) (t : Cursor) : Prop := p.run s = .ok (a, t)

variable {s t : Cursor} {p : Parser α} {a b : α}

theorem reads_pure_iff : Reads (pure a) s b t ↔ b = a ∧ t = s := by
  change Except.ok (a, s) = Except.ok (b, t) ↔ _
  simp only [Except.ok.injEq, Prod.mk.injEq]
  exact and_congr eq_comm eq_comm

theorem reads_bind_iff {f : α → Parser β} {b : β} :
    Reads (p >>= f) s b t ↔ ∃ a m, Reads p s a m ∧ Reads (f a) m b t := by
  simp only [Reads, StateT.run_bind]
  cases p.run s with
  | error e =>
    constructor
    · intro h
      cases h
    · rintro ⟨_, _, h, _⟩
      cases h
  | ok r =>
    constructor
    · intro h
      exact ⟨r.1, r.2, rfl, h⟩
    · rintro ⟨_, _, h, h'⟩
      cases h
      exact h'

theorem not_reads_fail {e : Expected} : ¬Reads (fail e : Parser α) s a t := by
  intro h
  cases h

theorem reads_peek_iff {o : Option Char} : Reads peek s o t ↔ o = s.rest.head? ∧ t = s :=
  reads_pure_iff (a := s.rest.head?)

theorem reads_peek_bind_iff {f : Option Char → Parser α} :
    Reads (peek >>= f) s a t ↔ Reads (f s.rest.head?) s a t := by
  rw [reads_bind_iff]
  constructor
  · rintro ⟨_, _, hp, h⟩
    obtain ⟨rfl, rfl⟩ := reads_peek_iff.1 hp
    exact h
  · intro h
    exact ⟨_, _, reads_peek_iff.2 ⟨rfl, rfl⟩, h⟩

theorem reads_bump_iff {x : Char} {u : Unit} (h : s.rest.head? = some x) :
    Reads bump s u t ↔ s.Past [x] t := by
  cases s with
  | mk offset rest =>
    cases rest with
    | nil => cases h
    | cons y rest =>
      cases h
      change Except.ok ((), Cursor.mk (offset + x.utf8Size) rest) = Except.ok (u, t) ↔ _
      cases t
      simp [Cursor.Past, width, eq_comm, and_comm]

theorem reads_bump_bind_iff {x : Char} {f : Unit → Parser α} (h : s.rest.head? = some x) :
    Reads (bump >>= f) s a t ↔ ∃ m, s.Past [x] m ∧ Reads (f ()) m a t := by
  simp only [reads_bind_iff, reads_bump_iff h]
  constructor
  · rintro ⟨_, m, hm⟩
    exact ⟨m, hm⟩
  · rintro ⟨m, hm⟩
    exact ⟨(), m, hm⟩

theorem reads_expect_iff {x : Char} {e : Expected} {u : Unit} :
    Reads (expect x e) s u t ↔ s.Past [x] t := by
  rw [expect, reads_peek_bind_iff]
  constructor
  · intro h
    split at h
    case isTrue head => exact (reads_bump_iff head).1 h
    case isFalse => exact (not_reads_fail h).elim
  · intro h
    rw [if_pos h.head]
    exact (reads_bump_iff h.head).2 h

theorem reads_takeRun_iff {q : Char → Bool} {cs : List Char} :
    Reads (takeRun q) s cs t ↔
      (∀ c ∈ cs, q c) ∧ s.Past cs t ∧ ∀ c, t.rest.head? = some c → ¬q c := by
  change Except.ok (s.rest.takeWhile q, Cursor.mk (s.offset + width (s.rest.takeWhile q))
    (s.rest.dropWhile q)) = Except.ok (cs, t) ↔ _
  constructor
  · intro h
    cases h
    refine ⟨fun c => List.mem_takeWhile_imp, ⟨List.takeWhile_append_dropWhile.symm, rfl⟩, ?_⟩
    intro c head
    have stop := List.head?_dropWhile_not q s.rest
    rw [head] at stop
    simp [stop]
  · rintro ⟨all, ⟨hr, ho⟩, stop⟩
    have taken : t.rest.takeWhile q = [] := by
      cases h : t.rest with
      | nil => rfl
      | cons c rest => exact List.takeWhile_cons_of_neg (stop c (by rw [h]; rfl))
    have split := List.takeWhile_append_dropWhile (p := q) (l := t.rest)
    rw [taken, List.nil_append] at split
    rw [hr, List.takeWhile_append_of_pos all, List.dropWhile_append_of_pos all, taken, split,
      List.append_nil, ← ho]

theorem reads_ident_iff {marks name : List Char} :
    Reads (ident marks) s name t ↔ NameWithout marks (String.ofList name) ∧ s.Past name t ∧
      ∀ c, t.rest.head? = some c → c ∈ marks := by
  simp only [ident, reads_bind_iff, reads_takeRun_iff, NameWithout, String.toList_ofList]
  constructor
  · rintro ⟨cs, m, ⟨all, past, stop⟩, h⟩
    split at h
    case isTrue => exact (not_reads_fail h).elim
    case isFalse some =>
      obtain ⟨rfl, rfl⟩ := reads_pure_iff.1 h
      refine ⟨⟨?_, ?_⟩, past, ?_⟩
      · simpa using some
      · simpa using all
      · simpa using stop
  · rintro ⟨⟨some, all⟩, past, stop⟩
    refine ⟨name, t, ⟨?_, past, ?_⟩, ?_⟩
    · simpa using all
    · simpa using stop
    · rw [if_neg (by simpa using some)]
      exact reads_pure_iff.2 ⟨rfl, rfl⟩

theorem slashes_dots {path : List Char} (h : '.' ∉ path) : slashes (dots path) = path := by
  rw [slashes, dots, String.toList_ofList, List.map_map]
  refine (List.map_congr_left ?_).trans (List.map_id path)
  intro c hc
  have dot : c ≠ '.' := by
    rintro rfl
    exact h hc
  by_cases slash : c = '/' <;> simp [slash, dot]

theorem dots_slashes {name : String} (h : '/' ∉ name.toList) : dots (slashes name) = name := by
  rw [dots, slashes, List.map_map, ← String.toList_inj, String.toList_ofList]
  refine (List.map_congr_left ?_).trans (List.map_id name.toList)
  intro c hc
  have slash : c ≠ '/' := by
    rintro rfl
    exact h hc
  by_cases dot : c = '.' <;> simp [slash, dot]

theorem nameWithout_dots {path : List Char} (h : NameWithout ['<', '.', ';'] (String.ofList path)) :
    NameWithout ['<', ';', '/'] (dots path) := by
  obtain ⟨some, all⟩ := h
  rw [String.toList_ofList] at all
  constructor
  · simpa [dots] using some
  · intro c hc
    rw [dots, String.toList_ofList, List.mem_map] at hc
    obtain ⟨d, hd, rfl⟩ := hc
    have := all d hd
    by_cases slash : d = '/' <;> simp_all

theorem nameWithout_slashes {name : String} (h : NameWithout ['<', ';', '/'] name) :
    NameWithout ['<', '.', ';'] (String.ofList (slashes name)) := by
  obtain ⟨some, all⟩ := h
  constructor
  · simpa [slashes] using some
  · intro c hc
    rw [String.toList_ofList, slashes, List.mem_map] at hc
    obtain ⟨d, hd, rfl⟩ := hc
    have := all d hd
    by_cases dot : d = '.' <;> simp_all

theorem reads_path_iff {name : String} :
    (∃ path, Reads (ident ['<', '.', ';']) s path t ∧ name = dots path) ↔
      NameWithout ['<', ';', '/'] name ∧ s.Past (slashes name) t ∧
        ∀ c, t.rest.head? = some c → c ∈ ['<', '.', ';'] := by
  simp only [reads_ident_iff]
  constructor
  · rintro ⟨path, ⟨ok, past, stop⟩, rfl⟩
    have plain : '.' ∉ path := by
      intro dot
      exact ok.2 '.' (by rwa [String.toList_ofList]) (by decide)
    exact ⟨nameWithout_dots ok, by rwa [slashes_dots plain], stop⟩
  · rintro ⟨ok, past, stop⟩
    have plain : '/' ∉ name.toList := by
      intro slash
      exact ok.2 '/' slash (by decide)
    exact ⟨slashes name, ⟨nameWithout_slashes ok, past, stop⟩, (dots_slashes plain).symm⟩

end Parser

end TeamRoles.Signature
