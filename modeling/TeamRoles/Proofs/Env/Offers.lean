import TeamRoles.Proofs.Env.Lasts

/-!
The methods of a type stay what they are once they have been resolved, with their links. What is known of
them when they are stored is therefore known in all later environments.
-/

namespace TeamRoles

open Env

variable {ℓ : Nat} {e e' : Env} {r : Option Abort} {b : BindingId} {list : List MethodId}

/-- All methods that have been resolved are as they were stored. -/
def Env.Offering (e : Env) : Prop :=
  ∀ b list, e.slot (.methods b) = .resolved list → e.Offers b list

theorem Env.Offers.of_settled (h : e.Offers b list) (size : e.methods.size ≤ e'.methods.size)
    (head : (e'.binding b).head = (e.binding b).head)
    (settled : ∀ m ∈ list, (e'.method m).settled = (e.method m).settled) : e'.Offers b list := by
  have ofType {α : Type} (g : Binding → α) (known : ∀ x, g (Binding.head x) = g x) :
      g (e'.binding b) = g (e.binding b) := by
    rw [← known, head, known]
  have same {α : Type} (g : Method → α) (known : ∀ x, g (Method.settled x) = g x) (m : MethodId)
      (mem : m ∈ list) : g (e'.method m) = g (e.method m) := by
    rw [← known, settled m mem, known]
  have name := same Method.name fun _ => rfl
  have declared := same Method.declared fun _ => rfl
  have woven := same Method.woven fun _ => rfl
  have origin := same Method.origin fun _ => rfl
  have isSurrogate := same Method.isSurrogate fun _ => rfl
  have isCallin := same Method.isCallin fun _ => rfl
  have surrogate := same Method.surrogate fun _ => rfl
  -- Each clause reads the methods only through parts that `settled` keeps.
  refine ⟨fun m mem => ?_, fun source => ?_, fun isRole m mem => ?_, fun isRole m hm n hn => ?_,
    fun isRole s mem c made => ?_⟩
  · obtain ⟨inside, declaring, proper⟩ := h.listed m mem
    refine ⟨Nat.lt_of_lt_of_le inside size, ?_, ?_⟩
    · rwa [same Method.declaring (fun _ => rfl) m mem]
    · rwa [same Method.isInstance (fun _ => rfl) m mem]
  · rw [ofType Binding.isSource fun _ => rfl] at source
    refine (h.distinct source).imp_of_mem fun {m n} hm hn differ => ?_
    rwa [Method.Clashes, Method.Alike, name m hm, name n hn, declared m hm, declared n hn,
      isSurrogate m hm, isSurrogate n hn]
  · rw [ofType Binding.isRole fun _ => rfl] at isRole
    rw [isCallin m mem, isSurrogate m mem, surrogate m mem]
    intro callin plain
    obtain ⟨s, hs, link, serves⟩ := h.paired isRole m mem callin plain
    refine ⟨s, hs, link, ?_⟩
    rwa [Method.Serves, name m mem, name s hs, declared s hs, woven m mem]
  · rw [ofType Binding.isRole fun _ => rfl] at isRole
    rw [isCallin m hm, isSurrogate m hm, isCallin n hn, isSurrogate n hn, surrogate m hm, surrogate n hn,
      Method.Shares, name m hm, name n hn, woven m hm, woven n hn]
    exact h.shared isRole m hm n hn
  · rw [ofType Binding.isRole fun _ => rfl] at isRole
    rw [origin s mem] at made
    obtain ⟨hc, params⟩ := h.made isRole s mem c made
    exact ⟨hc, by rw [declared s mem, woven c hc, params]⟩

theorem Env.Offers.of_lasts (h : e.Offers b list) (resolved : e.slot (.methods b) = .resolved list)
    (lasts : e.Lasts e') : e'.Offers b list := by
  refine h.of_settled lasts.methods.size (lasts.head b (has_of_resolved resolved (by simp))) fun m mem => ?_
  obtain ⟨inside, declaring, -⟩ := h.listed m mem
  refine lasts.methods.settled m list inside ?_
  rwa [declaring]

theorem Env.Offers.of_sameFrame (h : e.Offers b list) (same : e.SameFrame e') : e'.Offers b list := by
  have method (m : MethodId) : e'.method m = e.method m := by rw [method, same.methods, method]
  exact h.of_settled (Nat.le_of_eq (by rw [same.methods])) (same.head b) fun m _ => by rw [method]

theorem Env.Linked.of_methods (h : e.Linked) (same : e'.methods = e.methods)
    (kept : ∀ b list, e.slot (.methods b) = .resolved list → e'.slot (.methods b) = .resolved list)
    (listed : ∀ b list, e'.slot (.methods b) = .resolved list → ∀ m ∈ list, e.Owns b m) : e'.Linked := by
  have method (m : MethodId) : e'.method m = e.method m := by rw [method, same, method]
  have owns {b : BindingId} {m : MethodId} (h : e.Owns b m) : e'.Owns b m := h.of_lasts (.of_eq same)
  refine ⟨fun b list resolved m mem => owns (listed b list resolved m mem), fun m s => ?_, fun m s => ?_⟩
  · rw [method, method]
    intro link
    obtain ⟨⟨b, list, owned, resolved⟩, name⟩ := h.source m s link
    exact ⟨⟨b, list, owns owned, kept b list resolved⟩, name⟩
  · rw [method, method]
    exact fun link => (h.surrogate m s link).imp_left owns

theorem Step.methods_of_resolved (h : Step ℓ e e') (resolved : e'.slot (.methods b) = .resolved list) :
    e.slot (.methods b) = .resolved list ∨ list = [] := by
  cases h with
  | quiet same => exact .inl (by rwa [← same.slots])
  | declare _ _ bare | load _ _ _ bare =>
    exact .inl (by rwa [← slot_addBinding_of_bare (e := e) bare.eq])
  | @standIn name reason =>
    have stored : ((e.addBinding (.standIn name reason)).binding b).methods = .resolved list := resolved
    by_cases new : b = e.nextBinding
    · rw [new, binding_addBinding_self] at stored
      exact .inr (Slot.resolved.inj stored).symm
    · rw [binding_addBinding_of_ne new] at stored
      exact .inl stored
  | roleFile => exact .inl (by rwa [slot_addRoleFile] at resolved)
  | @store c v => cases c <;> exact .inl resolved
  | _ => exact .inl resolved

theorem Step.linked (h : Step ℓ e e') (linked : e.Linked) : e'.Linked := by
  have listed (b : BindingId) (list : List MethodId) (resolved : e'.slot (.methods b) = .resolved list) :
      ∀ m ∈ list, e.Owns b m := by
    rcases h.methods_of_resolved resolved with known | rfl
    · exact linked.listed b list known
    · nofun
  have kept (b : BindingId) (list : List MethodId) (known : e.slot (.methods b) = .resolved list) :
      e'.slot (.methods b) = .resolved list := h.lasts.resolved known
  cases h with
  | methods _ _ keeps => exact keeps linked
  | quiet same => exact linked.of_methods same.methods kept listed
  | @store c v => exact linked.of_methods (by cases c <;> rfl) kept listed
  | _ => exact linked.of_methods rfl kept listed

theorem Step.offering (h : Step ℓ e e') (offering : e.Offering) : e'.Offering := by
  intro b list resolved
  rcases h.methods_of_resolved resolved with known | rfl
  · exact (offering b list known).of_lasts known h.lasts
  · exact offers_nil

theorem Env.resolved_of_setSlot {p q : Part} {s : Slot p.Value} {v : q.Value} (has : e.Has p)
    (resolved : (e.setSlot p s).slot q = .resolved v) :
    e.slot q = .resolved v ∨ ∃ same : p = q, s = same ▸ .resolved v := by
  by_cases same : q = p
  · subst same
    exact .inr ⟨rfl, (slot_setSlot_self has).symm.trans resolved⟩
  · exact .inl (by rwa [slot_setSlot_of_ne same] at resolved)

theorem Env.resolved_setSlot {p q : Part} {s : Slot p.Value} {v : q.Value}
    (pending : ∀ v, e.slot p ≠ .resolved v) (resolved : e.slot q = .resolved v) :
    (e.setSlot p s).slot q = .resolved v := by
  rw [slot_setSlot_of_ne, resolved]
  rintro rfl
  exact pending v resolved

theorem Env.Linked.begin {p : Part} (linked : e.Linked) (has : e.Has p) (fresh : e.slot p = .unresolved) :
    (e.setSlot p .inProgress).Linked := by
  refine linked.of_methods sameFrame_setSlot.methods (fun b list => resolved_setSlot (by simp [fresh]))
    fun b list resolved => ?_
  rcases resolved_of_setSlot has resolved with known | ⟨rfl, none⟩
  · exact linked.listed b list known
  · cases none

theorem Runs.linked (h : Runs ℓ e r e') (linked : e.Linked) : e'.Linked := by
  refine h.keeps (I := Linked) Step.linked (fun p has fresh linked => linked.begin has fresh) ?_ linked
  rintro e p v has begun ⟨_, -, allows⟩ linked
  refine linked.of_methods sameFrame_setSlot.methods (fun b list => resolved_setSlot (by simp [begun]))
    fun b list resolved => ?_
  rcases resolved_of_setSlot has resolved with known | ⟨rfl, same⟩
  · exact linked.listed b list known
  · cases same
    exact allows.listed

theorem Runs.offering (h : Runs ℓ e r e') (offering : e.Offering) : e'.Offering := by
  refine h.keeps (I := Offering) Step.offering ?_ ?_ offering
  · intro e p has _ offering b list resolved
    rcases resolved_of_setSlot has resolved with known | ⟨rfl, none⟩
    · exact (offering b list known).of_sameFrame sameFrame_setSlot
    · cases none
  · rintro e p v has - ⟨_, -, allows⟩ offering b list resolved
    rcases resolved_of_setSlot has resolved with known | ⟨rfl, same⟩
    · exact (offering b list known).of_sameFrame sameFrame_setSlot
    · cases same
      exact Offers.of_sameFrame allows sameFrame_setSlot

end TeamRoles
