import Mathlib.Data.List.Basic
import Mathlib.Data.List.Find
import TeamRoles.Proofs.Lawful.Methods

/-!
The surrogates of a role. Each callin method is linked to a method of the role that has its surrogate's
name and as many parameters: one that is there already, or a new one with the parameters of the callin
method. With them the methods of a type are complete.
-/

namespace TeamRoles

namespace Name

theorem toList_surrogate {method : String} :
    (surrogate method).toList = generated.toList ++ method.toList ++ surrogateEnd.toList := by
  simp [surrogate]

theorem surrogate_injective {m n : String} (h : surrogate m = surrogate n) : m = n := by
  have lists := congrArg String.toList h
  rw [toList_surrogate, toList_surrogate] at lists
  exact String.toList_injective (List.append_cancel_left (List.append_cancel_right lists))

theorem eq_surrogate {name method : String} (h : surrogateTarget? name = some method) :
    name = surrogate method := by
  simp only [surrogateTarget?, Option.bind_eq_bind, Option.bind_eq_some_iff] at h
  obtain ⟨rest, front, target, back, named⟩ := h
  have same : target = method := by
    split at named
    · cases named
    · exact Option.some.inj named
  subst same
  obtain ⟨tail, start, rfl⟩ := Option.map_eq_some_iff.1 front
  obtain ⟨middle, stop, rfl⟩ := Option.map_eq_some_iff.1 back
  rw [List.isPrefixOf?_eq_some_iff_append_eq] at start
  rw [List.isSuffixOf?_eq_some_iff_append_eq] at stop
  apply String.toList_injective
  rw [toList_surrogate, ← start, String.toList_ofList, List.append_assoc, stop, String.toList_ofList]

end Name

namespace Env

/-- The callin method and its surrogate are methods of a type that is not complete yet. -/
structure MayLink (e : Env) (b : BindingId) (callin s : MethodId) : Prop where
  pending : e.slot (.methods b) = .inProgress
  owns : e.Owns b callin
  surrogate : e.Owns b s
  name : (e.method s).name = Name.surrogate (e.method callin).name

structure Links (callin s : MethodId) (e e' : Env) : Prop where
  lasts : e.Lasts e'
  self : (e'.method callin).surrogate = some s
  other : ∀ m, m ≠ callin → (e'.method m).surrogate = (e.method m).surrogate

section Links

variable {e e' : Env} {b : BindingId} {callin s m : MethodId} {f : Method → Method}

theorem Lasts.ne_resolved (h : e.Lasts e') (pending : e.slot (.methods b) = .inProgress)
    (owns : e.Owns b m) (list : List MethodId) :
    e'.slot (.methods (e'.method m).declaring) ≠ .resolved list := by
  rw [(owns.of_lasts h.methods).declaring, h.slots _ (by simp [pending]), pending]
  nofun

theorem Links.of_update (lasts : e.MethodsLast (e.updateMethod callin f))
    (inside : callin.index < e.methods.size) (links : ∀ x, (f x).surrogate = some s) : Links callin s e (e.updateMethod callin f) := by
  refine ⟨.of_methods lasts, ?_, fun m differ => ?_⟩
  · rw [method_updateMethod, if_pos ⟨rfl, inside⟩, links]
  · rw [method_updateMethod_of_ne differ]

theorem Links.update (h : Links callin s e e') (lasts : e'.MethodsLast (e'.updateMethod m f))
    (kept : ∀ x, (f x).surrogate = x.surrogate) : Links callin s e (e'.updateMethod m f) := by
  have same (n : MethodId) : ((e'.updateMethod m f).method n).surrogate = (e'.method n).surrogate :=
    method_updateMethod_proj (kept _)
  refine ⟨h.lasts.trans (.of_methods lasts), (same callin).trans h.self, fun n differ => ?_⟩
  exact (same n).trans (h.other n differ)

theorem Linked.settled_surrogate {source : MethodId} (h : e.Linked)
    (copied : (e.method callin).copySource = some source)
    (link : (e.method source).surrogate = some s) :
    e.IsSettled s ∧ (e.method s).name = Name.surrogate (e.method callin).name := by
  obtain ⟨⟨b, list, owns, resolved⟩, name⟩ := h.source callin source copied
  obtain ⟨owns', name'⟩ := h.surrogate source s link
  rw [owns.declaring] at owns'
  exact ⟨⟨b, list, owns', resolved⟩, by rw [name', name]⟩

end Links

end Env

namespace Resolve

variable {ℓ : Nat} {x : Binding} {b : BindingId} {callin s : MethodId} {list callins : List MethodId}
  {e e' : Env}

theorem linkSurrogate_triple {start : Env} (may : start.MayLink b callin s) :
    Triple (ℓ + 5) (fun e => e = start) (linkSurrogate callin s)
      fun _ e => Env.Links callin s start e := by
  refine .bind ((updateMethod_triple (Q := Env.Links callin s start)).pre ?_) fun _ => .get_bind fun _ => ?_
  · rintro _ rfl
    have pending := (Env.Lasts.refl _).ne_resolved may.pending may.owns
    refine ⟨⟨rfl, .inr pending, fun h => ?_⟩, .of_update ?_ may.owns.inside fun _ => rfl⟩
    · refine h.update rfl (h.source callin) ?_
      rintro _ ⟨⟩
      rw [may.owns.declaring]
      exact ⟨may.surrogate, may.name⟩
    · exact .update rfl (.inr pending)
  · refine updateMethod_triple.pre ?_
    rintro e ⟨rfl, links⟩
    have pending := links.lasts.ne_resolved may.pending may.surrogate
    refine ⟨⟨rfl, .inr pending, fun h => ?_⟩, links.update ?_ fun _ => rfl⟩
    · refine h.update rfl ?_ (h.surrogate s)
      intro t copied
      rw [Option.orElse_eq_orElse, Option.orElse_eq_or, Option.or_eq_some_iff] at copied
      rcases copied with link | ⟨-, link⟩
      · obtain ⟨source, copied, link⟩ := Option.bind_eq_some_iff.1 link
        obtain ⟨settled, name⟩ := h.settled_surrogate copied link
        have named : (e.method s).name = Name.surrogate (e.method callin).name := by
          rw [links.lasts.methods.proj_eq (g := Method.name) may.surrogate.inside fun _ => rfl,
            links.lasts.methods.proj_eq (g := Method.name) may.owns.inside fun _ => rfl, may.name]
        exact ⟨settled, name.trans named.symm⟩
      · exact h.source s t link
    · exact .update rfl (.inr pending)

/-- The methods of a role while surrogates are attached to its callin methods. -/
structure Attaches (x : Binding) (b : BindingId) (callins list : List MethodId) (e : Env) : Prop
    extends Gathers x b list e where
  known : ∀ c ∈ callins, c ∈ list
  complete : ∀ m ∈ list, (e.method m).isCallin = true → (e.method m).isSurrogate = false → m ∈ callins
  distinct : x.isSource = true → list.Pairwise fun m n => ¬ (e.method m).Clashes (e.method n)
  made : ∀ m ∈ list, ∀ c, (e.method m).origin = .surrogate c →
    c ∈ list ∧ (e.method m).declared = (e.method c).woven

/-- The method is the one that the callin method is linked to: the one that is found, or a new one. -/
structure Suits (list : List MethodId) (callin s : MethodId) (e : Env) : Prop where
  serves : (e.method s).Serves (e.method callin)
  found : Name.isSurrogate (Name.surrogate (e.method callin).name) = true →
    e.existingSurrogate? list callin = some s
  made : Name.isSurrogate (Name.surrogate (e.method callin).name) = false →
    (e.method s).origin = .surrogate callin

def Paired (done list : List MethodId) (e : Env) : Prop :=
  ∀ c ∈ done, c ∈ list ∧ ∃ s ∈ list, (e.method c).surrogate = some s ∧ Suits list c s e

variable {done : List MethodId}

theorem Gathers.serves_iff (h : Gathers x b list e) (lasts : e.Lasts e') (hs : s ∈ list)
    (hc : callin ∈ list) :
    (e'.method s).Serves (e'.method callin) ↔ (e.method s).Serves (e.method callin) := by
  rw [Method.Serves, h.proj_eq (g := Method.name) lasts hs fun _ => rfl,
    h.proj_eq (g := Method.name) lasts hc fun _ => rfl,
    h.proj_eq (g := Method.declared) lasts hs fun _ => rfl,
    h.proj_eq (g := Method.woven) lasts hc fun _ => rfl, Method.Serves]

theorem Gathers.existingSurrogate?_eq (h : Gathers x b list e) (lasts : e.Lasts e')
    (hc : callin ∈ list) : e'.existingSurrogate? list callin = e.existingSurrogate? list callin := by
  refine List.find?_congr fun s hs => ?_
  dsimp only
  rw [h.proj_eq (g := Method.name) lasts hs fun _ => rfl,
    h.proj_eq (g := Method.name) lasts hc fun _ => rfl,
    h.proj_eq (g := Method.declared) lasts hs fun _ => rfl,
    h.proj_eq (g := Method.woven) lasts hc fun _ => rfl]

theorem Suits.of_lasts (h : Suits list callin s e) (gathers : Gathers x b list e)
    (lasts : e.Lasts e') (hs : s ∈ list) (hc : callin ∈ list) : Suits list callin s e' where
  serves := (gathers.serves_iff lasts hs hc).2 h.serves
  found recognised := by
    rw [gathers.proj_eq (g := Method.name) lasts hc fun _ => rfl] at recognised
    rw [gathers.existingSurrogate?_eq lasts hc, h.found recognised]
  made unrecognised := by
    rw [gathers.proj_eq (g := Method.name) lasts hc fun _ => rfl] at unrecognised
    rw [gathers.proj_eq (g := Method.origin) lasts hs fun _ => rfl, h.made unrecognised]

theorem Suits.append {n : MethodId} (h : Suits list callin s e) : Suits (list ++ [n]) callin s e where
  serves := h.serves
  found recognised := by
    have found := h.found recognised
    rw [Env.existingSurrogate?] at found ⊢
    rw [List.find?_append, found, Option.some_or]
  made := h.made

theorem Paired.of_lasts (h : Paired done list e) (gathers : Gathers x b list e) (lasts : e.Lasts e')
    (same : ∀ m ∈ list, (e'.method m).surrogate = (e.method m).surrogate) : Paired done list e' := by
  intro c mem
  obtain ⟨hc, s, hs, link, suits⟩ := h c mem
  exact ⟨hc, s, hs, (same c hc).trans link, suits.of_lasts gathers lasts hs hc⟩

theorem Paired.append (h : Paired done list e) : Paired done (list ++ [s]) e := by
  intro c mem
  obtain ⟨hc, t, ht, link, suits⟩ := h c mem
  exact ⟨List.mem_append_left _ hc, t, List.mem_append_left _ ht, link, suits.append⟩

theorem Paired.links (h : Paired done list e) (gathers : Gathers x b list e) (hs : s ∈ list)
    (hc : callin ∈ list) (suits : Suits list callin s e) (links : Env.Links callin s e e') :
    Paired (done ++ [callin]) list e' := by
  intro c mem
  by_cases same : c = callin
  · subst same
    exact ⟨hc, s, hs, links.self, suits.of_lasts gathers links.lasts hs hc⟩
  · obtain ⟨hc, t, ht, link, suits⟩ := h c (by simpa [same] using mem)
    exact ⟨hc, t, ht, (links.other c same).trans link, suits.of_lasts gathers links.lasts ht hc⟩

theorem Paired.shared {m n : MethodId} (h : Paired done list e) (hm : m ∈ done) (hn : n ∈ done)
    (differ : m ≠ n) : (e.method m).surrogate = (e.method n).surrogate ↔
      (e.method m).Shares (e.method n) := by
  obtain ⟨-, s, -, link, suits⟩ := h m hm
  obtain ⟨-, t, -, link', suits'⟩ := h n hn
  rw [link, link', Option.some_inj]
  constructor
  · rintro rfl
    have name : (e.method m).name = (e.method n).name :=
      Name.surrogate_injective (suits.serves.1.symm.trans suits'.serves.1)
    refine ⟨name, suits.serves.2.symm.trans suits'.serves.2, ?_⟩
    by_contra unrecognised
    have made := suits.made (Bool.eq_false_iff.2 unrecognised)
    rw [suits'.made (by rw [← name]; exact Bool.eq_false_iff.2 unrecognised)] at made
    exact differ (MethodOrigin.surrogate.inj made).symm
  · rintro ⟨name, arity, recognised⟩
    have found := suits.found recognised
    have found' := suits'.found (by rwa [← name])
    rw [Env.existingSurrogate?] at found found'
    rw [name, arity, found'] at found
    exact (Option.some.inj found).symm

theorem Attaches.of_lasts (h : Attaches x b callins list e) (lasts : e.Lasts e') :
    Attaches x b callins list e' where
  toGathers := h.toGathers.of_lasts lasts
  known := h.known
  complete m mem := by
    rw [h.proj_eq (g := Method.isCallin) lasts mem fun _ => rfl,
      h.proj_eq (g := Method.isSurrogate) lasts mem fun _ => rfl]
    exact h.complete m mem
  distinct source := by
    refine (h.distinct source).imp_of_mem fun {m n} hm hn differ => ?_
    have clash (m : MethodId) (hm : m ∈ list) :=
      h.proj_eq (g := fun x => (x.name, x.declared, x.isSurrogate)) lasts hm fun _ => rfl
    grind [Method.Clashes, Method.Alike]
  made m mem c origin := by
    rw [h.proj_eq (g := Method.origin) lasts mem fun _ => rfl] at origin
    obtain ⟨hc, declared⟩ := h.made m mem c origin
    refine ⟨hc, ?_⟩
    rwa [h.proj_eq (g := Method.declared) lasts mem fun _ => rfl,
      h.proj_eq (g := Method.woven) lasts hc fun _ => rfl]

theorem Attaches.append {y : Method} (h : Attaches x b callins list e) (made : Made b y s e)
    (origin : y.origin = .surrogate callin) (hc : callin ∈ list)
    (name : y.name = Name.surrogate (e.method callin).name)
    (declared : y.declared = (e.method callin).woven)
    (new : ∀ n ∈ list, Name.isSurrogate (e.method n).name = true →
      ¬ (e.method n).Serves (e.method callin)) : Attaches x b callins (list ++ [s]) e where
  toGathers := h.toGathers.append made.owns
  known c mem := List.mem_append_left _ (h.known c mem)
  complete m mem isCallin plain := by
    rcases List.mem_append.1 mem with mem | mem
    · exact h.complete m mem isCallin plain
    · rw [List.mem_singleton.1 mem, Method.isSurrogate, made.origin, origin] at plain
      cases plain
  distinct source := by
    refine List.pairwise_append.2 ⟨h.distinct source, List.pairwise_singleton _ _, ?_⟩
    rintro n hn _ (_ | ⟨_, ⟨⟩⟩) ⟨alike, recognised | ⟨-, plain⟩⟩
    · refine new n hn recognised ⟨?_, ?_⟩
      · rw [alike.1, made.name, name]
      · rw [alike.2, made.declared, declared]
    · rw [Method.isSurrogate, made.origin, origin] at plain
      cases plain
  made m mem c isSurrogate := by
    rcases List.mem_append.1 mem with mem | mem
    · obtain ⟨hc, declared⟩ := h.made m mem c isSurrogate
      exact ⟨List.mem_append_left _ hc, declared⟩
    · obtain rfl := List.mem_singleton.1 mem
      rw [made.origin, origin] at isSurrogate
      cases isSurrogate
      exact ⟨List.mem_append_left _ hc, by rw [made.declared, declared]⟩

theorem suits_of_existing (existing : e.existingSurrogate? list callin = some s) :
    s ∈ list ∧ Suits list callin s e := by
  have known := List.find?_some existing
  simp only [Bool.and_eq_true, beq_iff_eq] at known
  have name := Name.eq_surrogate known.1
  refine ⟨List.mem_of_find?_eq_some existing, ⟨name, known.2⟩, fun _ => existing, fun unrecognised => ?_⟩
  rw [← name, Name.isSurrogate, known.1] at unrecognised
  cases unrecognised

theorem matches_of_serves {n : MethodId} (recognised : Name.isSurrogate (e.method n).name = true)
    (serves : (e.method n).Serves (e.method callin)) :
    (Name.surrogateTarget? (e.method n).name == some (e.method callin).name &&
      (e.method n).declared.params.length == (e.method callin).woven.params.length) = true := by
  obtain ⟨target, named⟩ := Option.isSome_iff_exists.1 recognised
  have same : target = (e.method callin).name := by
    rw [serves.1] at named
    exact (Name.surrogate_injective (Name.eq_surrogate named)).symm
  simp [named, same, serves.2]

theorem linkSurrogate_attaches (hc : callin ∈ callins) :
    Triple (ℓ + 5) (fun e => Attaches x b callins list e ∧ Paired done list e ∧ s ∈ list ∧
      Suits list callin s e) (linkSurrogate callin s)
      fun _ e => Attaches x b callins list e ∧ Paired (done ++ [callin]) list e := by
  refine .of_start fun start ⟨attaches, paired, hs, suits⟩ => ?_
  have hc := attaches.known callin hc
  have may : start.MayLink b callin s :=
    ⟨attaches.pending, attaches.listed callin hc, attaches.listed s hs, suits.serves.1⟩
  refine (linkSurrogate_triple may).post fun _ e links => ?_
  exact ⟨attaches.of_lasts links.lasts, paired.links attaches.toGathers hs hc suits links⟩

theorem createSurrogate_triple {start : Env} (attaches : Attaches x b callins list start)
    (hc : callin ∈ callins) (paired : Paired done list start)
    (none : start.existingSurrogate? list callin = none) :
    Triple (ℓ + 5) (fun e => e = start) (createSurrogate b callin) fun s e =>
      Attaches x b callins (list ++ [s]) e ∧ Paired done (list ++ [s]) e ∧ s ∈ list ++ [s] ∧
      Suits (list ++ [s]) callin s e := by
  have hc := attaches.known callin hc
  refine .get_start (Triple.post (Triple.pre (newMethod_made (b := b)
    (P := fun e => start.Lasts e ∧ Paired done list e) ?_ ?_ ?_ rfl rfl rfl ?_) ?_) ?_)
  · rintro e r e' runs ⟨lasts, paired⟩
    have gathers := attaches.toGathers.of_lasts lasts
    refine ⟨lasts.trans runs.lasts, paired.of_lasts gathers runs.lasts fun m _ => ?_⟩
    rw [Env.method, runs.runs.methods_eq (by decide), Env.method]
  · rintro e z grows ⟨lasts, paired⟩
    have gathers := attaches.toGathers.of_lasts lasts
    refine ⟨lasts.trans grows, paired.of_lasts gathers grows fun m mem => ?_⟩
    rw [Env.method_addMethod_of_lt (gathers.listed m mem).inside]
  · rintro e ⟨lasts, -⟩
    exact (attaches.of_lasts lasts).pending
  · rintro _ - - _ ⟨⟩
  · rintro _ rfl
    exact ⟨.refl _, paired⟩
  · rintro s e ⟨⟨lasts, paired⟩, made⟩
    have name := attaches.proj_eq (g := Method.name) lasts hc fun _ => rfl
    have woven := attaches.proj_eq (g := Method.woven) lasts hc fun _ => rfl
    rw [← attaches.existingSurrogate?_eq lasts hc] at none
    have serves : (e.method s).Serves (e.method callin) := by
      rw [Method.Serves, made.name, made.declared, name, woven]
      exact ⟨rfl, rfl⟩
    refine ⟨(attaches.of_lasts lasts).append made rfl hc (by rw [name]) (by rw [woven]) ?_,
      paired.append, by simp, serves, fun recognised => ?_, fun _ => made.origin⟩
    · exact fun n hn recognised serves =>
        List.find?_eq_none.1 none n hn (matches_of_serves recognised serves)
    · rw [Env.existingSurrogate?] at none ⊢
      rw [List.find?_append, none, Option.none_or, List.find?_singleton, if_pos]
      exact matches_of_serves (by rwa [serves.1]) serves

theorem attachSurrogate_triple (hc : callin ∈ callins) :
    Triple (ℓ + 5) (fun e => Attaches x b callins list e ∧ Paired done list e)
      (attachSurrogate b list callin)
      fun list e => Attaches x b callins list e ∧ Paired (done ++ [callin]) list e := by
  refine .of_start fun start ⟨attaches, paired⟩ => .get_start ?_
  cases existing : start.existingSurrogate? list callin with
  | some s =>
    refine .bind ((linkSurrogate_attaches hc).pre ?_) fun _ => .pure fun _ h => h
    rintro _ rfl
    exact ⟨attaches, paired, suits_of_existing existing⟩
  | none =>
    refine .bind (createSurrogate_triple attaches hc paired existing) fun s => ?_
    exact .bind (linkSurrogate_attaches hc) fun _ => .pure fun _ h => h

theorem attachSurrogates_triple :
    Triple (ℓ + 5) (Builds x b list) (attachSurrogates b list)
      fun list e => ∃ callins, Attaches x b callins list e ∧ Paired callins list e := by
  refine .of_start fun start builds => .get_start ?_
  extract_lets callins
  have attached : Triple (ℓ + 5) (fun e => Attaches x b callins list e ∧ Paired [] list e)
      (callins.foldlM (attachSurrogate b) list)
      fun list e => Attaches x b callins list e ∧ Paired callins list e :=
    Triple.foldlM (I := fun done list e => Attaches x b callins list e ∧ Paired done list e)
      fun _ _ hc _ => attachSurrogate_triple hc
  refine (attached.pre ?_).post fun list e h => ⟨callins, h⟩
  rintro _ rfl
  refine ⟨⟨builds.toGathers, fun c mem => List.mem_of_mem_filter mem, fun m mem isCallin plain => ?_,
    fun source => ?_, fun m mem c origin => ?_⟩, nofun⟩
  · exact List.mem_filter.2 ⟨mem, by simp [isCallin, plain]⟩
  · exact (builds.distinct source).imp fun differ clash => differ clash.1
  · have plain := builds.plain m mem
    rw [Method.isSurrogate, origin] at plain
    cases plain

theorem Gathers.proj {α : Type} {g : Binding → α} (h : Gathers x b list e)
    (head : ∀ y, g (Binding.head y) = g y) : g (e.binding b) = g x := by
  rw [← head, h.head, head]

theorem Builds.offers (h : Builds x b list e) (other : x.isRole = false) : e.Offers b list := by
  have noRole : (e.binding b).isRole = false := (h.proj fun _ => rfl).trans other
  refine ⟨h.listed, fun source => ?_, by simp [noRole], by simp [noRole], by simp [noRole]⟩
  rw [h.proj (g := Binding.isSource) fun _ => rfl] at source
  exact (h.distinct source).imp fun differ clash => differ clash.1

theorem Attaches.offers (h : Attaches x b callins list e) (paired : Paired callins list e) :
    e.Offers b list where
  listed := h.listed
  distinct source := by
    rw [h.proj (g := Binding.isSource) fun _ => rfl] at source
    exact h.distinct source
  paired _ m mem isCallin plain := by
    obtain ⟨-, s, hs, link, suits⟩ := paired m (h.complete m mem isCallin plain)
    exact ⟨s, hs, link, suits.serves⟩
  shared _ m hm n hn differ isCallin plain isCallin' plain' :=
    paired.shared (h.complete m hm isCallin plain) (h.complete n hn isCallin' plain') differ
  made _ := h.made

theorem methods_triple :
    Triple (ℓ + 5) (fun _ => True) (methods b) fun list e => e.slot (.methods b) = .resolved list := by
  refine .bind known_triple fun x => ?_
  -- The steps behind the collected methods, from the last one to the first.
  extract_lets finish attach complete
  have finished {start : Env} (list : List MethodId) : Latched start (ℓ + 5) (.methods b) (fun e => e.Offers b list)
      (finish list) fun list e => e.slot (.methods b) = .resolved list :=
    .finish (fun _ h => h) (fun _ _ => trivial) (.pure fun _ h => h)
  have attached {start : Env} (list : List MethodId) : Latched start (ℓ + 5) (.methods b) (Builds x b list)
      (attach list) fun list e => e.slot (.methods b) = .resolved list := by
    dsimp only [attach]
    by_cases isRole : x.isRole = true
    · rw [if_pos isRole]
      refine .bind attachSurrogates_triple fun list => (finished list).pre ?_
      rintro e ⟨callins, attaches, paired⟩
      exact attaches.offers paired
    · rw [if_neg isRole]
      refine .bind (.pure fun _ h => h) fun list => (finished list).pre fun e h => ?_
      exact h.offers (Bool.eq_false_iff.2 isRole)
  have completed {start : Env} (list : List MethodId) : Latched start (ℓ + 5) (.methods b) (Builds x b list)
      (complete list) fun list e => e.slot (.methods b) = .resolved list :=
    .ite (.bind copyMethods_triple attached) (.bind (.pure fun _ h => h) attached)
  split
  · next resolved =>
    refine .pure ?_
    rintro e ⟨-, rfl⟩
    exact resolved
  · next begun =>
    refine (reentrant_triple (p := .methods b) rfl (by simp)).pre ?_
    rintro e ⟨-, rfl⟩
    exact begun
  · next fresh =>
    refine (Triple.begin_keeping (p := .methods b) (by simp)
      (P := fun e => b.index < e.bindings.size ∧ (e.binding b).head = x.head) ?_ ?_).pre ?_
    · rintro e ⟨inside, head⟩
      have frame : e.SameFrame (e.setSlot (.methods b) .inProgress) := Env.sameFrame_setSlot
      exact ⟨by rwa [frame.size], (frame.head b).trans head⟩
    · have empty (e : Env) (h : e.slot (.methods b) = .inProgress ∧ b.index < e.bindings.size ∧
          (e.binding b).head = x.head) : Builds x b [] e :=
        ⟨⟨h.1, h.2.1, h.2.2, nofun⟩, nofun, fun _ => .nil⟩
      refine fun _ => Latched.pre (P := Builds x b []) ?_ empty
      split
      · exact .bind declaredMethods_triple completed
      · next origin =>
        exact .bind (compiledMethods_triple (by simp [Binding.isSource, Binding.unit?, origin])) completed
      · exact .bind (.pure fun _ h => h) completed
    · rintro e ⟨inside, rfl⟩
      exact ⟨⟨inside, fresh⟩, inside, rfl⟩

end Resolve

end TeamRoles
