import ViewRouting.Proofs.Bags
import ViewRouting.Proofs.Consistency

/-! Options that are merged bag by bag. Of three bags the outer two may be merged first or the inner
two, and the outcome is the same object, with its session data in the same order. So it does not
matter how the bags of the scopes around a route and the bag of the route are grouped: what a
descriptor is given is what any grouping of them resolves to. -/

namespace ViewRouting.Record

/-! The order of names in a record. -/

/-- The order that the history `all` of insertions gives to two names. -/
def Before (all : List String) (j k : String) : Prop :=
  match index? j, index? k with
  | some m, some n => m < n
  | some _, none => True
  | none, some _ => False
  | none, none => all.idxOf j < all.idxOf k

/-- Names in property order: each that was inserted once, indices first in ascending order, and the
others as they were first inserted. -/
structure InOrder (all ns : List String) : Prop where
  same : ∀ k, k ∈ ns ↔ k ∈ all
  ordered : ns.Pairwise (Before all)

variable {α : Type}

theorem before_later {all : List String} (later : String) {j k : String} (hj : j ∈ all)
    (hk : k ∈ all) (h : Before all j k) : Before (all ++ [later]) j k := by
  unfold Before at h ⊢
  rwa [List.idxOf_append_of_mem hj, List.idxOf_append_of_mem hk]

theorem before_plain {all : List String} {j k : String} (hj : j ∈ all) (new : k ∉ all)
    (plain : index? k = none) : Before (all ++ [k]) j k := by
  rw [Before, plain]
  cases index? j with
  | some m => trivial
  | none =>
    rw [List.idxOf_append_of_mem hj, List.idxOf_append_of_notMem new]
    have := List.idxOf_lt_length_of_mem hj
    show all.idxOf j < _
    omega

theorem before_unpreceded {all : List String} {k : String} {i : Nat} (spells : index? k = some i)
    {f : String × α} (other : f.1 ≠ k) (first : precedes i f = false) {j : String}
    (behind : j = f.1 ∨ Before all f.1 j) : Before all k j := by
  have start : ∀ m, index? f.1 = some m → i < m := by
    intro m hm
    have apart : i ≠ m := by
      rintro rfl
      exact other (index?_injective hm spells)
    have above : ¬m < i := by simpa [precedes, hm] using first
    omega
  rw [Before, spells]
  cases hj : index? j with
  | none => trivial
  | some n =>
    rcases behind with rfl | behind
    · exact start n hj
    · rw [Before, hj] at behind
      cases hf : index? f.1 with
      | none =>
        rw [hf] at behind
        exact behind.elim
      | some m =>
        rw [hf] at behind
        exact (start m hf).trans behind

theorem placeAt_ordered {all : List String} {r : Record α}
    (ordered : (names r).Pairwise (Before all)) {k : String} (new : k ∉ names r) {i : Nat}
    (spells : index? k = some i) (v : α) :
    (names (placeAt i (k, v) r)).Pairwise (Before all) := by
  have parts : r.takeWhile (precedes i) ++ r.dropWhile (precedes i) = r :=
    List.takeWhile_append_dropWhile
  have split : names r = names (r.takeWhile (precedes i)) ++ names (r.dropWhile (precedes i)) := by
    rw [names, names, names, ← List.map_append, parts]
  rw [split] at ordered new
  obtain ⟨before, after, between⟩ := List.pairwise_append.mp ordered
  have front : ∀ j ∈ names (r.takeWhile (precedes i)), Before all j k := by
    intro j hj
    obtain ⟨f, hf, rfl⟩ := List.mem_map.mp hj
    have earlier := List.mem_takeWhile_imp hf
    rw [Before, spells]
    cases hm : index? f.1 with
    | none => simp [precedes, hm] at earlier
    | some m => simpa [precedes, hm] using earlier
  have back : ∀ j ∈ names (r.dropWhile (precedes i)), Before all k j := by
    have start := List.head?_dropWhile_not (precedes i) r
    cases rest : r.dropWhile (precedes i) with
    | nil => simp [names]
    | cons f fs =>
      rw [rest] at start after new
      have first : precedes i f = false := by simpa using start
      have other : f.1 ≠ k := by
        rintro rfl
        exact new (by simp [names])
      intro j hj
      rcases List.mem_cons.mp hj with rfl | hj
      · exact before_unpreceded spells other first (.inl rfl)
      · exact before_unpreceded spells other first (.inr ((List.pairwise_cons.mp after).1 j hj))
  have placed : names (placeAt i (k, v) r) =
      names (r.takeWhile (precedes i)) ++ k :: names (r.dropWhile (precedes i)) := by
    simp [placeAt, names]
  rw [placed, List.pairwise_append]
  refine ⟨before, List.pairwise_cons.mpr ⟨back, after⟩, ?_⟩
  intro j hj l hl
  rcases List.mem_cons.mp hl with rfl | hl
  · exact front j hj
  · exact between j hj l hl

theorem insert_inOrder {all : List String} {r : Record α} (h : InOrder all (names r)) (k : String)
    (v : α) : InOrder (all ++ [k]) (names (insert r k v)) := by
  have later : (names r).Pairwise (Before (all ++ [k])) :=
    h.ordered.imp_of_mem fun hj hl =>
      before_later k ((h.same _).mp hj) ((h.same _).mp hl)
  constructor
  · intro j
    rw [mem_names_insert, h.same, List.mem_append, List.mem_singleton, or_comm]
  · by_cases known : k ∈ names r
    · -- A name that is there keeps its place.
      rw [insert, if_pos (any_names.mpr known), names_replace]
      exact later
    · cases spells : index? k with
      | some i =>
        rw [insert_index known spells]
        exact placeAt_ordered later known spells v
      | none =>
        have added : names (r ++ [(k, v)]) = names r ++ [k] := List.map_append
        rw [insert_plain known spells, added, List.pairwise_append]
        refine ⟨later, List.pairwise_singleton _ _, ?_⟩
        intro j hj l hl
        rw [List.mem_singleton.mp hl]
        exact before_plain ((h.same j).mp hj) (mt (h.same k).mpr known) spells

theorem ofList_inOrder (fields : Record α) : InOrder (names fields) (names (ofList fields)) := by
  induction fields using List.reverseRec with
  | nil => exact ⟨fun _ => Iff.rfl, .nil⟩
  | append_singleton fields f ih =>
    have all : names (fields ++ [f]) = names fields ++ [f.1] := List.map_append
    rw [all, ofList_append]
    exact insert_inOrder ih f.1 f.2

end ViewRouting.Record

namespace ViewRouting

/-! What a bag says, and how bags are merged. -/

namespace GroupOptions

theorem overlaySession_getD (outer inner : Option (Record Value)) :
    (overlaySession outer inner).getD [] = Record.ofList (outer.getD [] ++ inner.getD []) := by
  cases outer <;> cases inner <;> rfl

end GroupOptions

namespace RouteOptions
open GroupOptions

def ofBag (bag : Record Value) : RouteOptions where
  session := sessionOf bag
  layout := (Value.present? bag "layout").map .ofValue
  container := (Value.present? bag "container").map .ofValue
  helper := Value.present? bag "as"

def beneath (outer inner : RouteOptions) : RouteOptions where
  session := overlaySession outer.session inner.session
  layout := inner.layout.or outer.layout
  container := inner.container.or outer.container
  helper := inner.helper

theorem beneath_assoc (a b c : RouteOptions) :
    (a.beneath b).beneath c = a.beneath (b.beneath c) := by
  simp only [beneath, overlaySession_assoc, Option.or_assoc]

theorem sessionOf_given (o : RouteOptions) : sessionOf o.fields = o.session := by
  rw [sessionOf, Value.field, get?_fields, get?]
  cases o.session <;> rfl

/-- The session data that a bag brings along. -/
def declared (bag : Record Value) : Record Value :=
  (sessionOf bag).getD []

theorem declared_merge (outer inner : Record Value) :
    declared (merge outer inner).fields = Record.ofList (declared outer ++ declared inner) := by
  rw [declared, sessionOf_given]
  exact overlaySession_getD (sessionOf outer) (sessionOf inner)

theorem declared_merge_merge (a b c : Record Value) :
    declared (merge a (merge b c).fields).fields =
      Record.ofList (declared a ++ declared b ++ declared c) := by
  rw [declared_merge, declared_merge, Record.ofList_append, Record.insertAll_ofList,
    ← Record.ofList_append, List.append_assoc]

theorem empty_beneath (a b : RouteOptions) :
    ({} : RouteOptions).beneath (a.beneath b) = a.beneath b := by
  have session : overlaySession none (overlaySession a.session b.session) =
      overlaySession a.session b.session := by
    have again (r s : Record Value) :
        Record.overlay [] (Record.overlay r s) = Record.overlay r s :=
      Record.insertAll_ofList [] (r ++ s)
    cases a.session <;> cases b.session <;>
      simp only [overlaySession, Option.getD_some, Option.getD_none, again]
  simp only [beneath, session, Option.or_none]

/-- A layout or container that is given counts for one. -/
structure Definite (bag : Record Value) : Prop where
  layout : ∀ v, Value.present? bag "layout" = some v → Solid v
  container : ∀ v, Value.present? bag "container" = some v → Solid v

theorem inForce_definite {outer inner : Record Value} {name : String}
    (ho : ∀ v, Value.present? outer name = some v → Solid v)
    (hi : ∀ v, Value.present? inner name = some v → Solid v) :
    inForce outer inner name = (Value.present? inner name).or (Value.present? outer name) := by
  apply inForce_search hi _ ho
  cases h : Value.present? outer name with
  | none => exact Value.present?_none h
  | some v => exact Value.present?_some h

theorem merge_definite {outer inner : Record Value} (ho : Definite outer) (hi : Definite inner) :
    merge outer inner = (ofBag outer).beneath (ofBag inner) := by
  rw [merge, inForce_definite ho.layout hi.layout, inForce_definite ho.container hi.container]
  simp only [ofBag, beneath, Option.map_or]

theorem present?_fields {o : RouteOptions} {name : String}
    (defined : o.get? name ≠ some .undefined) : Value.present? o.fields name = o.get? name := by
  rw [Value.present?, Value.field, get?_fields]
  cases h : o.get? name with
  | none => rfl
  | some v =>
    rw [h] at defined
    cases v <;> first | rfl | contradiction

theorem present?_layout (o : RouteOptions) :
    Value.present? o.fields "layout" = o.layout.map Layout.toValue := by
  apply present?_fields
  intro undefined
  obtain ⟨_, -, h⟩ := Option.map_eq_some_iff.mp undefined
  cases h

theorem present?_container (o : RouteOptions) :
    Value.present? o.fields "container" = o.container.map Container.toValue := by
  apply present?_fields
  intro undefined
  obtain ⟨_, -, h⟩ := Option.map_eq_some_iff.mp undefined
  cases h

theorem ofBag_fields {o : RouteOptions} (defined : o.helper ≠ some .undefined) :
    ofBag o.fields = o := by
  have helper : Value.present? o.fields "as" = o.helper := present?_fields defined
  have layout : (o.layout.map Layout.toValue).map Layout.ofValue = o.layout := by
    cases o.layout <;> rfl
  have container : (o.container.map Container.toValue).map Container.ofValue = o.container := by
    cases o.container <;> rfl
  rw [ofBag, sessionOf_given, present?_layout, layout, present?_container, container, helper]

theorem definite_fields (o : RouteOptions) : Definite o.fields where
  layout v hv := by
    rw [present?_layout] at hv
    obtain ⟨_, -, rfl⟩ := Option.map_eq_some_iff.mp hv
    exact ⟨rfl, rfl⟩
  container v hv := by
    rw [present?_container] at hv
    obtain ⟨_, -, rfl⟩ := Option.map_eq_some_iff.mp hv
    exact ⟨rfl, rfl⟩

theorem ofBag_merge (outer inner : Record Value) :
    ofBag (merge outer inner).fields = merge outer inner := by
  apply ofBag_fields
  intro h
  have undefined : (Value.field inner "as").defined? = some .undefined := h
  cases field : Value.field inner "as" <;> rw [field] at undefined <;> cases undefined

theorem merge_merge {a b c : Record Value} (ha : Definite a) (hb : Definite b) (hc : Definite c) :
    merge (merge a b).fields c = merge a (merge b c).fields := by
  rw [merge_definite (definite_fields _) hc, merge_definite ha (definite_fields _), ofBag_merge,
    ofBag_merge, merge_definite ha hb, merge_definite hb hc, beneath_assoc]

theorem solid_of_optional {shape : Value → Prop} (solid : ∀ v, shape v → Solid v)
    {bag : Record Value} {name : String} (h : Value.Optional shape bag name) {v : Value}
    (given : Value.present? bag name = some v) : Solid v := by
  rcases h with absent | shaped
  · rw [Value.present?, absent] at given
    cases given
  · rw [Value.present?_some given] at shaped
    exact solid v shaped

theorem definite_of_group {bag : Record Value} (h : Value.HasGroup bag) : Definite bag where
  layout _ := by
    apply solid_of_optional _ h.layout
    rintro v ⟨_, _, rfl⟩
    exact ⟨rfl, rfl⟩
  container _ := by
    apply solid_of_optional _ h.container
    rintro v ⟨_, _, _, rfl, -⟩
    exact ⟨rfl, rfl⟩

theorem definite_of_grammar {bag : Record Value} (h : Live.Grammatical bag) : Definite bag :=
  ⟨fun v hv => (h.layout v hv).solid, fun v hv => (h.container v hv).solid⟩

/-! Many bags. -/

def beneathAll (options : RouteOptions) (bags : List (Record Value)) : RouteOptions :=
  bags.foldl (fun o bag => o.beneath (ofBag bag)) options

theorem beneath_beneathAll (o p : RouteOptions) (bags : List (Record Value)) :
    o.beneath (p.beneathAll bags) = (o.beneath p).beneathAll bags := by
  induction bags generalizing p with
  | nil => rfl
  | cons bag bags ih =>
    calc o.beneath (p.beneathAll (bag :: bags))
        = (o.beneath (p.beneath (ofBag bag))).beneathAll bags := ih _
      _ = (o.beneath p).beneathAll (bag :: bags) := by rw [← beneath_assoc]; rfl

theorem empty_beneathAll (first second : Record Value) (bags : List (Record Value)) :
    beneathAll {} (first :: second :: bags) = beneathAll (ofBag first) (second :: bags) := by
  show beneathAll ((({} : RouteOptions).beneath (ofBag first)).beneath (ofBag second)) bags = _
  rw [beneath_assoc, empty_beneath]
  rfl

/-- Bags from the outermost to the innermost, in the groups that are merged first. -/
inductive Grouping where
  | bag (bag : Record Value)
  | group (outer inner : Grouping)

namespace Grouping

def bags : Grouping → List (Record Value)
  | bag b => [b]
  | group outer inner => outer.bags ++ inner.bags

def resolve : Grouping → Record Value
  | bag b => b
  | group outer inner => (merge outer.resolve inner.resolve).fields

theorem ofBag_resolve (g : Grouping) (definite : ∀ bag ∈ g.bags, Definite bag) :
    Definite g.resolve ∧
      ∃ first rest, g.bags = first :: rest ∧ ofBag g.resolve = (ofBag first).beneathAll rest := by
  induction g with
  | bag b => exact ⟨definite b (by simp [bags]), b, [], rfl, rfl⟩
  | group outer inner outerIH innerIH =>
    obtain ⟨ho, first, rest, outerBags, outerSays⟩ :=
      outerIH fun bag hb => definite bag (List.mem_append_left _ hb)
    obtain ⟨hi, second, more, innerBags, innerSays⟩ :=
      innerIH fun bag hb => definite bag (List.mem_append_right _ hb)
    refine ⟨definite_fields _, first, rest ++ second :: more, ?_, ?_⟩
    · rw [bags, outerBags, innerBags, List.cons_append]
    · rw [resolve, ofBag_merge, merge_definite ho hi, outerSays, innerSays, beneath_beneathAll]
      simp only [beneathAll, List.foldl_append, List.foldl_cons]

theorem bags_ne_nil (g : Grouping) : g.bags ≠ [] := by
  induction g with
  | bag b => simp [bags]
  | group outer inner outerIH => simp [bags, outerIH]

theorem resolve_several {g : Grouping} (definite : ∀ bag ∈ g.bags, Definite bag)
    {first second : Record Value} {rest : List (Record Value)}
    (several : g.bags = first :: second :: rest) :
    g.resolve = ((ofBag first).beneathAll (second :: rest)).fields := by
  obtain ⟨-, first', rest', split, said⟩ := g.ofBag_resolve definite
  obtain ⟨rfl, rfl⟩ := List.cons.inj (several.symm.trans split)
  rw [← said]
  cases g with
  | bag b => simp [bags] at several
  | group outer inner => rw [resolve, ofBag_merge]

theorem resolve_single {g : Grouping} {only : Record Value} (single : g.bags = [only]) :
    g.resolve = only := by
  cases g with
  | bag b => exact (List.cons.inj single).1
  | group outer inner =>
    rcases List.append_eq_singleton_iff.mp single with ⟨none, -⟩ | ⟨-, none⟩
    · exact absurd none outer.bags_ne_nil
    · exact absurd none inner.bags_ne_nil

theorem resolve_congr {g g' : Grouping} (definite : ∀ bag ∈ g.bags, Definite bag)
    (same : g.bags = g'.bags) : g.resolve = g'.resolve := by
  cases bags : g.bags with
  | nil => exact absurd bags g.bags_ne_nil
  | cons first rest =>
    cases rest with
    | nil => rw [resolve_single bags, resolve_single (same.symm.trans bags)]
    | cons second rest =>
      rw [resolve_several definite bags,
        resolve_several (same ▸ definite) (same.symm.trans bags)]

end Grouping

end RouteOptions

end ViewRouting

/-! The bags of scopes. -/

namespace ViewRouting.Router
open RouteOptions

def Frame.groups (pipelines : Pipelines) (f : Frame) : List GroupOptions :=
  (f.pipes.flatMap fun name => (pipelines.lookup name).getD []).map Plug.group ++ [f.group]

def Draft.groups (d : Draft) : List GroupOptions :=
  d.frames.flatMap (Frame.groups d.pipelines)

theorem groups_ne_nil (d : Draft) : d.groups ≠ [] := by
  have own : d.current.group ∈ d.groups :=
    List.mem_flatMap.mpr ⟨d.current, by simp [Draft.frames], by simp [Frame.groups]⟩
  exact List.ne_nil_of_mem own

theorem inherited_groups (d : Draft) : d.inherited = d.groups.foldl GroupOptions.overlay {} := by
  have frame : Frame.overlayOnto d.pipelines =
      fun o f => (f.groups d.pipelines).foldl GroupOptions.overlay o := by
    funext o f
    rw [Frame.overlayOnto, Frame.groups, Frame.plugs, List.foldl_append, List.foldl_map]
    rfl
  rw [Draft.inherited, optionsInEffect, frame, Draft.groups, List.foldl_flatMap]

theorem groups_typed {d : Draft} (hd : DraftSound d) : ∀ g ∈ d.groups, g.Typed := by
  intro g hg
  obtain ⟨f, hf, hg⟩ := List.mem_flatMap.mp hg
  obtain ⟨own, plugs⟩ := frames_typed hd f hf
  rcases List.mem_append.mp hg with hg | hg
  · obtain ⟨plug, hp, rfl⟩ := List.mem_map.mp hg
    exact (plugs plug hp).group
  · rw [List.mem_singleton.mp hg]
    exact own

end ViewRouting.Router

namespace ViewRouting.GroupOptions
open RouteOptions

theorem Typed.present?_fields {o : GroupOptions} (h : o.Typed) (name : String) :
    Value.present? o.fields name = o.get? name := by
  rw [Value.present?, Value.field, get?_fields]
  fun_cases o.get? name with
  | case1 =>
    cases layout : o.layout with
    | none => rfl
    | some v =>
      obtain ⟨_, _, rfl⟩ := h.layout v layout
      rfl
  | case2 => cases o.session <;> rfl
  | case3 =>
    cases container : o.container with
    | none => rfl
    | some v =>
      obtain ⟨_, _, _, rfl, -⟩ := h.container v container
      rfl
  | case4 => rfl

theorem Typed.definite {o : GroupOptions} (h : o.Typed) : Definite o.fields where
  layout v hv := by
    rw [h.present?_fields, get?] at hv
    obtain ⟨_, _, rfl⟩ := h.layout v hv
    exact ⟨rfl, rfl⟩
  container v hv := by
    rw [h.present?_fields, get?] at hv
    obtain ⟨_, _, _, rfl, -⟩ := h.container v hv
    exact ⟨rfl, rfl⟩

theorem ofBag_overlay {outer inner : GroupOptions} (ho : outer.Typed) (hi : inner.Typed) :
    ofBag (outer.overlay inner).fields = (ofBag outer.fields).beneath (ofBag inner.fields) := by
  have both := overlay_typed ho hi
  have layout : (outer.overlay inner).layout = inner.layout.or outer.layout :=
    Option.orElse_eq_or ..
  have container : (outer.overlay inner).container = inner.container.or outer.container :=
    Option.orElse_eq_or ..
  have session : (outer.overlay inner).session = overlaySession outer.session inner.session := rfl
  simp only [ofBag, beneath, sessionOf_fields, both.present?_fields, ho.present?_fields,
    hi.present?_fields, get?, layout, container, session, Option.map_or]
  rfl

theorem ofBag_foldl {groups : List GroupOptions} (typed : ∀ g ∈ groups, g.Typed)
    {o : GroupOptions} (ho : o.Typed) :
    ofBag (groups.foldl overlay o).fields = (ofBag o.fields).beneathAll (groups.map fields) := by
  induction groups generalizing o with
  | nil => rfl
  | cons g groups ih =>
    obtain ⟨hg, rest⟩ := List.forall_mem_cons.mp typed
    rw [List.foldl_cons, ih rest (overlay_typed ho hg), ofBag_overlay ho hg]
    rfl

end ViewRouting.GroupOptions

namespace ViewRouting.RouteOptions
open GroupOptions Router Live

theorem describe_grouped {d : Draft} (reachable : Session.Reachable d) {conventions : Conventions}
    {decl : Declaration} {built : Observed Descriptor}
    (compiled : describe conventions (.ofDraft d) decl = .ok built) {g : Grouping}
    (bags : g.bags = d.groups.map GroupOptions.fields ++ [decl.options.ownFields]) :
    built.value.privateData.options.given.fields = g.resolve := by
  have sound := Session.reachable_sound reachable
  have typed := groups_typed sound
  obtain ⟨-, own, helper, ⟨kind, given⟩, grammatical, -, rfl⟩ := describe_ok compiled
  rw [ownFields_orElse given] at bags
  have definite : ∀ bag ∈ g.bags, Definite bag := by
    intro bag hb
    rw [bags, List.mem_append, List.mem_map, List.mem_singleton] at hb
    rcases hb with ⟨group, hg, rfl⟩ | rfl
    · exact (typed group hg).definite
    · exact definite_of_grammar grammatical
  have inherited : ofBag d.inherited.fields = beneathAll {} (d.groups.map GroupOptions.fields) := by
    rw [inherited_groups, ofBag_foldl typed typed_empty]
    rfl
  have merged : merge d.inherited.fields own =
      beneathAll {} (d.groups.map GroupOptions.fields ++ [own]) := by
    rw [merge_definite (inherited_typed sound).definite (definite_of_grammar grammatical),
      inherited, beneathAll, beneathAll, List.foldl_append]
    rfl
  show (merge d.inherited.fields own).fields = _
  -- There is a bag of a scope before that of the route, so that the empty options add nothing.
  obtain ⟨first, second, rest, several⟩ : ∃ first second rest,
      d.groups.map GroupOptions.fields ++ [own] = first :: second :: rest := by
    obtain ⟨group, groups, outer⟩ := List.exists_cons_of_ne_nil (groups_ne_nil d)
    rw [outer]
    cases groups with
    | nil => exact ⟨_, _, _, rfl⟩
    | cons => exact ⟨_, _, _, rfl⟩
  rw [merged, several, empty_beneathAll, Grouping.resolve_several definite (bags.trans several)]

/-- Of three typed bags any two that are next to each other may be merged first. The session data
come out in property order, and bags that are merged in other groups, those of the scopes around a
route included, come out as the same options. -/
theorem merge_associative {a b c : Record Value} (ha : Value.HasGroup a) (hb : Value.HasGroup b)
    (hc : Value.HasGroup c) :
    (merge (merge a b).fields c).fields = (merge a (merge b c).fields).fields ∧
    Record.InOrder (Record.names (declared a ++ declared b ++ declared c))
      (Record.names (declared (merge a (merge b c).fields).fields)) ∧
    (∀ g g' : Grouping, (∀ bag ∈ g.bags, Value.HasGroup bag) → g.bags = g'.bags →
      g.resolve = g'.resolve) ∧
    ∀ d, Session.Reachable d → ∀ conventions decl built,
      describe conventions (.ofDraft d) decl = .ok built →
      ∀ g : Grouping, g.bags = d.groups.map GroupOptions.fields ++ [decl.options.ownFields] →
        built.value.privateData.options.given.fields = g.resolve := by
  refine ⟨?associative, ?ordered, ?grouped, ?described⟩
  case associative =>
    rw [merge_merge (definite_of_group ha) (definite_of_group hb) (definite_of_group hc)]
  case ordered =>
    rw [declared_merge_merge]
    exact Record.ofList_inOrder _
  case grouped =>
    intro g g' typed same
    exact Grouping.resolve_congr (fun bag hb => definite_of_group (typed bag hb)) same
  case described =>
    intro d reachable conventions decl built compiled g bags
    exact describe_grouped reachable compiled bags

theorem merge_associative_indices :
    ∃ (a b c : Record Value) (d : Draft) (decl : Declaration) (built : Observed Descriptor)
      (g : Grouping),
      Value.HasGroup a ∧ Value.HasGroup b ∧ Value.HasGroup c ∧
      (merge (merge a b).fields c).fields = (merge a (merge b c).fields).fields ∧
      Record.names (declared a ++ declared b ++ declared c) = ["b", "2", "c", "1", "b"] ∧
      Record.names (declared (merge a (merge b c).fields).fields) = ["1", "2", "b", "c"] ∧
      Session.Reachable d ∧ describe {} (.ofDraft d) decl = .ok built ∧
      g = .group (.bag []) (.group (.bag a) (.bag decl.options.ownFields)) ∧
      built.value.privateData.options.given.fields = g.resolve := by
  -- Session data under indices and under other names, and a route whose own bag is first merged
  -- with that of its scope and then with that of the root.
  let a : Record Value := [("session", .record [("b", .null), ("2", .string "two")])]
  let container : Value := .array [.string "main", .record [("id", .string "app")]]
  let b : Record Value := [("layout", .undefined), ("container", container)]
  let c : Record Value :=
    [("session", .record [("c", .null), ("1", .string "one"), ("b", .bool true)])]
  let journal : Trace.Journal := ⟨.fresh none {} .epoch, []⟩
  let start : Draft := { name := "App.Router", handlerSuffix := .string "Controller" }
  let d : Draft := Session.leftBy (Drafting.enterScope "/admin" (.record a)) start journal
  let decl : Declaration := { path := "/users", view := "UserLive", options := .record c }
  have outerNames : ["b", "2"].Nodup := by decide
  have innerNames : ["c", "1", "b"].Nodup := by decide
  have outer : Value.HasGroup a :=
    ⟨.inl rfl, .inr ⟨.ordinary, _, rfl, outerNames⟩, .inl rfl⟩
  have between : Value.HasGroup b := by
    refine ⟨.inl rfl, .inl rfl, .inr ⟨"main", .ordinary, _, rfl, List.nodup_singleton "id", ?_⟩⟩
    intro given h
    rw [List.mem_singleton.mp h]
    exact ⟨"app", rfl⟩
  have inner : Value.HasGroup c :=
    ⟨.inl rfl, .inr ⟨.ordinary, _, rfl, innerNames⟩, .inl rfl⟩
  have scope : (Value.record a).IsScopeOptions :=
    .inr ⟨.ordinary, _, rfl, .inl rfl, .inl rfl, outer⟩
  have reachable : Session.Reachable d :=
    ⟨"App.Router", {}, start, ⟨"Controller", rfl⟩, if_pos (by decide),
      .single (.enter "/admin" journal scope)⟩
  have compiles : (describe {} (.ofDraft d) decl).isOk := by
    simp only [d, decl, start, a, c, journal]
    decide +kernel
  obtain ⟨built, compiled⟩ := ok_of_isOk compiles
  obtain ⟨associative, -, -, described⟩ := merge_associative outer between inner
  exact ⟨a, b, c, d, decl, built, _, outer, between, inner, associative, by decide, by decide,
    reachable, compiled, rfl, described d reachable {} decl built compiled _ rfl⟩

end ViewRouting.RouteOptions
