import EntityGraph.Proofs.Build.ConcludingEntities
import EntityGraph.Proofs.Graph.Repeats
import EntityGraph.Proofs.Graph.Spelling
import EntityGraph.Proofs.Scalar.Primitive
import EntityGraph.Proofs.Text.Split
import Mathlib.Order.Monotone.Basic

/-!
# Compilations come to an end

Every recursion of a compilation is cut off at some depth, so that it is a function at all. Here the
depths are shown to be out of reach: where nothing is flattened, no base of a scalar leads back to
itself and no anonymous type is inside of itself, neither the walk nor the search for bases nor the
documentation of bags is ever cut off, whatever the recursion among named types.

An anonymous type that leads back to itself is built again and again, each time under a longer type
path, and no depth is enough.
-/
open Relation (TransGen)

namespace EntityGraph

open Result (avoids_ok)
open Schema (ComplexType Container Element Index Particle)

namespace Compile

variable {context : Context}

theorem start_remains {resolver : NameResolver}
    (read : NameResolver.ofRules context.settings.typeMap = .ok resolver) :
    Remains context (namedPaths context.index context.settings).length (.start resolver) where
  unbuilt := remaining_le_length
  known path member := by
    rw [State.start, NameResolver.ofRules_known read] at member
    cases member
  literals ready member path literal := by
    obtain ⟨rule, inRules, same⟩ := literal_of_ofRules read member
    exact mem_namedPaths_of_literal inRules (same.symm.trans literal)

/-- The entities of roots are built to an end, where there are enough levels. -/
theorem buildRoots_concludes (terminating : Terminating context) {levels : Nat}
    (enough : levelBound context.index context.settings ≤ levels)
    {roots : List (String × ComplexType)} (known : ∀ root ∈ roots, root.2 ∈ context.index.types) :
    Concludes (Remains context (namedPaths context.index context.settings).length)
      (buildRoots context levels roots) fun _ => True := by
  obtain ⟨rank, down, bound, _⟩ := terminating.grounded.exists_rank
  have within := leavesWithin terminating down bound
  refine .repeats fun root member => ?_
  let count := (namedPaths context.index context.settings).length
  have named := levelsBelow_named context (bound (some root.2)) count 0
  obtain ⟨below, rfl⟩ : ∃ below, levels = below + 1 := ⟨levels - 1, by
    unfold levelBound at enough
    omega⟩
  have within_ : levelsBelow context (count + 1) 0 ≤ below :=
    Nat.le_of_succ_le_succ ((Nat.le_add_right _ _).trans enough)
  have leaves : LeavesType context count (some root.2) (onward context below) :=
    leavesType_of_leavesWithin terminating (fun fewer _ => within fewer) (named.trans within_)
  have builds : Concludes (Remains context count)
      ((onward context (below + 1)).build root.1 (some root.2) []) fun _ => True := by
    refine buildEntity_of_leaves terminating (Nat.le_refl _) leaves (.inl (Nat.le_refl _)) rfl ?_ []
    rintro _ ⟨⟩
    exact known root member
  exact builds.bind fun _ _ => .returns trivial

theorem build_ends {index : Index} {settings : Settings} (names : index.NamesTypes)
    (flattensNothing : settings.EveryOptions EntityOptions.FlattensNothing)
    (grounded : Grounded index settings) {levels : Nat}
    (enough : levelBound index settings ≤ levels) : (build index settings levels).Ends := by
  refine (NameResolver.ofRules_avoids (by decide) _).bind_of_ok fun resolver named => ?_
  refine (RuleBook.ofSettings_avoids (by decide) _).bind_of_ok fun book read => ?_
  have resolves : (settings.compiler.roots.mapM index.resolveRoot).Ends :=
    Result.avoids_mapM fun selector _ => index.resolveRoot_avoids selector
  refine resolves.bind_of_ok fun roots selected => ?_
  have known : ∀ root ∈ roots, root.2 ∈ index.types := by
    intro root member
    obtain ⟨selector, _, resolves⟩ :=
      Pointwise.exists_left (Result.forall₂_of_mapM selected) member
    exact Index.mem_types_of_root resolves
  have terminating : Terminating ⟨index, settings, book, roots.map (·.1)⟩ :=
    ⟨read, names, flattensNothing, grounded⟩
  obtain ⟨ends_, _⟩ := buildRoots_concludes terminating enough known _ (start_remains named)
  exact ends_.bind fun _ => Result.avoids_ok _

end Compile

open Compile

/-- A compilation that is not cut off gives the same when it is given more levels. -/
theorem compile_of_le {index : Index} {settings : Settings} {levels more : Nat}
    (le : levels ≤ more) :
    compile index settings more = compile index settings levels ∨
      ∃ path, compile index settings levels = .error (.endlessNesting path) := by
  unfold compile
  rcases @build_of_le index settings levels more le with same | ⟨path, cutOff⟩
  · exact .inl (by rw [same])
  · exact .inr ⟨path, by rw [cutOff]; rfl⟩

/-- Where no base of a scalar leads back to itself, nothing is flattened and entities are not inside
each other without end, a compilation gives a graph or an error of its own, which is what any
greater number of levels gives as well. So it is with the depths to which scalars, the bases of
types and the documentation of bags are looked up. -/
theorem compile_terminates {document : Schema.Document} {index : Index} {settings : Settings}
    (indexed : Index.build document = .ok index)
    (noCycle : ∀ name, ¬TransGen (Scalar.RestsOn index settings) name name)
    (flattensNothing : settings.EveryOptions EntityOptions.FlattensNothing)
    (grounded : Grounded index settings) :
    (∀ path, compile index settings ≠ .error (.endlessNesting path)) ∧
    (∀ levels ≥ levelBound index settings,
      compile index settings levels = compile index settings) ∧
    (∀ steps ≥ Scalar.wayDown index, ∀ name state,
      Scalar.namedWithin ⟨index, settings⟩ steps name state =
        Scalar.named ⟨index, settings⟩ name state) ∧
    (∀ steps > index.complexTypes.length, ∀ type : ComplexType,
      (index.basesWithin steps type.ownNames type).reverse = index.lineage type) ∧
    ∀ depth ≥ (index.types.length + 1) * (index.types.length + 1), ∀ type ∈ index.types, ∀ path,
      (index.documentType depth path type ⟨[], []⟩).entries = index.bagDocs path type := by
  have names := Index.build_namesTypes indexed
  have ends_ : (compile index settings).Ends :=
    (build_ends names flattensNothing grounded (Nat.le_refl _)).bind fun (book, state) =>
      finish_ends book state
  have within (path : String) : compile index settings ≠ .error (.endlessNesting path) :=
    fun cutOff => by cases ends_ _ cutOff
  refine ⟨within, fun levels enough => ?_, fun steps enough name state => ?_,
    fun steps enough type => ?_, fun depth enough type known path => ?_⟩
  · exact (compile_of_le enough).resolve_right fun ⟨path, cutOff⟩ => within path cutOff
  · exact Scalar.namedWithin_of_le noCycle enough name state
  · exact Index.basesWithin_of_le names enough type
  · exact Index.documentType_of_le names known enough path

/-! ### Owners of items that have owners -/

namespace Compile

section Plain

variable {index : Index} {roots : List String} {scope : Scope}

theorem Scope.IsGiven.rules_eq_plain (given : scope.IsGiven (settingsOf roots)) :
    scope.rules = .plain := by
  obtain ⟨book, read, forType⟩ := given
  exact Except.ok.inj (forType.symm.trans (forType_of_settingsOf read _ _))

theorem Met.mem_of_settingsOf {outer : ComplexType} {declaration : Element}
    (met : Met index (settingsOf roots) (some outer) declaration) :
    outer ∈ index.types ∧ ∃ content ∈ outer.contents, declaration ∈ content.elements := by
  induction met with
  | member gives has inside =>
    cases gives with
    | own same known =>
      obtain rfl := Option.some.inj same
      exact ⟨known, _, has, inside⟩
    | inherited place includes =>
      rw [place.rules_eq_plain] at includes
      cases includes
  | added _ takes refers =>
    rw [takes.given.rules_eq_plain] at refers
    cases refers

theorem CountsFor.cases_of_settingsOf {declaration standing : Element}
    (given : scope.IsGiven (settingsOf roots))
    (counts : CountsFor index scope declaration standing) :
    standing = declaration ∨ isRepeated index declaration = .ok true ∧
      ∃ type, index.elementComplexType declaration = .ok (some type) ∧
        type.unboundedChild? = some standing := by
  have plain := given.rules_eq_plain
  cases counts with
  | itself => exact .inl rfl
  | repeated _ repeats typed child => exact .inr ⟨repeats, _, typed, child⟩
  | asked many =>
    rw [plain] at many
    rcases many with many | many <;> cases many
  | listed list =>
    rw [plain] at list
    cases list

end Plain

/-- The owner that is the seller of an item. -/
def itemSeller : Element :=
  ⟨some "seller", none, some "Owner", none, none, ⟨0, .one⟩, none, none, none⟩

def itemType (container : Option Container) : ComplexType :=
  ⟨none, false, none, [], some (.compositor .sequence .once [.element itemSeller]), none, none,
    container⟩

def ownerItem (container : Option Container) : Element :=
  ⟨some "item", none, none, some (itemType container), none, ⟨0, .unbounded⟩, none, none, none⟩

/-- Owners have items of an anonymous type, which leads back to owners. -/
def ownerType (leading : List Element) (container : Option Container) : ComplexType :=
  ⟨some "Owner", false, none, [], some (.compositor .sequence .once
    ((leading ++ [ownerItem container]).map .element)), none, none, none⟩

def ownerDocument (leading : List Element) : Schema.Document :=
  { (default : Schema.Document) with complexTypes := [ownerType leading none] }

def itemContainer : Container := ⟨"item", none⟩

def ownerIndex (leading : List Element) : Index :=
  { (default : Index) with complexTypes := [("Owner", ownerType leading (some itemContainer))] }

section

variable {leading : List Element}

theorem complexType?_ownerIndex {name : String} {type : ComplexType}
    (found : (ownerIndex leading).complexType? name = some type) :
    type = ownerType leading (some itemContainer) := by
  obtain ⟨key, known⟩ := Index.exists_key_of_complexType? found
  obtain ⟨_, same⟩ := Prod.mk.inj (List.mem_singleton.mp (Table.mem_of_get? known))
  exact same

theorem not_restsOn_ownerIndex {name base : String} :
    ¬Scalar.RestsOn (ownerIndex leading) (settingsOf ["Owner"]) name base := by
  intro rests
  have found := rests.base
  rw [Index.scalarBase?] at found
  split at found
  next simple => cases simple
  next =>
    obtain ⟨type, known, inner⟩ := Option.bind_eq_some_iff.mp found
    rw [complexType?_ownerIndex known] at inner
    cases inner

theorem not_transGen_restsOn_ownerIndex (name : String) :
    ¬TransGen (Scalar.RestsOn (ownerIndex leading) (settingsOf ["Owner"])) name name := by
  intro cycle
  obtain ⟨_, first, _⟩ := TransGen.head'_iff.mp cycle
  exact not_restsOn_ownerIndex first

end

theorem flattensNothing_settingsOf :
    (settingsOf ["Owner"]).EveryOptions EntityOptions.FlattensNothing := by
  decide

def ownerName : Element :=
  ⟨some "name", none, some "xs:string", none, none, .once, none, none, none⟩

theorem build_ownerDocument :
    Index.build (ownerDocument [ownerName]) = .ok (ownerIndex [ownerName]) := by
  rfl

theorem ownerIndex_types :
    (ownerIndex [ownerName]).types =
      [ownerType [ownerName] (some itemContainer), itemType (some itemContainer)] := by
  rfl

theorem isRepeated_ownerIndex :
    (isRepeated (ownerIndex [ownerName]) ownerName).toOption = some false ∧
      (isRepeated (ownerIndex [ownerName]) itemSeller).toOption = some false := by
  decide +kernel

/-- Only the type of items is anonymous, and only owners have items. -/
theorem Encloses.of_ownerIndex {outer inner : ComplexType}
    (encloses : Encloses (ownerIndex [ownerName]) (settingsOf ["Owner"]) (some outer) inner) :
    outer = ownerType [ownerName] (some itemContainer) ∧ inner = itemType (some itemContainer) := by
  obtain ⟨met, takes, counts, anonymous, own⟩ := encloses
  obtain ⟨known, content, has, inside⟩ := met.mem_of_settingsOf
  have counted := counts.cases_of_settingsOf takes.given
  rw [ownerIndex_types] at known
  rcases List.mem_pair.mp known with rfl | rfl
  · refine ⟨rfl, ?_⟩
    obtain rfl := List.mem_singleton.mp has
    rcases List.mem_pair.mp inside with rfl | rfl
    · rcases counted with rfl | ⟨repeats, _⟩
      · cases own
      · exact absurd isRepeated_ownerIndex.1 (by simp [repeats, Except.toOption])
    · rcases counted with rfl | ⟨_, type, typed, child⟩
      · exact (Option.some.inj own).symm
      · -- No element of an item is unbounded.
        obtain rfl := Option.some.inj (Except.ok.inj typed)
        cases child
  · obtain rfl := List.mem_singleton.mp has
    obtain rfl := List.mem_singleton.mp inside
    rcases counted with rfl | ⟨repeats, _⟩
    · cases own
    · exact absurd isRepeated_ownerIndex.2 (by simp [repeats, Except.toOption])

theorem grounded_ownerIndex : Grounded (ownerIndex [ownerName]) (settingsOf ["Owner"]) where
  nesting type _ cycle := by
    obtain ⟨_, first, _⟩ := TransGen.head'_iff.mp cycle
    obtain ⟨_, _, last⟩ := TransGen.tail'_iff.mp cycle
    have owner := first.of_ownerIndex.1
    rw [last.of_ownerIndex.2] at owner
    cases congrArg ComplexType.name owner
  extensions scope given name refers := by
    rw [given.rules_eq_plain] at refers
    cases refers

end Compile

/-- Owners that have a name do not repeat, so that an item refers to its seller. -/
theorem compile_terminates_of_ownerDocument :
    Index.build (ownerDocument [ownerName]) = .ok (ownerIndex [ownerName]) ∧
      (∀ name,
        ¬TransGen (Scalar.RestsOn (ownerIndex [ownerName]) (settingsOf ["Owner"])) name name) ∧
      (settingsOf ["Owner"]).EveryOptions EntityOptions.FlattensNothing ∧
      Grounded (ownerIndex [ownerName]) (settingsOf ["Owner"]) ∧
      ∀ path,
        compile (ownerIndex [ownerName]) (settingsOf ["Owner"]) ≠ .error (.endlessNesting path) :=
  ⟨build_ownerDocument, not_transGen_restsOn_ownerIndex, flattensNothing_settingsOf,
    grounded_ownerIndex, (compile_terminates build_ownerDocument not_transGen_restsOn_ownerIndex
      flattensNothing_settingsOf grounded_ownerIndex).1⟩

/-! ### Owners that have nothing but items -/

namespace Compile

/-- From every state as stated before, a walk is cut off. -/
def CutOff {α : Type} (Before : State → Prop) (walk : Walk α) : Prop :=
  ∀ state, Before state → ∃ path, walk.run state = .error (.endlessNesting path)

/-- From every state as stated before, a walk gives a result, and the state is as stated after. -/
def Reaches {α : Type} (Before : State → Prop) (walk : Walk α) (After : α → State → Prop) : Prop :=
  ∀ state, Before state → ∃ result final,
    walk.run state = .ok (result, final) ∧ After result final

section Walks

variable {α β : Type} {Before : State → Prop}

theorem CutOff.bind {first : Walk α} {next : α → Walk β} (cutOff : CutOff Before first) :
    CutOff Before (first >>= next) := by
  intro state before
  obtain ⟨path, ran⟩ := cutOff state before
  exact ⟨path, by rw [StateT.run_bind, ran]; rfl⟩

theorem Reaches.cutOff {first : Walk α} {next : α → Walk β} {After : α → State → Prop}
    (reaches : Reaches Before first After) (cutOff : ∀ value, CutOff (After value) (next value)) :
    CutOff Before (first >>= next) := by
  intro state before
  obtain ⟨value, final, ran, after⟩ := reaches state before
  obtain ⟨path, ranNext⟩ := cutOff value final after
  exact ⟨path, by rw [StateT.run_bind, ran]; exact ranNext⟩

/-- What follows a walk that gives a value without a change of the state. -/
theorem CutOff.after {first : Walk α} {next : α → Walk β} (value : α)
    (gives : ∀ state, first.run state = .ok (value, state)) (cutOff : CutOff Before (next value)) :
    CutOff Before (first >>= next) := by
  intro state before
  rw [StateT.run_bind, gives]
  exact cutOff state before

/-- Reading the state. -/
theorem CutOff.reads {next : State → Walk β}
    (cutOff : ∀ state, Before state → CutOff (· = state) (next state)) :
    CutOff Before (get >>= next) :=
  fun state before => cutOff state before state rfl

theorem CutOff.weaken {walk : Walk α} {Stronger : State → Prop} (cutOff : CutOff Before walk)
    (before : ∀ state, Stronger state → Before state) : CutOff Stronger walk :=
  fun state holds => cutOff state (before state holds)

end Walks

section Plain

variable {context : Context} {onward : Onward} {scope : Scope} {site : Site} {target : Target}
  {declaration : Element} {Before : State → Prop}

theorem relation?_plain (context : Context) (name : String) (target : Target) :
    relation? context .plain name (some target) =
      some (if context.roots.contains target.path then .manyToMany else .oneToMany) := by
  unfold relation?
  dsimp only [Option.map]
  cases context.roots.contains target.path <;> rfl

/-- A relation to many builds its target before anything else. -/
theorem addRelation_cutOff (plain : scope.rules = .plain)
    (cutOff : ∀ fields, CutOff Before (onward.build target.path target.type fields))
    (many : Bool) :
    CutOff Before (addRelation context onward scope site declaration (some target)
      (if many then .manyToMany else .oneToMany)) := by
  cases many with
  | false =>
    rw [if_neg (by decide), addRelation, plain]
    refine .after target (fun _ => rfl) (.reads fun state before => ?_)
    exact (cutOff _).bind.weaken fun _ same => same ▸ before
  | true =>
    rw [if_pos rfl, addRelation, plain]
    exact .after target (fun _ => rfl) (cutOff _).bind

theorem classifyElement_cutOff (plain : scope.rules = .plain) {type : Option ComplexType}
    (typed : context.index.elementComplexType declaration = .ok type)
    (infers : ∀ state, (inferTarget? context scope site declaration type.isSome).run state =
      .ok (some target, state))
    (cutOff : ∀ fields, CutOff Before (onward.build target.path target.type fields))
    (bagKey : String) :
    CutOff Before (classifyElement context onward scope site bagKey declaration) := by
  unfold classifyElement
  rw [typed]
  refine .after type (fun _ => rfl) (.after (some target) infers ?_)
  rw [plain, relation?_plain]
  exact addRelation_cutOff plain cutOff _

end Plain

/-! The type paths are those of the owner, of its items, of the items of their seller, and so on. -/

def trailStep : Nat → String
  | 0 => "item"
  | _ + 1 => "seller" ++ "_" ++ "item"

def trail : Nat → String
  | 0 => "Owner"
  | n + 1 => trail n ++ "." ++ trailStep n

def trailType : Nat → ComplexType
  | 0 => ownerType [] (some itemContainer)
  | _ + 1 => itemType (some itemContainer)

theorem length_pascalName_trail : StrictMono fun n => (Text.pascalName (trail n)).length := by
  refine strictMono_nat_of_lt_succ fun n => ?_
  have longer : 0 < (Text.pascalName (trailStep n)).length := by
    cases n with
    | zero => decide
    | succ n =>
      change 0 < (Text.pascalName ("seller" ++ "_" ++ "item")).length
      decide
  simp only [trail, Text.pascalName_append, String.length_append]
  omega

/-- Only entities of the trail have been built, those before the n-th. -/
structure OnTrail (n : Nat) (state : State) : Prop where
  rules : state.resolver.rules = []
  known : ∀ path name, state.resolver.known.get? path = some name →
    name = nameOf state.resolver.rules path
  built : ∀ entry ∈ state.entities, ∃ m < n, entry.1 = trail m ∧
    entry.2.name = Text.pascalName (trail m)

/-- The n-th entity of the trail is being built. -/
structure OnTrail.Opened (n : Nat) (state : State) : Prop extends OnTrail (n + 1) state where
  opened : ∃ entity, state.entities.get? (trail n) = some entity

section Trail

variable {context : Context} {onward : Onward} {n : Nat} {state : State} {entity : Entity}

theorem OnTrail.pascalName_ne {m : Nat} (before : m < n) :
    Text.pascalName (trail m) ≠ Text.pascalName (trail n) :=
  fun same => (length_pascalName_trail before).ne (congrArg String.length same)

theorem OnTrail.isBuilt_eq_false (onTrail : OnTrail n state) : state.isBuilt (trail n) = false := by
  refine Bool.eq_false_iff.mpr fun built => ?_
  obtain ⟨entry, member, same⟩ := List.any_eq_true.mp built
  obtain ⟨m, before, path, _⟩ := onTrail.built entry member
  exact pascalName_ne before (congrArg Text.pascalName (path.symm.trans (beq_iff_eq.mp same)))

theorem OnTrail.entityNamed?_eq_none (onTrail : OnTrail n state) :
    state.entityNamed? (Text.pascalName (trail n)) = none := by
  rw [State.entityNamed?, Option.map_eq_none_iff, List.find?_eq_none]
  intro entry member same
  obtain ⟨m, before, _, name⟩ := onTrail.built entry member
  exact pascalName_ne before (name.symm.trans (beq_iff_eq.mp same))

theorem OnTrail.further (onTrail : OnTrail n state) : OnTrail (n + 1) state where
  rules := onTrail.rules
  known := onTrail.known
  built entry member := by
    obtain ⟨m, before, same⟩ := onTrail.built entry member
    exact ⟨m, before.trans (Nat.lt_succ_self n), same⟩

theorem OnTrail.set (onTrail : OnTrail (n + 1) state)
    (named : entity.name = Text.pascalName (trail n)) :
    OnTrail.Opened n { state with entities := state.entities.set (trail n) entity } where
  rules := onTrail.rules
  known := onTrail.known
  built entry member := by
    rcases Table.mem_of_mem_set member with rfl | before
    · exact ⟨n, Nat.lt_succ_self n, rfl, named⟩
    · exact onTrail.built entry before
  opened := ⟨entity, Table.get?_set_self _ _ _⟩

theorem OnTrail.Opened.name (onTrail : OnTrail.Opened n state)
    (found : state.entities.get? (trail n) = some entity) :
    entity.name = Text.pascalName (trail n) := by
  obtain ⟨m, before, path, name⟩ := onTrail.built _ (Table.mem_of_get? found)
  exact name.trans (congrArg Text.pascalName path.symm)

theorem resolveName_reaches (n : Nat) :
    Reaches (OnTrail n) (resolveName (trail n)) fun name state =>
      name = ⟨Text.pascalName (trail n), false, true⟩ ∧ OnTrail n state := by
  intro state onTrail
  let resolved := state.resolver.resolve (trail n)
  have rules : resolved.2.2.rules = state.resolver.rules := NameResolver.resolve_rules _ _
  have name : resolved.1 = nameOf state.resolver.rules (trail n) :=
    NameResolver.resolve_name onTrail.known _
  refine ⟨resolved.1, { state.addNotices resolved.2.1 with resolver := resolved.2.2 }, rfl, ?_,
    rules.trans onTrail.rules, fun path name found => ?_, onTrail.built⟩
  · rw [name, onTrail.rules]
    rfl
  · change name = nameOf resolved.2.2.rules path
    rw [rules]
    exact NameResolver.resolve_known onTrail.known _ path name found

theorem outlineOf_reaches {type : ComplexType} {name : String} {content : Particle}
    (attributes : type.attributes = []) (has : type.content = some content) :
    Reaches (OnTrail.Opened n)
      (outlineOf context onward (.outermost (trail n) name .plain) (some type))
      fun outline state => outline = ⟨none, some content⟩ ∧ OnTrail.Opened n state := by
  intro state onTrail
  obtain ⟨entity, found⟩ := onTrail.opened
  have named : entity.name = Text.pascalName (trail n) := onTrail.name found
  have described : (describe type entity).name = Text.pascalName (trail n) := named
  refine ⟨_, _, ?_, rfl, onTrail.toOnTrail.set described⟩
  have custom : (Scope.outermost (trail n) name .plain).rules.isCustom = false := rfl
  have path : (Scope.outermost (trail n) name .plain).typePath = trail n := rfl
  simp [outlineOf, walkOutline, outline, modifyEntity, entityAt, walkAttributes, custom, path,
    found, has, attributes]
  rfl

/-- An entity of the trail walks its content, and so it is cut off where its element is. -/
theorem buildNew_cutOff {type : ComplexType} {declaration : Element}
    (plain : ∀ name path, context.book.forType name path = .ok .plain)
    (attributes : type.attributes = [])
    (has : type.content = some (.compositor .sequence .once [.element declaration]))
    (cutOff : ∀ name, CutOff (OnTrail.Opened n)
      (classify context onward (.outermost (trail n) name .plain) declaration.isOptional
        (.element declaration))) (fields : List Field) :
    CutOff (OnTrail n) (buildNew context onward (trail n) (Text.pascalName (trail n)) (some type)
      fields) := by
  let empty := Entity.ofTypePath (Text.pascalName (trail n)) (trail n)
  have opens : Reaches (OnTrail n)
      (modify fun state => { state with entities := state.entities.set (trail n) empty })
      fun _ => OnTrail.Opened n :=
    fun state onTrail => ⟨(), _, rfl, onTrail.further.set rfl⟩
  refine opens.cutOff fun _ => .after .plain (fun _ => by rw [plain]; rfl) ?_
  refine (outlineOf_reaches attributes has).cutOff fun outline => ?_
  rintro state ⟨rfl, onTrail⟩
  exact (cutOff _).bind.bind state onTrail

theorem buildEntity_cutOff {type : Option ComplexType} {fields : List Field}
    (cutOff : CutOff (OnTrail n) (buildNew context onward (trail n) (Text.pascalName (trail n)) type
      fields)) :
    CutOff (OnTrail n) (buildEntity context onward (trail n) type fields) := by
  refine (resolveName_reaches n).cutOff fun name => .reads ?_
  rintro state ⟨rfl, onTrail⟩
  rw [onTrail.isBuilt_eq_false, onTrail.entityNamed?_eq_none]
  refine CutOff.bind (cutOff.weaken ?_)
  rintro _ rfl
  exact onTrail

end Trail

/-- Nothing stands in front of the items of an owner. -/
def itemsContext (book : RuleBook) : Context :=
  ⟨ownerIndex [], settingsOf ["Owner"], book, ["Owner"]⟩

section Items

variable {book : RuleBook} {onward : Onward} {Before : State → Prop} {path name : String}

theorem elementComplexType_itemSeller :
    (ownerIndex []).elementComplexType itemSeller =
      .ok (some (ownerType [] (some itemContainer))) := by
  have notBuiltin : Schema.isBuiltin "Owner" = false := by decide +kernel
  have known : (ownerIndex []).complexType? "Owner" = some (ownerType [] (some itemContainer)) := by
    rfl
  have effective : Index.effectiveTypeName itemSeller = some "Owner" := by rfl
  simp [Index.elementComplexType, effective, notBuiltin, known]

/-- An owner only wraps its items, so that a seller stands for many of them. -/
theorem inferTarget?_itemSeller {site : Site} (named : site.name = "seller") (isComplex : Bool)
    (state : State) :
    (inferTarget? (itemsContext book) (.outermost path name .plain) site itemSeller isComplex).run
      state = .ok (some ⟨path ++ "." ++ ("seller" ++ "_" ++ "item"),
        some (itemType (some itemContainer))⟩, state) := by
  have noRule : hasExplicitRule .plain site.name isComplex = false := by cases isComplex <;> rfl
  simp only [inferTarget?, isRepeated, repeatedTarget, repeatedElement, noRule, Scope.outermost,
    itemsContext, elementComplexType_itemSeller]
  rw [named]
  rfl

theorem classify_ownerItem (cutOff : ∀ fields, CutOff Before
      (onward.build (path ++ "." ++ "item") (some (itemType (some itemContainer))) fields)) :
    CutOff Before (classify (itemsContext book) onward (.outermost path name .plain) true
      (.element (ownerItem (some itemContainer)))) := by
  let site : Site := ⟨"item", "item", none, true, none⟩
  let target : Target := ⟨path ++ "." ++ "item", some (itemType (some itemContainer))⟩
  change CutOff Before (classifyElement _ onward _ site _ _)
  have builds (fields : List Field) : CutOff Before (onward.build target.path target.type fields) :=
    cutOff fields
  exact classifyElement_cutOff rfl rfl (fun _ => rfl) builds _

theorem classify_itemSeller (cutOff : ∀ fields, CutOff Before
      (onward.build (path ++ "." ++ ("seller" ++ "_" ++ "item"))
        (some (itemType (some itemContainer))) fields)) :
    CutOff Before (classify (itemsContext book) onward (.outermost path name .plain) true
      (.element itemSeller)) := by
  let site : Site := ⟨"seller", "seller", none, true, none⟩
  change CutOff Before (classifyElement _ onward _ site _ _)
  exact classifyElement_cutOff rfl elementComplexType_itemSeller (inferTarget?_itemSeller rfl _)
    cutOff _

end Items

/-- However many levels there are, building an entity of the trail leads to the next one. -/
theorem build_trail_cutOff {book : RuleBook}
    (plain : ∀ name path, book.forType name path = .ok .plain) (levels n : Nat)
    (fields : List Field) :
    CutOff (OnTrail n)
      ((onward (itemsContext book) levels).build (trail n) (some (trailType n)) fields) := by
  induction levels generalizing n fields with
  | zero => exact fun state _ => ⟨trail n, rfl⟩
  | succ levels ih =>
    have next (fields : List Field) : CutOff (OnTrail.Opened n)
        ((onward (itemsContext book) levels).build (trail (n + 1)) (some (trailType (n + 1)))
          fields) :=
      (ih (n + 1) fields).weaken fun _ => OnTrail.Opened.toOnTrail
    cases n with
    | zero =>
      exact buildEntity_cutOff
        (buildNew_cutOff plain rfl rfl (fun _ => classify_ownerItem next) fields)
    | succ n =>
      exact buildEntity_cutOff
        (buildNew_cutOff plain rfl rfl (fun _ => classify_itemSeller next) fields)

theorem start_onTrail : OnTrail 0 (.start ⟨[], []⟩) where
  rules := rfl
  known _ _ found := by cases found
  built _ member := by cases member

theorem buildRoots_cutOff {book : RuleBook}
    (plain : ∀ name path, book.forType name path = .ok .plain) (levels : Nat) :
    CutOff (OnTrail 0)
      (buildRoots (itemsContext book) levels [("Owner", ownerType [] (some itemContainer))]) :=
  (build_trail_cutOff plain levels 0 []).bind.bind

end Compile

/-- Owners that have nothing but items are built without end, however many levels there are. Such an
owner stands for its items, so that an item has those of its seller, under a longer type path. -/
theorem compile_endless_of_ownerDocument :
    Index.build (ownerDocument []) = .ok (ownerIndex []) ∧
      (∀ name, ¬TransGen (Scalar.RestsOn (ownerIndex []) (settingsOf ["Owner"])) name name) ∧
      (settingsOf ["Owner"]).EveryOptions EntityOptions.FlattensNothing ∧
      (∀ levels, ∃ path,
        compile (ownerIndex []) (settingsOf ["Owner"]) levels = .error (.endlessNesting path)) ∧
      ∃ book, RuleBook.ofSettings (settingsOf ["Owner"]) = .ok book ∧ ∀ levels, ∃ path,
        ((onward (itemsContext book) levels).build "Owner"
          (some (ownerType [] (some itemContainer))) []).run (.start ⟨[], []⟩) =
            .error (.endlessNesting path) := by
  obtain ⟨book, read⟩ : ∃ book, RuleBook.ofSettings (settingsOf ["Owner"]) = .ok book := ⟨_, rfl⟩
  have plain := forType_of_settingsOf read
  refine ⟨by rfl, not_transGen_restsOn_ownerIndex, flattensNothing_settingsOf, fun levels => ?_,
    book, read, fun levels => build_trail_cutOff plain levels 0 [] _ start_onTrail⟩
  obtain ⟨path, cutOff⟩ := buildRoots_cutOff plain levels _ start_onTrail
  have named : NameResolver.ofRules (settingsOf ["Owner"]).typeMap = .ok ⟨[], []⟩ := by rfl
  have roots : (settingsOf ["Owner"]).compiler.roots.mapM (ownerIndex []).resolveRoot =
      .ok [("Owner", ownerType [] (some itemContainer))] := by rfl
  refine ⟨path, Result.bind_eq_error.mpr (.inl ?_)⟩
  rw [build, named, read, roots, Result.ok_bind, Result.ok_bind, Result.ok_bind]
  exact Result.bind_eq_error.mpr (.inl cutOff)

end EntityGraph
