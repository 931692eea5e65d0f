import EntityGraph.Proofs.Build.LawfulEntities
import EntityGraph.Proofs.Graph.Stages
import EntityGraph.Proofs.Schema.Resolved

/-!
# The types behind type paths

A type path is built once, from the first type that comes with it. A path that is neither composed
of others nor the name of a root element is only ever asked for with the type that the index has
under it. Composed paths and root elements have no such protection: what comes second is lost.

Requests are tested in a supervised build, at every level. Where the law of a build permits no
request that fails the test, the supervised build does the same as the plain one: so whatever is
shown to pass every such test is a fact about the requests of the plain build.
-/
namespace EntityGraph.Compile

open Schema (ComplexType Index)

/-! ## Supervised builds -/

/-- A test of a request: of the type path, and of the type that comes with it. -/
abbrev RequestTest := String → Option ComplexType → Bool

/-- The steps that lead elsewhere, where a request that fails the test is an error. -/
def Onward.supervised (test : RequestTest) (onward : Onward) : Onward where
  build path type fields :=
    if test path type then onward.build path type fields else throw (.unresolved path [])
  members := onward.members
  extension := onward.extension

/-- The steps of a supervised build, at most `levels` deep. -/
def supervisedOnward (context : Context) (test : RequestTest) : Nat → Onward
  | 0 => onward context 0
  | levels + 1 => ((supervisedOnward context test levels).deeper context).supervised test

/-- Builds the entities of the roots, by requests that pass the test. -/
def supervisedRoots (context : Context) (test : RequestTest) (levels : Nat)
    (roots : List (String × ComplexType)) : Walk Unit :=
  roots.forM fun (path, type) => do
    let _ ← (supervisedOnward context test levels).build path (some type) []

/-- Builds the entities of everything that the roots of the settings lead to, by requests that pass
the test. -/
def supervisedBuild (test : RequestTest) (index : Index) (settings : Settings)
    (levels : Nat := levelBound index settings) : Result (RuleBook × State) := do
  let resolver ← NameResolver.ofRules settings.typeMap
  let book ← RuleBook.ofSettings settings
  let roots ← settings.compiler.roots.mapM index.resolveRoot
  let context : Context := ⟨index, settings, book, roots.map (·.1)⟩
  let ((), state) ← (supervisedRoots context test levels roots).run (.start resolver)
  return (book, state)

variable {context : Context} {test : RequestTest}

theorem supervised_keeps {law : WalkLaw context} {onward other : Onward}
    (keeps : OnwardKeeps law onward other)
    (accepts : ∀ path type, law.Asks path type → test path type = true) :
    OnwardKeeps law onward (other.supervised test) where
  build path type fields asked backs := by
    simp only [Onward.supervised, accepts path type asked, if_true]
    exact keeps.build path type fields asked backs
  members := keeps.members
  extension := keeps.extension

theorem supervisedOnward_keeps (law : BuildLaw context)
    (accepts : ∀ path type, law.Asks path type → test path type = true) (levels : Nat) :
    OnwardKeeps law.toWalkLaw (onward context levels) (supervisedOnward context test levels) := by
  induction levels with
  | zero => exact onward_zero_keeps law.toWalkLaw
  | succ levels ih => exact supervised_keeps (deeper_keeps ih) accepts

theorem supervisedRoots_keeps (law : BuildLaw context)
    (accepts : ∀ path type, law.Asks path type → test path type = true) (levels : Nat)
    (roots : List (String × ComplexType)) (asked : ∀ root ∈ roots, law.Asks root.1 (some root.2)) :
    law.Keeps (buildRoots context levels roots) (supervisedRoots context test levels roots)
      fun _ => True :=
  .repeats fun root member =>
    ((supervisedOnward_keeps law accepts _).build _ _ _ (asked root member) allBack_nil).bind
      fun _ _ => .returns trivial

/-- A build does the same under supervision if there is a law for it by which only requests that
pass the test are made. -/
theorem supervisedBuild_eq {index : Index} {settings : Settings}
    (lawful : ∀ resolver book roots, NameResolver.ofRules settings.typeMap = .ok resolver →
      RuleBook.ofSettings settings = .ok book →
      settings.compiler.roots.mapM index.resolveRoot = .ok roots →
        ∃ law : BuildLaw ⟨index, settings, book, roots.map (·.1)⟩,
          law.Holds (.start resolver) ∧ (∀ root ∈ roots, law.Asks root.1 (some root.2)) ∧
            (∀ path type, law.Asks path type → test path type = true) ∧
              ∀ failure, ¬law.Excused failure)
    (levels : Nat) :
    supervisedBuild test index settings levels = build index settings levels := by
  -- Both builds read the settings alike, so the law is only needed for the walk over the roots.
  unfold supervisedBuild build
  cases named : NameResolver.ofRules settings.typeMap with
  | error failure => rfl
  | ok resolver =>
    cases read : RuleBook.ofSettings settings with
    | error failure => rfl
    | ok book =>
      cases selected : settings.compiler.roots.mapM index.resolveRoot with
      | error failure => rfl
      | ok roots =>
        obtain ⟨law, start, asked, accepts, strict⟩ :=
          lawful resolver book roots named read selected
        obtain ⟨same | ⟨failure, _, excused⟩, _⟩ :=
          supervisedRoots_keeps law accepts levels roots asked _ start
        · change ((supervisedRoots _ test levels roots).run _ >>= _) =
            ((buildRoots _ levels roots).run _ >>= _)
          rw [same]
        · exact absurd excused (strict failure)

/-! ## Plain paths -/

/-- A type path that is no name inside of another one, and not that of a root element. -/
def IsPlainPath (index : Index) (settings : Settings) (path : String) : Prop :=
  '.' ∉ path.toList ∧ ∀ selector ∈ settings.compiler.roots, ∀ name,
    Text.dropStart? "/" selector = some name → index.canonical name ≠ path

/-- A request for the type that the index has under the path. Only an anonymous type that bears a
name may come in its place. -/
inductive AsDeclared (index : Index) (path : String) : Option ComplexType → Prop
  /-- The type is looked up under the path. -/
  | lookedUp : AsDeclared index path none
  | declared {type : ComplexType} (found : index.complexType? path = some type) :
      AsDeclared index path (some type)
  | borne {type : ComplexType} (inside : type.container.isSome = true)
      (own : type.name = some path) : AsDeclared index path (some type)

/-- What a build may ask for: a plain path only with what is declared under it. -/
def MayAsk (index : Index) (settings : Settings) (path : String) (type : Option ComplexType) :
    Prop :=
  IsPlainPath index settings path → AsDeclared index path type

/-- Types inside elements know the element. Nothing else is asked of an index here. -/
def contained : Schema.Demands :=
  { Schema.Demands.none with inner := fun type => type.container.isSome = true }

variable {index : Index} {settings : Settings}

theorem meets_contained {document : Schema.Document} (indexed : Index.build document = .ok index) :
    index.Meets contained :=
  Index.build_meets indexed document.meets_none
    ⟨fun _ => trivial, fun _ _ _ _ => trivial, id⟩

/-- A type that is met under its own name is the declared one, or bears the name. -/
theorem asDeclared_of_own {type : ComplexType} (meets : index.Meets contained)
    (place : index.HasPlace contained type) {name : String} (own : type.name = some name) :
    AsDeclared index name (some type) := by
  rcases place with inside | ⟨key, declared⟩
  · exact .borne inside own
  · obtain rfl : key = name := Option.some.inj ((meets.named declared).1.symm.trans own)
    exact .declared (by rw [Index.complexType?, Index.lookup?, declared]; rfl)

theorem mem_memberPath (scope : Scope) (name : String) : '.' ∈ (scope.memberPath name).toList := by
  simp [Scope.memberPath]

theorem mayAsk_of_request (meets : index.Meets contained) {scope : Scope} {path : String}
    {type : Option ComplexType} (request : Request meets.vocabulary scope path type) :
    MayAsk index settings path type := by
  intro plain
  cases request with
  | declared met typed own =>
    exact asDeclared_of_own meets (meets.vocabulary.elementType met typed).2 own
  | placed name _ _ => exact absurd (mem_memberPath scope name) plain.1
  | named _ _ found => exact .declared found
  | content _ _ isType => exact .declared isType
  | base _ _ => exact .lookedUp
  | selected _ _ => exact .lookedUp
  | configured _ => exact .lookedUp

/-- A root with a plain path bears it as its name, or is declared under it. -/
theorem name_eq_or_found_of_resolveRoot {selector : String}
    (member : selector ∈ settings.compiler.roots) {root : String × ComplexType}
    (selected : index.resolveRoot selector = .ok root)
    (plain : IsPlainPath index settings root.1) :
    root.2.name = some root.1 ∨ index.complexType? root.1 = some root.2 := by
  rcases Index.resolveRoot_eq_ok selected with
    ⟨name, _, selects, found, typed, path⟩ | ⟨_, _, found⟩
  · left
    cases own : root.2.name with
    | none =>
      -- The path is the name of the root element, which a plain one is not.
      rw [own] at path
      exact absurd path.symm (plain.2 selector member name selects)
    | some given => rw [path, own, Option.getD_some]
  · exact .inr found

theorem mayAsk_of_resolveRoot (meets : index.Meets contained) {selector : String}
    (member : selector ∈ settings.compiler.roots) {root : String × ComplexType}
    (selected : index.resolveRoot selector = .ok root) :
    MayAsk index settings root.1 (some root.2) := by
  intro plain
  rcases name_eq_or_found_of_resolveRoot member selected plain with own | found
  · exact asDeclared_of_own meets (meets.root selected).2 own
  · exact .declared found

/-- Every build asks for plain paths with what is declared under them. -/
def definitionsLaw {context : Context} (meets : context.index.Meets contained) :
    BuildLaw context where
  Holds _ := True
  At _ := True
  words := meets.vocabulary
  Asks path type := MayAsk context.index context.settings path type ∧
    ∀ given, type = some given → meets.vocabulary.type given
  Found _ _ := True
  moved _ _ := trivial
  asks _ request := ⟨mayAsk_of_request meets request, request.known⟩
  asks_named _ _ _ := ⟨fun _ => .lookedUp, nofun⟩
  frame _ _ _ _ _ := trivial
  naming _ _ := trivial
  derives _ _ _ := ⟨trivial, trivial⟩
  added _ _ _ _ _ := trivial
  referredBack _ _ _ := trivial
  reshaped _ _ _ := trivial
  adopted _ _ _ _ := trivial
  opened _ _ _ := trivial
  outermost _ _ := trivial
  asked given := given.2 _ rfl

/-- The roots of a build are among what it may ask for. -/
theorem definitionsLaw_asks_root {book : RuleBook} {roots : List (String × ComplexType)}
    (meets : index.Meets contained)
    (selected : settings.compiler.roots.mapM index.resolveRoot = .ok roots) :
    ∀ root ∈ roots, (@definitionsLaw ⟨index, settings, book, roots.map (·.1)⟩ meets).Asks
      root.1 (some root.2) := by
  intro root member
  obtain ⟨selector, inRoots, gives⟩ :=
    Pointwise.exists_left (Result.forall₂_of_mapM selected) member
  refine ⟨mayAsk_of_resolveRoot meets inRoots gives, ?_⟩
  rintro _ ⟨⟩
  exact meets.root gives

end Compile

open Compile
open Schema (ComplexType Index)

/-- A plain type path is built from the definition that the schema has for it: a build where every
other request for a plain path is an error does the same. -/
theorem plain_paths_have_one_definition {document : Schema.Document} {index : Index}
    {settings : Settings} {test : RequestTest} (indexed : Index.build document = .ok index)
    (accepts : ∀ path type, MayAsk index settings path type → test path type = true)
    (levels : Nat) :
    supervisedBuild test index settings levels = build index settings levels := by
  refine supervisedBuild_eq (fun _ _ _ _ _ selected => ?_) levels
  exact ⟨definitionsLaw (meets_contained indexed), trivial,
    definitionsLaw_asks_root (meets_contained indexed) selected,
    fun path type asked => accepts path type asked.1, fun _ excused => excused⟩

/-- A type that is a sequence of one text. -/
def Schema.ComplexType.ofText (name : Option String) (member : String) : ComplexType :=
  ⟨name, false, none, [], some (.compositor .sequence .once [.element
    ⟨some member, none, some "xs:string", none, none, .once, none, none, none⟩]), none, none, none⟩

/-- An element that has the name of a type, but a type of its own. -/
def orderDocument : Schema.Document :=
  { (default : Schema.Document) with
    complexTypes := [.ofText (some "order") "b"]
    elements :=
      [⟨some "order", none, none, some (.ofText none "a"), none, .once, none, none, none⟩] }

/-- The names of the elements in the content of a type. -/
def Schema.ComplexType.memberNames (type : ComplexType) : List String :=
  type.contents.flatMap fun content => content.elements.filterMap (·.name)

/-- Requests for the order are those for the type, or for something inside an element. -/
def isOrder : RequestTest := fun path type =>
  path != "order" || type.all fun given => given.container.isSome || given.memberNames == ["b"]

theorem plain_paths_have_one_definition_of_orderDocument :
    ∃ index, Index.build orderDocument = .ok index ∧
      (∀ path type, MayAsk index (settingsOf ["order"]) path type → isOrder path type = true) ∧
      isOrder "order" (some (.ofText none "a")) = false ∧
      (build index (settingsOf ["order"])).toOption.map (·.2.isBuilt "order") = some true ∧
      supervisedBuild isOrder index (settingsOf ["order"]) =
        build index (settingsOf ["order"]) := by
  have evaluated : (Index.build orderDocument).toOption.map (fun index =>
      ((index.complexType? "order").map (·.memberNames),
        (build index (settingsOf ["order"])).toOption.map (·.2.isBuilt "order"))) =
      some (some ["b"], some true) := by decide +kernel
  obtain ⟨index, indexed, seen⟩ := Result.exists_ok_of_map evaluated
  obtain ⟨declared, isBuilt⟩ := Prod.mk.inj seen
  have plain : IsPlainPath index (settingsOf ["order"]) "order" := by
    refine ⟨by decide, fun selector member name selects => ?_⟩
    obtain rfl := List.mem_singleton.mp member
    exact absurd selects (by rw [show Text.dropStart? "/" "order" = none by decide]; nofun)
  have accepts : ∀ path type, MayAsk index (settingsOf ["order"]) path type →
      isOrder path type = true := by
    intro path type asked
    by_cases same : path = "order"
    · subst same
      cases asked plain with
      | lookedUp => rfl
      | declared found =>
        rw [found] at declared
        simpa [isOrder] using .inr (Option.some.inj declared)
      | borne inside own => simp [isOrder, inside]
    · simp [isOrder, same]
  exact ⟨index, indexed, accepts, by decide, isBuilt,
    plain_paths_have_one_definition indexed accepts _⟩

/-- Two roots with different types are built under one path, and the members of the second type are
nowhere in the graph. -/
theorem definitions_lost_at_roots :
    ∃ index first second graph, Index.build orderDocument = .ok index ∧
      index.resolveRoot "/order" = .ok ("order", first) ∧
      index.resolveRoot "order" = .ok ("order", second) ∧
      first.memberNames = ["a"] ∧ second.memberNames = ["b"] ∧
      compile index (settingsOf ["/order", "order"]) = .ok graph ∧
      ∀ entity ∈ graph.entities, ∀ field ∈ entity.fields, field.name = "a" := by
  have evaluated : (Index.build orderDocument).toOption.map (fun index =>
      ((index.resolveRoot "/order").toOption.map (fun root => (root.1, root.2.memberNames)),
        (index.resolveRoot "order").toOption.map (fun root => (root.1, root.2.memberNames)),
        (compile index (settingsOf ["/order", "order"])).toOption.map fun graph =>
          graph.entities.all fun entity => entity.fields.all (·.name == "a"))) =
      some (some ("order", ["a"]), some ("order", ["b"]), some true) := by decide +kernel
  obtain ⟨index, indexed, seen⟩ := Result.exists_ok_of_map evaluated
  obtain ⟨firstSeen, seen⟩ := Prod.mk.inj seen
  obtain ⟨secondSeen, graphSeen⟩ := Prod.mk.inj seen
  obtain ⟨⟨_, first⟩, firstSelected, firstSeen⟩ := Result.exists_ok_of_map firstSeen
  obtain ⟨⟨_, second⟩, secondSelected, secondSeen⟩ := Result.exists_ok_of_map secondSeen
  obtain ⟨graph, compiled, all⟩ := Result.exists_ok_of_map graphSeen
  obtain ⟨rfl, firstMembers⟩ := Prod.mk.inj firstSeen
  obtain ⟨rfl, secondMembers⟩ := Prod.mk.inj secondSeen
  refine ⟨index, first, second, graph, indexed, firstSelected, secondSelected, firstMembers,
    secondMembers, compiled, fun entity inGraph field member => ?_⟩
  have fields := List.all_eq_true.mp all entity inGraph
  exact beq_iff_eq.mp (List.all_eq_true.mp fields field member)

end EntityGraph
