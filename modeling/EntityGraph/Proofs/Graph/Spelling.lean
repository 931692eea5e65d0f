import EntityGraph.Proofs.Build.LawfulEntities
import EntityGraph.Proofs.Build.Roots
import EntityGraph.Proofs.Graph.Stages
import EntityGraph.Proofs.Options
import EntityGraph.Proofs.Schema.Resolved
import EntityGraph.Proofs.Text.Split

/-!
# How type names are spelled

The canonical form of a name with at most one prefix is its own canonical form, and selects the same
root. If all type names of a document have at most one prefix, then those of its index are
canonical.

A prefix that is bound to the default namespace may be written or left out. A root means the same
either way. The other names of the settings are taken as they are written: if all of them are
canonical, then no entity is built under any other spelling; otherwise a type may be built twice.
-/
namespace EntityGraph

/-! ## Canonical names -/

namespace Text

/-- Cutting takes a text apart at a separator. -/
theorem cut?_eq_some {separator : Char} {text before after : String}
    (cuts : cut? separator text = some (before, after)) :
    text.toList = before.toList ++ separator :: after.toList := by
  unfold cut? at cuts
  extract_lets start at cuts
  split at cuts
  next first rest ends =>
    obtain ⟨rfl, rfl⟩ := Prod.mk.inj (Option.some.inj cuts)
    have stopped : first = separator := by
      have stops := List.head?_dropWhile_not (· ≠ separator) text.toList
      rw [ends] at stops
      simpa using stops
    rw [String.toList_ofList, String.toList_ofList, ← stopped, ← ends,
      List.takeWhile_append_dropWhile]
  next => cases cuts

theorem cut?_eq_none {separator : Char} {text : String} (absent : separator ∉ text.toList) :
    cut? separator text = none := by
  cases cuts : cut? separator text with
  | none => rfl
  | some parts => exact absurd (by rw [cut?_eq_some cuts]; simp) absent

end Text

namespace Schema

/-- A name with at most one prefix. -/
def IsQualified (name : String) : Prop := name.toList.count ':' ≤ 1

/-- A name that selects a type, not an element. -/
def IsTypeName (name : String) : Prop := IsQualified name ∧ '/' ∉ name.toList

instance : DecidablePred IsQualified := fun _ => inferInstanceAs (Decidable (_ ≤ _))

instance : DecidablePred IsTypeName := fun _ => inferInstanceAs (Decidable (_ ∧ _))

namespace Namespaces

/-- A name that is its own canonical form. -/
def IsCanonical (names : Namespaces) (name : String) : Prop := names.canonical name = name

instance (names : Namespaces) : DecidablePred names.IsCanonical := fun _ =>
  inferInstanceAs (Decidable (_ = _))

variable {names : Namespaces} {name : String}

/-- The canonical form is the name, or what its prefix leaves. -/
theorem canonical_eq (names : Namespaces) (name : String) :
    names.canonical name = name ∨
      ∃ space, Text.cut? ':' name = some (space, names.canonical name) := by
  unfold canonical
  split
  · exact .inl rfl
  next space localName cuts =>
    repeat' split
    all_goals first | exact .inl rfl | exact .inr ⟨space, cuts⟩

theorem canonical_isCanonical (single : IsQualified name) :
    names.IsCanonical (names.canonical name) := by
  rcases names.canonical_eq name with same | ⟨space, cuts⟩
  · rw [same]
    exact same
  · have absent : ':' ∉ (names.canonical name).toList := by
      rw [IsQualified, Text.cut?_eq_some cuts, List.count_append, List.count_cons_self] at single
      exact List.count_eq_zero.mp (by omega)
    rw [IsCanonical, canonical, Text.cut?_eq_none absent]

theorem mem_of_mem_canonical {c : Char} (member : c ∈ (names.canonical name).toList) :
    c ∈ name.toList := by
  rcases names.canonical_eq name with same | ⟨space, cuts⟩
  · rwa [same] at member
  · rw [Text.cut?_eq_some cuts]
    exact List.mem_append_right _ (List.mem_cons_of_mem _ member)

end Namespaces

/-- The canonical form of the name of a type selects the same root. -/
theorem Index.resolveRoot_canonical {index : Index} {name : String} (isName : IsTypeName name) :
    index.resolveRoot (index.canonical name) = index.resolveRoot name := by
  have plain (other : String) (absent : '/' ∉ other.toList) : Text.dropStart? "/" other = none := by
    cases drops : Text.dropStart? "/" other with
    | none => rfl
    | some rest =>
      have marked : '/' ∈ "/".toList := by decide
      exact absurd (Text.dropStart?_eq_some.mp drops ▸ List.mem_append_left _ marked) absent
  have fixed : index.canonical (index.canonical name) = index.canonical name :=
    Namespaces.canonical_isCanonical isName.1
  unfold resolveRoot
  rw [plain name isName.2, plain (index.canonical name) fun member =>
    isName.2 (Namespaces.mem_of_mem_canonical member)]
  simp only [fixed]

/-- Type names with at most one prefix, and nothing else. -/
def Demands.qualified : Demands := { Demands.none with type := IsQualified }

/-- Canonical type names, and nothing else. -/
def Demands.canonical (names : Namespaces) : Demands :=
  { Demands.none with type := names.IsCanonical }

theorem Index.build_meets_canonical {document : Document} {index : Index}
    (built : Index.build document = .ok index) (written : document.Meets .qualified) :
    index.Meets (.canonical index.namespaces) := by
  rw [Index.build_namespaces built]
  exact Index.build_meets built written
    ⟨Namespaces.canonical_isCanonical, fun _ _ _ _ => trivial, fun _ => trivial⟩

end Schema


open Schema (ComplexType Index Namespaces)

/-! ## Spelling in a build -/

namespace Compile

/-- A type path of canonical names: that of a type, or of a place inside a type. -/
inductive CanonicalPath (names : Namespaces) : String → Prop
  | type {path : String} (own : names.IsCanonical path) : CanonicalPath names path
  | place {outer : String} (within : CanonicalPath names outer) (name : String) :
      CanonicalPath names (outer ++ "." ++ name)

end Compile

/-- All targets of relations, and the type of the parent, are canonical. -/
def EntityOptions.IsCanonical (names : Namespaces) (options : EntityOptions) : Prop :=
  ∀ path ∈ options.targets, names.IsCanonical path

instance (names : Namespaces) : DecidablePred (EntityOptions.IsCanonical names) := fun options =>
  inferInstanceAs (Decidable (∀ path ∈ options.targets, names.IsCanonical path))

theorem canonical_layers (names : Namespaces) : Layers (EntityOptions.IsCanonical names) where
  none := fun _ member => by cases member
  layered upper lower path member :=
    (EntityOptions.mem_targets_layered member).elim (upper path) (lower path)

/-- Apart from the roots, the settings name types by canonical names. Those that naming rules take
literally count too, as an extra field leads from the name of an entity back to them. -/
structure Settings.SpellsCanonically (names : Namespaces) (settings : Settings) : Prop where
  roots : ∀ selector ∈ settings.compiler.roots, Schema.IsQualified selector
  options : settings.EveryOptions (EntityOptions.IsCanonical names)
  rules : ∀ rule ∈ settings.typeMap, ∀ path, Compile.literalText? rule.pattern = some path →
    names.IsCanonical path

namespace Compile

/-- Only canonical paths are built, have been named, or are taken literally by naming rules. -/
structure State.SpelledCanonically (names : Namespaces) (state : State) : Prop where
  built : ∀ {path entity}, state.entities.get? path = some entity → CanonicalPath names path
  known : ∀ entry ∈ state.resolver.known, CanonicalPath names entry.1
  rules : ∀ rule ∈ state.resolver.rules, ∀ path, rule.literal = some path →
    CanonicalPath names path

namespace State.SpelledCanonically

variable {names : Namespaces} {state : State}

theorem set (spelled : state.SpelledCanonically names) {path : String}
    (canonical : CanonicalPath names path) (entity : Entity) :
    State.SpelledCanonically names { state with entities := state.entities.set path entity } where
  built get := by
    rcases Table.cases_of_get?_set get with ⟨rfl, _⟩ | old
    · exact canonical
    · exact spelled.built old
  known := spelled.known
  rules := spelled.rules

theorem resolve (spelled : state.SpelledCanonically names) {path : String}
    (canonical : CanonicalPath names path) :
    State.SpelledCanonically names
      { state with resolver := (state.resolver.resolve path).2.2 } where
  built := spelled.built
  known := by
    intro entry member
    unfold NameResolver.resolve at member
    dsimp only at member
    split at member
    · exact spelled.known entry member
    · rcases Table.mem_of_mem_set member with rfl | old
      · exact canonical
      · exact spelled.known entry old
  rules := by
    intro rule member
    exact spelled.rules rule (NameResolver.resolve_rules state.resolver path ▸ member)

/-- An entity leads back to canonical paths only. -/
theorem reverse (spelled : state.SpelledCanonically names) {entity path : String}
    (found : state.resolver.reverse? entity = some path) : CanonicalPath names path := by
  rcases NameResolver.cases_of_reverse? found with ⟨rule, member, literal⟩ | named
  · exact spelled.rules rule member path literal
  · obtain ⟨entry, has, rfl⟩ := List.mem_map.mp named
    exact spelled.known entry has

end State.SpelledCanonically

/-- From a canonical path, under options with canonical targets, only canonical paths are asked
for. -/
theorem canonicalPath_of_request {index : Index} (meets : index.Meets (.canonical index.namespaces))
    {scope : Scope} (place : CanonicalPath index.namespaces scope.typePath)
    (options : scope.rules.options.IsCanonical index.namespaces) {path : String}
    {type : Option ComplexType} (request : Request meets.vocabulary scope path type) :
    CanonicalPath index.namespaces path := by
  cases request with
  | declared met typed own => exact .type ((meets.vocabulary.elementType met typed).1.name own)
  | placed name _ _ => exact .place place name
  | @named member _ _ met names _ =>
    cases member with
    | element declaration => exact .type (Schema.Element.Meets.effectiveTypeName met names)
    | attrib declaration => exact .type (met.1 path names)
  | content known has _ => exact .type (known.1.simpleContent has).1
  | base known has => exact .type (known.1.extension has).1
  | selected met names => exact .type (Schema.Element.Meets.effectiveTypeName met names)
  | configured target => exact .type (options path target)

theorem canonicalPath_of_resolveRoot {index : Index}
    (meets : index.Meets (.canonical index.namespaces)) {selector : String}
    (qualified : Schema.IsQualified selector) {root : String × ComplexType}
    (selected : index.resolveRoot selector = .ok root) :
    CanonicalPath index.namespaces root.1 := by
  rcases Index.resolveRoot_eq_ok selected with ⟨name, _, selects, _, _, path⟩ | ⟨_, path, _⟩
  · rw [path]
    -- The path of a root element is the name of its type, or its own: both are canonical.
    cases own : root.2.name with
    | none =>
      refine .type (Namespaces.canonical_isCanonical ?_)
      rw [Schema.IsQualified, Text.dropStart?_eq_some.mp selects, List.count_append] at qualified
      exact Nat.le_of_add_left_le qualified
    | some given => exact .type ((meets.root selected).1.name own)
  · rw [path]
    exact .type (Namespaces.canonical_isCanonical qualified)

/-- Builds under canonical options stay within canonical paths. -/
def spellingLaw {context : Context}
    (meets : context.index.Meets (.canonical context.index.namespaces))
    (options : ∀ path entity rules, context.book.forType entity path = .ok rules →
      rules.options.IsCanonical context.index.namespaces) : BuildLaw context where
  Holds := State.SpelledCanonically context.index.namespaces
  At scope := CanonicalPath context.index.namespaces scope.typePath ∧
    scope.rules.options.IsCanonical context.index.namespaces
  words := meets.vocabulary
  Asks path type := CanonicalPath context.index.namespaces path ∧
    ∀ given, type = some given → meets.vocabulary.type given
  Found _ _ := True
  moved place same := by
    obtain ⟨path, _, rules⟩ := Prod.mk.inj same |>.imp id Prod.mk.inj
    rwa [path, rules]
  asks place request := ⟨canonicalPath_of_request meets place.1 place.2 request, request.known⟩
  asks_named spelled found _ := ⟨spelled.reverse found, nofun⟩
  frame spelled entities resolver _ _ :=
    ⟨entities ▸ spelled.built, resolver ▸ spelled.known, resolver ▸ spelled.rules⟩
  naming spelled asked := spelled.resolve asked.1
  derives spelled _ _ := ⟨⟨spelled.built, spelled.known, spelled.rules⟩, trivial⟩
  added spelled place _ _ _ := spelled.set place.1 _
  referredBack spelled found _ := spelled.set (spelled.built found) _
  reshaped spelled found _ := spelled.set (spelled.built found) _
  adopted spelled place _ _ := spelled.set place.1 _
  opened spelled asked entity := spelled.set asked.1 _
  outermost asked given := ⟨asked.1, options _ _ _ given⟩
  asked given := given.2 _ rfl

theorem literal_of_ofRules {rules : List NamingRule} {resolver : NameResolver}
    (read : NameResolver.ofRules rules = .ok resolver) {ready : NameRule}
    (member : ready ∈ resolver.rules) :
    ∃ rule ∈ rules, ready.literal = literalText? rule.pattern := by
  obtain ⟨all, mapped, made⟩ := Result.bind_eq_ok.mp read
  obtain rfl := Result.pure_eq_ok.mp made
  obtain ⟨rule, inRules, gives⟩ := Pointwise.exists_left (Result.forall₂_of_mapM mapped) member
  obtain ⟨pattern, _, gives⟩ := Result.bind_eq_ok.mp gives
  obtain rfl := Result.pure_eq_ok.mp gives
  exact ⟨rule, inRules, rfl⟩

theorem build_spelledCanonically {index : Index} {settings : Settings} {levels : Nat}
    {book : RuleBook} {state : State} (meets : index.Meets (.canonical index.namespaces))
    (spells : settings.SpellsCanonically index.namespaces)
    (built : build index settings levels = .ok (book, state)) :
    state.SpelledCanonically index.namespaces := by
  obtain ⟨resolver, roots, named, read, selected, ran⟩ := build_eq_ok built
  have start : (State.start resolver).SpelledCanonically index.namespaces := by
    refine ⟨(fun get => by cases get), fun entry member => ?_, fun ready member path literal => ?_⟩
    · rw [State.start, NameResolver.ofRules_known named] at member
      cases member
    · obtain ⟨rule, inRules, same⟩ := literal_of_ofRules named member
      exact .type (spells.rules rule inRules path (same.symm.trans literal))
  -- The rules of every path are layered from the options of the settings, which are canonical.
  let law := @spellingLaw ⟨index, settings, book, roots.map (·.1)⟩ meets fun _ _ _ given =>
    rules_of_layers (canonical_layers _) read spells.options given
  have asked : ∀ root ∈ roots, law.Asks root.1 (some root.2) := by
    intro root member
    obtain ⟨selector, inRoots, gives⟩ :=
      Pointwise.exists_left (Result.forall₂_of_mapM selected) member
    refine ⟨canonicalPath_of_resolveRoot meets (spells.roots selector inRoots) gives, ?_⟩
    rintro _ ⟨⟩
    exact meets.root gives
  exact ((buildRoots_keeps law levels roots asked _ start).2 () state ran).1

end Compile

open Compile

/-- A selector of a root, or the canonical form of it if it is the name of a type. -/
def Schema.Index.Respells (index : Index) (written other : String) : Prop :=
  other = written ∨ Schema.IsTypeName written ∧ other = index.canonical written

theorem Schema.Index.mapM_resolveRoot_respelled {index : Index} {written others : List String}
    (respelled : List.Forall₂ index.Respells written others) :
    others.mapM index.resolveRoot = written.mapM index.resolveRoot := by
  induction respelled with
  | nil => rfl
  | cons head _ ih =>
    rw [List.mapM_cons, List.mapM_cons, ih]
    rcases head with rfl | ⟨isName, rfl⟩
    · rfl
    · rw [Schema.Index.resolveRoot_canonical isName]

/-- The roots may be spelled in any way. If all other names of the settings are canonical, and all
names of the schema have one prefix at most, then every type is built under a canonical path. -/
theorem types_built_under_canonical_paths {document : Schema.Document} {index : Index}
    {settings : Settings} {respelled : List String} (indexed : Index.build document = .ok index)
    (same : List.Forall₂ index.Respells settings.compiler.roots respelled) (levels : Nat) :
    compile index (settings.withRoots respelled) levels = compile index settings levels ∧
      ∀ graph, document.Meets .qualified → settings.SpellsCanonically index.namespaces →
        compile index settings levels = .ok graph → ∀ entity ∈ graph.entities,
          ∀ path ∈ entity.sourceTypes, CanonicalPath index.namespaces path := by
  refine ⟨compile_withRoots (Schema.Index.mapM_resolveRoot_respelled same) levels, ?_⟩
  intro graph qualified spells compiled entity member path source
  obtain ⟨stages⟩ := exists_stages compiled
  have spelled := build_spelledCanonically (Index.build_meets_canonical indexed qualified) spells
    stages.built
  obtain ⟨built, found, _⟩ := (stages.mem_sourceTypes_iff member).mp source
  exact spelled.built found

/-- Two types, in a namespace that is the default and has a prefix too. -/
def shopDocument : Schema.Document :=
  let row (name : String) : ComplexType :=
    ⟨some name, false, none, [], some (.compositor .sequence .once []), none, none, none⟩
  { (default : Schema.Document) with
    namespaces := [("", "urn:shop"), ("shop", "urn:shop")]
    complexTypes := [row "Base", row "Owner"] }

/-- The owner has a parent, which is a root too. -/
def shopSettings (parent : String) : Settings :=
  { settingsOf ["shop:Base", "Owner"] with
    entities := [⟨"Owner", { EntityOptions.none with parentType := some parent }, []⟩] }

theorem shopDocument_meets : shopDocument.Meets .qualified := by
  have row (name : String) (isName : Schema.IsQualified name) :
      ComplexType.Meets .qualified ⟨name, false, none, [],
        some (.compositor .sequence .once []), none, none, none⟩ := by
    simp [Schema.ComplexType.Meets, Schema.ContentMeets, Schema.ExtensionMeets,
      Schema.Particle.Meets, Schema.PartsMeet, Schema.AttributesMeet, Schema.Demands.qualified,
      isName]
  refine ⟨fun type member => ?_, (fun _ none => by cases none), (fun _ none => by cases none),
    (fun _ none => by cases none), fun _ none => by cases none⟩
  rcases List.mem_pair.mp member with rfl | rfl
  · exact row "Base" (by decide)
  · exact row "Owner" (by decide)

theorem types_built_under_canonical_paths_of_shopDocument :
    ∃ index graph, Index.build shopDocument = .ok index ∧
      compile index (shopSettings "Base") = .ok graph ∧
      graph.entities.map (·.sourceTypes) = [["Base"], ["Owner"]] ∧
      compile index ((shopSettings "Base").withRoots ["Base", "Owner"]) = .ok graph ∧
      ∀ entity ∈ graph.entities, ∀ path ∈ entity.sourceTypes,
        CanonicalPath index.namespaces path := by
  have evaluated : (Index.build shopDocument).toOption.map (fun index =>
      (compile index (shopSettings "Base")).toOption.map (·.entities.map (·.sourceTypes))) =
      some (some [["Base"], ["Owner"]]) := by decide +kernel
  obtain ⟨index, indexed, seen⟩ := Result.exists_ok_of_map evaluated
  obtain ⟨graph, compiled, sources⟩ := Result.exists_ok_of_map seen
  have names : index.namespaces = shopDocument.namespaces := Index.build_namespaces indexed
  have respelled : List.Forall₂ index.Respells (shopSettings "Base").compiler.roots
      ["Base", "Owner"] := by
    refine .cons (.inr ⟨by decide, ?_⟩) (.cons (.inl rfl) .nil)
    rw [Index.canonical, names]
    decide
  have spells : (shopSettings "Base").SpellsCanonically index.namespaces := by
    rw [names]
    exact ⟨by decide, by decide, by decide⟩
  obtain ⟨alike, canonical⟩ := types_built_under_canonical_paths indexed respelled _
  exact ⟨index, graph, indexed, compiled, sources, alike.trans compiled,
    canonical graph shopDocument_meets spells compiled⟩

/-- The prefix makes the same type another one where the settings name it as a parent. -/
theorem prefix_builds_type_twice :
    ∃ index, Index.build shopDocument = .ok index ∧ index.canonical "shop:Base" = "Base" ∧
      (∃ graph, compile index (shopSettings "Base") = .ok graph) ∧
      compile index (shopSettings "shop:Base") =
        .error (.duplicateEntity "Base" "shop:Base" "Base") := by
  have evaluated : (Index.build shopDocument).toOption.map (fun index =>
      (index.canonical "shop:Base", (compile index (shopSettings "Base")).toOption.isSome,
        Result.failure? (compile index (shopSettings "shop:Base")))) =
      some ("Base", true, some (.duplicateEntity "Base" "shop:Base" "Base")) := by decide +kernel
  obtain ⟨index, indexed, seen⟩ := Result.exists_ok_of_map evaluated
  obtain ⟨canonical, seen⟩ := Prod.mk.inj seen
  obtain ⟨succeeds, fails⟩ := Prod.mk.inj seen
  exact ⟨index, indexed, canonical, Result.isSome_toOption.mp succeeds,
    Result.eq_error_of_failure? fails⟩

end EntityGraph
