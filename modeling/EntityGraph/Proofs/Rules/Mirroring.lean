import EntityGraph.Proofs.Build.MirroredRuns
import EntityGraph.Proofs.Graph.Coverage
import EntityGraph.Proofs.Graph.Inheritance
import EntityGraph.Proofs.Graph.Sharing
import EntityGraph.Proofs.Graph.Stems

/-!
# A type's own entity, and what the type is flattened into

A type may have an entity of its own, and be flattened into the entity of another type. Where the
settings ask for nothing but flattening, both have the same fields in the same order, but for the
prefixes of names and paths, and for what an optional element adds. What refers back to the owners
of relations is left aside: it is added to the type's own entity only.
-/
namespace EntityGraph

open Compile
open Schema (ComplexType Element Index)

/-! ## The fields that come from the type -/

/-- The materialized fields of an entity that come from its type: all but those that refer back to
the owners of relations. -/
def Entity.ownFields (entity : Entity) : List Field :=
  entity.materializedFields.filter fun field => !field.refersBack

theorem eq_of_grownFields {fields later : List Field}
    (grown : List.Forall₂ GrownField fields later)
    (noBags : ∀ field ∈ fields, ∀ entries, field.kind ≠ .jsonBag entries) : later = fields := by
  induction grown with
  | nil => rfl
  | cons head _ ih =>
    rw [ih fun field member => noBags field (List.mem_cons_of_mem _ member)]
    cases head with
    | same => rfl
    | bag kind _ => exact absurd kind (noBags _ List.mem_cons_self _)

/-- Scalars, with what refers back behind them, are the fields that come from the type. -/
theorem ownFields_eq {entity built : Entity} {fields : List Field}
    (scalar : ∀ field ∈ fields, ∃ value, field.kind = .scalar value)
    (adds : AddsBacks fields built.fields) (grown : GrownEntity built entity) :
    entity.ownFields = fields := by
  obtain ⟨backs, isBuilt, refer⟩ := adds
  have noBags : ∀ field ∈ built.fields, ∀ entries, field.kind ≠ .jsonBag entries := by
    intro field member entries bag
    rw [isBuilt] at member
    rcases List.mem_append.mp member with own | back
    · obtain ⟨value, kind⟩ := scalar field own
      rw [kind] at bag
      cases bag
    · have refers := refer field back
      rw [Field.refersBack, bag] at refers
      cases refers
  have kept : fields.filter (fun field => !field.refersBack && field.isMaterialized) = fields := by
    refine List.filter_eq_self.mpr fun field member => ?_
    obtain ⟨value, kind⟩ := scalar field member
    simp [Field.refersBack, Field.isMaterialized, kind, FieldKind.isMaterialized]
  have dropped :
      backs.filter (fun field => !field.refersBack && field.isMaterialized) = [] := by
    refine List.filter_eq_nil_iff.mpr fun field member => ?_
    simp [refer field member]
  rw [Entity.ownFields, Entity.materializedFields, List.filter_filter,
    eq_of_grownFields grown.fields noBags, isBuilt, List.filter_append, kept, dropped,
    List.append_nil]

/-! ## The types behind entities -/

namespace Stages

variable {index : Index} {settings : Settings} {graph : Graph} {levels : Nat} {entity : Entity}
  {path : String}
  {type : ComplexType}

/-- An entity has a single type path, and has been built from the type: but for what refers back to
owners, its fields are those that one run for the type has left. For a plain path this is the type
that the index has under it, or one that bears its name. -/
structure ComesFrom (stages : Stages index settings graph levels) (entity : Entity) (path : String)
    (type : ComplexType) : Prop where
  single : entity.sourceTypes = [path]
  known : Reached index (IsRootType index settings) type
  declared : IsPlainPath index settings path →
    index.complexType? path = some type ∨ type.name = some path
  run : ∃ roots names given built, Defines index path given type ∧
    (nameOf names path).entity = entity.name ∧ GrownEntity built entity ∧
    Stems ⟨index, settings, stages.book, roots⟩ names (.reached index (IsRootType index settings))
      path given built.fields

theorem exists_comesFrom (stages : Stages index settings graph levels)
    (unmapped : settings.typeMap = [])
    (only : settings.EveryOptions EntityOptions.OnlyFlattens) (member : entity ∈ graph.entities) :
    ∃ path type, stages.ComesFrom entity path type := by
  obtain ⟨path, single⟩ := stages.exists_single_source (by simp [unmapped]) member
  obtain ⟨roots, names, stemming⟩ := build_stemming (.reached index (IsRootType index settings))
    (fun selector inRoots root gives => .start ⟨selector, inRoots, root.1, gives⟩) stages.built
  obtain ⟨built, found, named, grown⟩ := stages.grownEntity_of_single member single
  have ofPath : (nameOf names path).entity = entity.name :=
    (stemming.tracked.named ▸ stemming.tracked.wellFormed.named path built found).symm.trans named
  obtain ⟨given, stems⟩ :=
    (stemming.stems path (State.isBuilt_iff.mpr ⟨built, found⟩)).resolve_left List.not_mem_nil
  rw [State.fieldsAt_of_get? found] at stems
  obtain ⟨levels, before, after, run, _⟩ := stems.run
  obtain ⟨rules, read, typed⟩ := run.inherits
  have plain : rules.isCustom = false := by
    obtain ⟨_, _, _, rfl⟩ := forType_onlyFlattens stages.book_read only read
    rfl
  obtain ⟨type, defines, _⟩ := typed plain
  have origin : Reached index (IsRootType index settings) type ∧
      (IsPlainPath index settings path →
        index.complexType? path = some type ∨ type.name = some path) := by
    rcases defines with rfl | ⟨_, found⟩
    · exact stems.comes type rfl
    · exact ⟨.named found, fun _ => .inl found⟩
  exact ⟨path, type, single, origin.1, origin.2, roots, names, given, built, defines, ofPath, grown,
    stems⟩

/-- Where the settings ask for nothing but flattening, the run behind an entity is a clean one, if
the type has no extension and no simple content. -/
theorem ComesFrom.exists_cleanRun {stages : Stages index settings graph levels}
    (comes : stages.ComesFrom entity path type)
    (only : settings.EveryOptions EntityOptions.OnlyFlattens)
    (noExtension : type.extension = none) (noSimpleContent : type.simpleContent = none) :
    ∃ roots names rules before after built,
      stages.book.forType entity.name path = .ok rules ∧
      CleanRun ⟨index, settings, stages.book, roots⟩ names path type rules before after ∧
      AddsBacks (after.fieldsAt path) built.fields ∧ GrownEntity built entity := by
  obtain ⟨roots, names, given, built, defines, ofPath, grown, stems⟩ := comes.run
  obtain ⟨levels, before, after, run, honest, unbagged, adds⟩ := stems.run
  obtain ⟨rules, read, _⟩ := run.inherits
  refine ⟨roots, names, rules, before, after, built, ofPath ▸ read, ?_, adds, grown⟩
  exact ⟨⟨given, levels, run, defines⟩, read, forType_onlyFlattens stages.book_read only read,
    noExtension, noSimpleContent, honest, unbagged⟩

end Stages

/-- Where the settings ask for nothing but flattening, every entity comes from a type. If a type
with simple members has an entity of its own, and an element of the type is flattened into the
entity of a type that wraps it, the fields of both are the same: those of the element have its name
in front of their names and paths, and may be null where the element is optional. -/
theorem flattened_fields_mirror_own {index : Index} {settings : Settings}
    {ownRoots flatRoots : List String} {own flat : Graph} {ownLevels flatLevels : Nat}
    (unmapped : settings.typeMap = []) (only : settings.EveryOptions EntityOptions.OnlyFlattens)
    (ownCompiled : compile index (settings.withRoots ownRoots) ownLevels = .ok own)
    (flatCompiled : compile index (settings.withRoots flatRoots) flatLevels = .ok flat) :
    ∃ (ownStages : Stages index (settings.withRoots ownRoots) own ownLevels)
      (flatStages : Stages index (settings.withRoots flatRoots) flat flatLevels),
      (∀ entity ∈ own.entities, ∃ path type, ownStages.ComesFrom entity path type) ∧
      (∀ entity ∈ flat.entities, ∃ path type, flatStages.ComesFrom entity path type) ∧
      ∀ part whole partPath wholePath partType wholeType declaration rules,
        ownStages.ComesFrom part partPath partType → IsRecord index partType →
        flatStages.ComesFrom whole wholePath wholeType → IsWrapper wholeType declaration →
        index.elementComplexType declaration = .ok (some partType) →
        flatStages.book.forType whole.name wholePath = .ok rules →
        asksForFlattening rules declaration.localName true = true →
        ∃ ownBase flatBase, List.Forall₂
          (Field.Mirrors declaration.localName declaration.isOptional ownBase flatBase)
          part.ownFields whole.ownFields := by
  obtain ⟨ownStages⟩ := exists_stages ownCompiled
  obtain ⟨flatStages⟩ := exists_stages flatCompiled
  refine ⟨ownStages, flatStages, fun _ => ownStages.exists_comesFrom unmapped only,
    fun _ => flatStages.exists_comesFrom unmapped only, ?_⟩
  intro part whole partPath wholePath partType wholeType declaration rules comesPart record
    comesWhole wraps typed read asked
  obtain ⟨ownPaths, _, ownRules, before, after, ownBuilt, _, ownRun, ownAdds, ownGrown⟩ :=
    comesPart.exists_cleanRun only record.noExtension record.noSimpleContent
  obtain ⟨flatPaths, _, flatRules, flatBefore, flatAfter, flatBuilt, flatRead, flatRun, flatAdds,
    flatGrown⟩ := comesWhole.exists_cleanRun only wraps.noExtension wraps.noSimpleContent
  obtain rfl : rules = flatRules := Except.ok.inj (read.symm.trans flatRead)
  have same : SameSources ⟨index, settings.withRoots ownRoots, ownStages.book, ownPaths⟩
    ⟨index, settings.withRoots flatRoots, flatStages.book, flatPaths⟩ := ⟨rfl, flatRoots, rfl⟩
  obtain ⟨ownBase, flatBase, fields, flattened, mirrors, adds, addsFlat⟩ :=
    ownRun.mirrored same flatRun record wraps typed asked
  have ownScalar : ∀ field ∈ fields, ∃ value, field.kind = .scalar value := fun field member => by
    obtain ⟨other, _, mirrored⟩ := Pointwise.exists_right mirrors member
    exact mirrored.scalar
  have flatScalar : ∀ field ∈ flattened, ∃ value, field.kind = .scalar value :=
    fun field member => by
      obtain ⟨other, _, mirrored⟩ := Pointwise.exists_left mirrors member
      exact mirrored.otherScalar
  refine ⟨ownBase, flatBase, ?_⟩
  rw [ownFields_eq ownScalar (adds.trans ownAdds) ownGrown,
    ownFields_eq flatScalar (addsFlat.trans flatAdds) flatGrown]
  exact mirrors

/-! ## Parts -/

def part : ComplexType := .ofText (some "Part") "code"

def ownerOfParts : ComplexType :=
  wrapping "Owner" .sequence (typedElement "parts" "Part" .unbounded)

def optionalPart : Element := { typedElement "part" "Part" .one with occurs := ⟨0, .one⟩ }

def whole : ComplexType := wrapping "Whole" .sequence optionalPart

/-- An owner of many parts, and a whole with a part. -/
def partsSchema : Index :=
  { (default : Index) with
    complexTypes := [("Owner", ownerOfParts), ("Part", part), ("Whole", whole)] }

/-- Nothing is asked for, but that the part of the whole is flattened. -/
def partsSettings : Settings :=
  { Settings.standard with
    entities := [⟨"Whole", { EntityOptions.none with flattenFields := ["part"] }, []⟩] }

theorem isRecord_part : IsRecord partsSchema part where
  noExtension := rfl
  noSimpleContent := rfl
  attributes _ listed := by cases listed
  elements content has declaration inside := by
    cases has
    cases inside with
    | inside listed within =>
      obtain rfl := List.mem_singleton.mp listed
      cases within with
      | itself =>
        have builtin : Schema.isBuiltin "xs:string" = true := by decide +kernel
        simp [IsSimple, Index.elementComplexType, Index.effectiveTypeName, builtin]
  noWildcards content has wildcard inside := by
    cases has
    cases inside with
    | inside listed within =>
      obtain rfl := List.mem_singleton.mp listed
      cases within

theorem isWrapper_whole : IsWrapper whole optionalPart :=
  ⟨rfl, rfl, rfl, .once, by decide, rfl⟩

/-- The schema has no other types. -/
theorem mem_of_reached_partsSchema {start : ComplexType → Prop} {type : ComplexType}
    (known : ∀ type, start type → ∃ name, partsSchema.complexType? name = some type)
    (reached : Reached partsSchema start type) : type ∈ [ownerOfParts, part, whole] := by
  have declared {name : String} {type : ComplexType}
      (found : partsSchema.complexType? name = some type) : type ∈ [ownerOfParts, part, whole] := by
    obtain ⟨key, atKey⟩ := Index.exists_key_of_complexType? found
    have listed : type ∈ partsSchema.complexTypes.map (·.2) :=
      List.mem_map.mpr ⟨(key, type), Table.mem_of_get? atKey, rfl⟩
    exact listed
  have plain : ∀ type ∈ [ownerOfParts, part, whole], type.extension.isNone = true ∧
      ∀ content ∈ type.contents, ∀ declaration ∈ content.elements,
        declaration.complexType.isNone = true := by decide
  induction reached with
  | start given =>
    obtain ⟨name, found⟩ := known _ given
    exact declared found
  | named found => exact declared found
  | inline _ has inside own ih =>
    have none := (plain _ ih).2 _ has _ inside
    rw [own] at none
    cases none
  | lineage _ member ih =>
    rw [lineage_of_noExtension partsSchema (Option.isNone_iff_eq_none.mp (plain _ ih).1),
      List.mem_singleton] at member
    exact member ▸ ih

/-- With one root, the entity of a type path comes from the type of that name. -/
theorem eq_of_comesFrom_partsSchema {root name path : String} {graph : Graph} {entity : Entity}
    {type expected : ComplexType}
    {stages : Stages partsSchema (partsSettings.withRoots [root]) graph}
    (comes : stages.ComesFrom entity path type) (single : entity.sourceTypes = [name])
    (selects : Text.dropStart? "/" root = none) (plain : '.' ∉ name.toList)
    (found : partsSchema.complexType? name = some expected)
    (listed : expected ∈ [ownerOfParts, part, whole]) (named : expected.name = some name) :
    path = name ∧ type = expected := by
  obtain rfl : path = name := by simpa [single] using comes.single.symm
  refine ⟨rfl, ?_⟩
  have selector {given : String}
      (inRoots : given ∈ (partsSettings.withRoots [root]).compiler.roots) :
      Text.dropStart? "/" given = none := List.mem_singleton.mp inRoots ▸ selects
  have isPlain : IsPlainPath partsSchema (partsSettings.withRoots [root]) path := by
    refine ⟨plain, fun given inRoots name isElement => ?_⟩
    rw [selector inRoots] at isElement
    cases isElement
  rcases comes.declared isPlain with known | own
  · exact Option.some.inj (known.symm.trans found)
  · have distinct : ([ownerOfParts, part, whole].map (·.name)).Nodup := by decide
    refine List.inj_on_of_nodup_map distinct (mem_of_reached_partsSchema ?_ comes.known) listed
      (own.trans named.symm)
    rintro type ⟨given, inRoots, resolved, gives⟩
    rcases Index.resolveRoot_eq_ok gives with ⟨_, _, isElement, _⟩ | ⟨_, _, isType⟩
    · rw [selector inRoots] at isElement
      cases isElement
    · exact ⟨_, isType⟩

/-- What an entity of a graph has: its name, its type paths and the names of its fields. -/
def Graph.ownFieldsOf (graph : Graph) (name : String) :
    Option (String × List String × List String) :=
  (graph.entity? name).map fun entity =>
    (entity.name, entity.sourceTypes, entity.ownFields.map (·.name))

theorem exists_entity_of_ownFieldsOf {settings : Settings} {name : String}
    {seen : String × List String × List String}
    (evaluated : (compile partsSchema settings).toOption.map (·.ownFieldsOf name) =
      some (some seen)) :
    ∃ graph, compile partsSchema settings = .ok graph ∧ ∃ entity ∈ graph.entities,
      (entity.name, entity.sourceTypes, entity.ownFields.map (·.name)) = seen := by
  obtain ⟨graph, compiled, has⟩ := Result.exists_ok_of_map evaluated
  obtain ⟨entity, found, same⟩ := Option.map_eq_some_iff.mp has
  exact ⟨graph, compiled, entity, List.mem_of_find?_eq_some found, same⟩

/-- The part of a whole has the field that parts of owners have, under its own name, and it may be
null as the part may be missing. -/
theorem flattened_fields_mirror_own_of_parts :
    ∃ own flat ownBase flatBase, compile partsSchema (partsSettings.withRoots ["Owner"]) = .ok own ∧
      compile partsSchema (partsSettings.withRoots ["Whole"]) = .ok flat ∧
      ∃ partEntity ∈ own.entities, ∃ wholeEntity ∈ flat.entities,
        partEntity.ownFields.map (·.name) = ["code"] ∧
        wholeEntity.ownFields.map (·.name) = ["part_code"] ∧
        List.Forall₂ (Field.Mirrors "part" true ownBase flatBase) partEntity.ownFields
          wholeEntity.ownFields := by
  obtain ⟨own, ownCompiled, partEntity, inOwn, seenPart⟩ :=
    @exists_entity_of_ownFieldsOf (partsSettings.withRoots ["Owner"]) "Part"
      ("Part", ["Part"], ["code"]) (by decide +kernel)
  obtain ⟨flat, flatCompiled, wholeEntity, inFlat, seenWhole⟩ :=
    @exists_entity_of_ownFieldsOf (partsSettings.withRoots ["Whole"]) "Whole"
      ("Whole", ["Whole"], ["part_code"]) (by decide +kernel)
  simp only [Prod.mk.injEq] at seenPart seenWhole
  obtain ⟨_, partSource, partNames⟩ := seenPart
  obtain ⟨wholeName, wholeSource, wholeNames⟩ := seenWhole
  have only : partsSettings.EveryOptions EntityOptions.OnlyFlattens := by decide
  obtain ⟨ownStages, flatStages, comesOwn, comesFlat, mirrors⟩ :=
    flattened_fields_mirror_own rfl only ownCompiled flatCompiled
  obtain ⟨_, _, comesPart⟩ := comesOwn partEntity inOwn
  obtain ⟨_, _, comesWhole⟩ := comesFlat wholeEntity inFlat
  have declaredPart : partsSchema.complexType? "Part" = some part := by rfl
  have declaredWhole : partsSchema.complexType? "Whole" = some whole := by rfl
  obtain ⟨rfl, rfl⟩ := eq_of_comesFrom_partsSchema comesPart partSource (by decide)
    (by decide) declaredPart (by simp) rfl
  obtain ⟨rfl, rfl⟩ := eq_of_comesFrom_partsSchema comesWhole wholeSource (by decide)
    (by decide) declaredWhole (by simp) rfl
  have asks : ((RuleBook.ofSettings (partsSettings.withRoots ["Whole"])).toOption.map fun book =>
      (book.forType "Whole" "Whole").toOption.map (asksForFlattening · "part" true)) =
        some (some true) := by decide +kernel
  obtain ⟨book, bookRead, asks⟩ := Result.exists_ok_of_map asks
  obtain ⟨rules, read, asked⟩ : ∃ rules, book.forType "Whole" "Whole" = .ok rules ∧
      asksForFlattening rules "part" true = true := Result.exists_ok_of_map asks
  obtain rfl : flatStages.book = book := Except.ok.inj (flatStages.book_read.symm.trans bookRead)
  have typed : partsSchema.elementComplexType optionalPart = .ok (some part) := by
    have notBuiltin : Schema.isBuiltin "Part" = false := by decide +kernel
    have effective : Index.effectiveTypeName optionalPart = some "Part" := rfl
    simp [Index.elementComplexType, effective, notBuiltin, declaredPart]
  obtain ⟨ownBase, flatBase, mirrored⟩ := mirrors partEntity wholeEntity _ _ _ _ optionalPart rules
    comesPart isRecord_part comesWhole isWrapper_whole typed (by rw [wholeName, read]) asked
  exact ⟨own, flat, ownBase, flatBase, ownCompiled, flatCompiled, partEntity, inOwn, wholeEntity,
    inFlat, partNames, wholeNames, mirrored⟩

/-- The entity of a part refers back to the owner of many parts, and the entity of a whole, into
which the part is flattened, does not. With what refers back, their fields are not the same. -/
theorem back_references_stay_behind :
    partsSettings.typeMap = [] ∧ partsSettings.EveryOptions EntityOptions.OnlyFlattens ∧
      partsSchema.complexType? "Part" = some part ∧ IsRecord partsSchema part ∧
      IsWrapper whole optionalPart ∧
      ∃ graph, compile partsSchema (partsSettings.withRoots ["Owner", "Whole"]) = .ok graph ∧
        ∃ partEntity ∈ graph.entities, ∃ wholeEntity ∈ graph.entities,
          (partEntity.sourceTypes, partEntity.materializedFields.map (·.name)) =
            (["Part"], ["code", "owner"]) ∧
          (wholeEntity.sourceTypes, wholeEntity.materializedFields.map (·.name)) =
            (["Whole"], ["part_code"]) ∧
          ∀ ownBase flatBase, ¬List.Forall₂ (Field.Mirrors "part" true ownBase flatBase)
            partEntity.materializedFields wholeEntity.materializedFields := by
  have evaluated : (compile partsSchema (partsSettings.withRoots ["Owner", "Whole"])).toOption.map
      (·.entities.map fun entity =>
        (entity.sourceTypes, entity.materializedFields.map (·.name))) =
      some [(["Owner"], ["parts"]), (["Part"], ["code", "owner"]), (["Whole"], ["part_code"])] := by
    decide +kernel
  obtain ⟨graph, compiled, seen⟩ := Result.exists_ok_of_map evaluated
  have exists_seen {shown : List String × List String}
      (listed : shown ∈ [(["Owner"], ["parts"]), (["Part"], ["code", "owner"]),
        (["Whole"], ["part_code"])]) :
      ∃ entity ∈ graph.entities,
        (entity.sourceTypes, entity.materializedFields.map (·.name)) = shown :=
    List.mem_map.mp (seen ▸ listed)
  obtain ⟨partEntity, inGraph, partSeen⟩ :=
    @exists_seen (["Part"], ["code", "owner"]) (by simp)
  obtain ⟨wholeEntity, alsoInGraph, wholeSeen⟩ := @exists_seen (["Whole"], ["part_code"]) (by simp)
  refine ⟨rfl, by decide, rfl, isRecord_part, isWrapper_whole, graph, compiled, partEntity,
    inGraph, wholeEntity, alsoInGraph, partSeen, wholeSeen, fun ownBase flatBase mirrored => ?_⟩
  -- The part has one field more than the whole.
  have lengths : (partEntity.materializedFields.map (·.name)).length =
      (wholeEntity.materializedFields.map (·.name)).length := by
    simpa only [List.length_map] using mirrored.length_eq
  rw [(Prod.mk.inj partSeen).2, (Prod.mk.inj wholeSeen).2] at lengths
  cases lengths

end EntityGraph
