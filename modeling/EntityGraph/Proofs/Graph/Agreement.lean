import EntityGraph.Proofs.Graph.Survival
import EntityGraph.Proofs.Merge.Agreement

/-!
# Built entities that agree

The entities that are built under one name can only be merged if their fields agree in pairs. What
a build makes is regular: one-to-one references own their rows, and bags have no options. So the
order of the entities, and what the merged field becomes on the way, does not matter.
-/
namespace EntityGraph

/-! ## Regular fields -/

namespace Field.IsRegular

variable {field other : Field}

theorem of_shape (regular : other.IsRegular) (kind : field.kind.shape = other.kind.shape)
    (occurs : field.maxOccurs = other.maxOccurs) (flags : field.flags = other.flags) :
    field.IsRegular := by
  refine ⟨fun target onDelete relatedName reference => ?_, fun entries bag => ?_⟩
  · rw [reference] at kind
    obtain ⟨otherName, same⟩ := FieldKind.shape_eq_toOne.mp kind.symm
    exact regular.cascades target onDelete otherName same
  · rw [bag] at kind
    rw [occurs, flags]
    exact regular.bag entries (FieldKind.shape_eq_jsonBag.mp kind.symm)

/-- A field that is neither a one-to-one reference nor a bag is regular. -/
theorem of_plain
    (noReference : ∀ target onDelete relatedName,
      field.kind ≠ .toOne target true onDelete relatedName)
    (noBag : ∀ entries, field.kind ≠ .jsonBag entries) : field.IsRegular :=
  ⟨fun target onDelete relatedName reference =>
    absurd reference (noReference target onDelete relatedName),
    fun entries bag => absurd bag (noBag entries)⟩

end Field.IsRegular

namespace Compile

theorem Draft.isRegular {context : Context} {state : State} {scope : Scope} {draft : Field}
    (drafted : Draft context state scope draft) :
    draft.IsRegular ∧ ∀ entries, draft.kind ≠ .jsonBag entries := by
  cases drafted with
  | @value site kind most value consistent =>
    have noBag (entries : Bag) : kind ≠ .jsonBag entries := by
      rintro rfl
      exact value
    refine ⟨⟨fun target onDelete relatedName reference => ?_,
      fun entries bag => absurd bag (noBag entries)⟩, noBag⟩
    obtain rfl : kind = .toOne target true onDelete relatedName := reference
    cases relatedName with
    | none => exact value.2 rfl
    | some name => exact value.elim
  | reverseOneToMany | reverseOneToOne | manyToMany =>
    exact ⟨.of_plain (fun _ _ _ => nofun) fun _ => nofun, fun _ => nofun⟩

theorem Origin.isRegular {context : Context} {state : State} {scope : Scope} {field : Field}
    (origin : Origin context state scope field) : field.IsRegular := by
  cases origin with
  | dropped | parentAlias | content => exact .of_plain (fun _ _ _ => nofun) fun _ => nofun
  | @finished draft _ _ _ drafted finished =>
    obtain ⟨regular, noBag⟩ := drafted.isRegular
    obtain ⟨_, kind, _⟩ := finishField_form finished
    -- Finishing changes a reference in its related name only, and makes no bag of anything.
    rcases kind with same | ⟨_, _, _, scalar⟩
    · refine ⟨fun target onDelete relatedName reference => ?_, fun entries bag => ?_⟩
      · rw [reference] at same
        obtain ⟨draftName, draftReference⟩ := FieldKind.shape_eq_toOne.mp same.symm
        exact regular.cascades target onDelete draftName draftReference
      · rw [bag] at same
        exact absurd (FieldKind.shape_eq_jsonBag.mp same.symm) (noBag entries)
    · refine .of_plain (fun target onDelete relatedName reference => ?_) fun entries bag => ?_
      · rw [reference] at scalar
        cases scalar
      · rw [bag] at scalar
        cases scalar
  | back =>
    refine ⟨fun _ _ _ reference => ?_, fun _ => nofun⟩
    cases reference
    rfl
  | bag => exact ⟨fun _ _ _ => nofun, fun _ _ => ⟨rfl, rfl⟩⟩
  | extra _ asked => cases asked <;> exact .of_plain (fun _ _ _ => nofun) fun _ => nofun

/-- In the end of a build all fields are regular. -/
theorem Construction.isRegular {index : Schema.Index} {settings : Settings} {book : RuleBook}
    {state : State} (construction : Construction index settings book state) {path : String}
    {entity : Entity} (found : state.entities.get? path = some entity) {field : Field}
    (member : field ∈ entity.fields) : field.IsRegular := by
  cases construction.traced path entity found field member with
  | mark kind =>
    exact .of_plain (fun _ _ _ reference => absurd (kind.symm.trans reference) nofun)
      fun _ bag => absurd (kind.symm.trans bag) nofun
  | @added earlier scope offered relatedName steps added same =>
    obtain ⟨_, _, kind, _, _, _, occurs, _, key, unique, index⟩ := Field.bare_eq_iff.mp same
    have flags : field.flags = offered.flags := by rw [Field.flags, key, unique, index]; rfl
    refine added.origin.isRegular.of_shape ?_ occurs flags
    rw [kind, withRelatedName, FieldKind.shape_setRelatedName]

end Compile

open Compile

/-! ## Groups -/

/-- Under settings that tolerate no difference, entities of one name whose literals are finite can
only be merged if they agree in pairs. With any other difference, the merge fails. -/
theorem built_members_agree {index : Schema.Index} {settings : Settings} {levels : Nat}
    {book : RuleBook} {state : State} (built : build index settings levels = .ok (book, state))
    (strict : settings.IsStrict) {name : String} {first : Entity} {others : List Entity}
    (group : state.builtAs name = first :: others)
    (finite : ∀ member ∈ first :: others, ∀ field ∈ member.fields, field.kind.IsFinite)
    (merged : List Entity) :
    (∀ entity later, mergeGroup book first others merged = .ok (entity, later) →
      AgreeInPairs (LeavesTo merged (first :: others)) (first :: others)) ∧
    (¬AgreeInPairs (LeavesTo merged (first :: others)) (first :: others) →
      ∃ failure, mergeGroup book first others merged = .error failure) := by
  obtain ⟨construction⟩ := exists_construction built
  refine mergeGroup_agrees (not_tolerates_of_isStrict strict (book_read_of_build built))
    fun member inGroup field fieldMember => ?_
  rw [← group] at inGroup
  obtain ⟨⟨path, _⟩, entry, rfl⟩ := List.mem_map.mp (State.mem_builtAs.mp inGroup).1
  have found := Table.get?_of_mem construction.wellFormed.sorted.nodup entry
  exact ⟨construction.isRegular found fieldMember, finite _ (group ▸ inGroup) field fieldMember⟩

/-- Two types of rows, with one size and with many sizes. -/
def sizedRows : Schema.Index :=
  .ofSequences [("Left", [("size", "xs:integer", .one)]),
    ("Right", [("size", "xs:integer", .unbounded)])]

/-- Both types become one entity, and the many sizes a list. -/
def listedRows : Settings :=
  { rowsWith EntityOptions.none with
    entities := [⟨"Row", EntityOptions.none,
      [⟨"Right", { EntityOptions.none with arrayFields := ["size"] }⟩]⟩] }

/-- The two entities that have been built under a name, if there are two. -/
def Compile.State.pairAs? (state : State) (name : String) : Option (Entity × Entity) :=
  match state.builtAs name with
  | [first, second] => some (first, second)
  | _ => none

theorem Compile.State.builtAs_of_pairAs? {state : State} {name : String} {first second : Entity}
    (pair : state.pairAs? name = some (first, second)) : state.builtAs name = [first, second] := by
  unfold pairAs? at pair
  split at pair
  next group =>
    cases pair
    exact group
  next => cases pair

/-- Two entities can be merged, and their literals are finite. -/
def Compile.mergesPair (book : RuleBook) (merged : List Entity) (pair : Entity × Entity) : Bool :=
  decide (∀ member ∈ [pair.1, pair.2], ∀ field ∈ member.fields, field.kind.IsFinite) &&
    (mergeGroup book pair.1 [pair.2] merged).toOption.isSome

theorem Compile.mergesPair_iff {book : RuleBook} {merged : List Entity} {first second : Entity} :
    mergesPair book merged (first, second) = true ↔
      (∀ member ∈ [first, second], ∀ field ∈ member.fields, field.kind.IsFinite) ∧
        ∃ entity later, mergeGroup book first [second] merged = .ok (entity, later) := by
  rw [mergesPair, Bool.and_eq_true, decide_eq_true_eq, Result.isSome_toOption, Prod.exists]

/-- A list takes the place of a single value. -/
theorem built_members_agree_of_sizedRows :
    ∃ book state first second entity later,
      build sizedRows listedRows = .ok (book, state) ∧ listedRows.IsStrict ∧
      state.builtAs "Row" = [first, second] ∧
      (∀ member ∈ [first, second], ∀ field ∈ member.fields, field.kind.IsFinite) ∧
      mergeGroup book first [second] [] = .ok (entity, later) ∧
      AgreeInPairs (LeavesTo [] [first, second]) [first, second] := by
  have evaluated : (build sizedRows listedRows).toOption.map (fun built =>
      (built.2.pairAs? "Row").map (mergesPair built.1 [])) = some (some true) := by decide +kernel
  obtain ⟨⟨book, state⟩, built, seen⟩ := Result.exists_ok_of_map evaluated
  obtain ⟨⟨first, second⟩, pair, merges⟩ := Option.map_eq_some_iff.mp seen
  obtain ⟨finite, entity, later, given⟩ := mergesPair_iff.mp merges
  have group := State.builtAs_of_pairAs? pair
  have strict : listedRows.IsStrict := by decide
  exact ⟨book, state, first, second, entity, later, built, strict, group, finite, given,
    (built_members_agree built strict group finite []).1 entity later given⟩

/-! ## Fields left to an ancestor -/

/-- The schema in which a type adds its content to that of a base. -/
def Schema.Index.extending (index : Schema.Index) (name base : String) : Schema.Index :=
  let extended (type : Schema.ComplexType) : Schema.ComplexType :=
    { type with content := none, extension := some ⟨base, [], type.content⟩ }
  { index with complexTypes := index.complexTypes.map fun (key, type) =>
      (key, if key = name then extended type else type) }

/-- Two types of rows, one of which gives another type to the code of its base. -/
def recodedRows : Schema.Index :=
  (Schema.Index.ofSequences [("Base", [("code", "xs:integer", .one)]),
    ("Left", [("code", "xs:string", .one)]),
    ("Right", [("code", "xs:integer", .one)])]).extending "Left" "Base"

/-- The kind of the scalar that the entity has under a name and path. -/
def Entity.scalarKindAt? (entity : Entity) (name dottedPath : String) : Option ScalarKind :=
  (entity.fieldAt? name dottedPath).bind fun field =>
    match field.kind with
    | .scalar repr => some repr.kind
    | _ => none

theorem Entity.exists_scalar_of_scalarKindAt? {entity : Entity} {name dottedPath : String}
    {kind : ScalarKind} (has : entity.scalarKindAt? name dottedPath = some kind) :
    ∃ field repr, entity.fieldAt? name dottedPath = some field ∧ field.kind = .scalar repr ∧
      repr.kind = kind := by
  obtain ⟨field, found, has⟩ := Option.bind_eq_some_iff.mp has
  split at has
  next repr scalar => exact ⟨field, repr, found, scalar, Option.some.inj has⟩
  next => cases has

/-- A row without parent leaves its code to the base of the other one, and is not compared with the
code of the other one. -/
theorem built_members_differ :
    (rowsWith EntityOptions.none).IsStrict ∧
    ∃ graph, compile recodedRows (rowsWith EntityOptions.none) = .ok graph ∧
      ∃ stages : Stages recodedRows (rowsWith EntityOptions.none) graph,
        ∃ first second entity later, stages.state.builtAs "Row" = [first, second] ∧
          (∀ member ∈ [first, second], ∀ field ∈ member.fields, field.kind.IsFinite) ∧
          mergeGroup stages.book first [second] (stages.state.builtAs "Base") =
            .ok (entity, later) ∧
          ¬AgreeInPairs (fun _ _ => False) [first, second] := by
  have evaluated : (build recodedRows (rowsWith EntityOptions.none)).toOption.map (fun built =>
      (built.2.pairAs? "Row").map fun pair =>
        (mergesPair built.1 (built.2.builtAs "Base") pair,
          pair.1.scalarKindAt? "code" "code", pair.2.scalarKindAt? "code" "code")) =
      some (some (true, some .text, some .integer)) := by decide +kernel
  have merges : (compile recodedRows (rowsWith EntityOptions.none)).toOption.isSome = true := by
    decide +kernel
  obtain ⟨graph, compiled⟩ := Result.isSome_toOption.mp merges
  obtain ⟨stages⟩ := exists_stages compiled
  rw [stages.built] at evaluated
  obtain ⟨⟨first, second⟩, pair, seen⟩ := Option.map_eq_some_iff.mp (Option.some.inj evaluated)
  obtain ⟨merged, kinds⟩ := Prod.mk.inj seen
  obtain ⟨text, integer⟩ := Prod.mk.inj kinds
  obtain ⟨finite, entity, later, given⟩ := mergesPair_iff.mp merged
  refine ⟨by decide, graph, compiled, stages, first, second, entity, later,
    State.builtAs_of_pairAs? pair, finite, given, fun agree => ?_⟩
  obtain ⟨field, repr, found, scalar, kind⟩ := Entity.exists_scalar_of_scalarKindAt? text
  obtain ⟨other, otherRepr, otherFound, otherScalar, otherKind⟩ :=
    Entity.exists_scalar_of_scalarKindAt? integer
  rcases agree first (by simp) second (by simp) "code" "code" field other found otherFound with
    leaves | leaves | agrees
  · exact leaves
  · exact leaves
  · -- The one code is a text and the other one a number.
    have same := agrees.scalarKind_eq scalar otherScalar
    rw [kind, otherKind] at same
    cases same

end EntityGraph
