import EntityGraph.Proofs.Graph.Stages
import EntityGraph.Proofs.Merge.Nullability

/-!
# Primary keys

A field that is a primary key may not be null. The last check of a finished field sees to it, and no
other origin of a field makes a key. Merging makes the fields of a name and path nullable all
together and stops at a key among them, so it does not break the rule, and neither do aliases, which
take over both flags.
-/
namespace EntityGraph

/-- No field of the entity is a primary key that may be null. -/
def Entity.HasRequiredKeys (entity : Entity) : Prop :=
  ∀ field ∈ entity.fields, field.primaryKey = true → field.nullable = false

namespace Compile

/-! ## Building -/

/-- Only the options of a field make it a primary key. -/
theorem Origin.keyIsRequired {context : Context} {state : State} {scope : Scope} {field : Field}
    (origin : Origin context state scope field) (key : field.primaryKey = true) :
    field.nullable = false := by
  cases origin with
  | finished _ finished =>
    have checked := (finishField_form finished).2.2
    rw [key, Bool.true_and] at checked
    exact checked
  | dropped | parentAlias | content | back | bag | extra =>
    -- These are made without options.
    cases key

/-- Every entity of the state has required keys. -/
def State.HasRequiredKeys (state : State) : Prop :=
  ∀ path entity, state.entities.get? path = some entity → entity.HasRequiredKeys

theorem Step.requiredKeys_kept {context : Context} {before after : Progress}
    (step : Step context before after) (required : before.state.HasRequiredKeys) :
    after.state.HasRequiredKeys := by
  intro path entity found field member key
  cases step.fieldSource found with
  | empty fields => simp [fields] at member
  | same foundOld fields => exact required _ _ foundOld field (fields ▸ member) key
  | added foundOld added insertion =>
    -- The name for the other end touches no flag, and an alias has the flags of its field.
    rcases insertion.placed.cases_of_mem member with
      ⟨known, knownMember, same⟩ | rfl | ⟨former, rfl⟩
    · obtain ⟨_, _, _, nullable, _, _, _, _, primaryKey, _⟩ := Field.bare_eq_iff.mp same
      rw [primaryKey] at key
      rw [nullable]
      exact required _ _ foundOld known knownMember key
    · exact added.origin.keyIsRequired key
    · exact added.origin.keyIsRequired key

theorem Construction.requiredKeys {index : Schema.Index} {settings : Settings} {book : RuleBook}
    {state : State} (construction : Construction index settings book state) :
    state.HasRequiredKeys := by
  refine construction.holds (fun progress => progress.state.HasRequiredKeys) ?_ ?_
  · intro resolver path entity found
    cases found
  · intro before after step required
    exact step.requiredKeys_kept required

/-! ## Merging -/

theorem GrownEntity.requiredKeys {entity later : Entity} (grown : GrownEntity entity later)
    (required : entity.HasRequiredKeys) : later.HasRequiredKeys := by
  intro field member key
  obtain ⟨old, oldMember, step⟩ := grown.exists_earlier member
  obtain ⟨nullable, primaryKey⟩ := step.flags
  rw [primaryKey] at key
  rw [nullable]
  exact required old oldMember key

/-- A merged entity has required keys, whatever its members are like. -/
theorem mergeGroup_requiredKeys {book : RuleBook} {first entity : Entity}
    {others merged later : List Entity}
    (given : mergeGroup book first others merged = .ok (entity, later)) :
    entity.HasRequiredKeys := by
  obtain ⟨merge⟩ := exists_groupMerge given
  intro field member key
  obtain ⟨before, beforeMember, standsFor⟩ :=
    Pointwise.exists_left (coalesceAliases_standsFor merge.aliases) member
  obtain ⟨identity, _, mergedField⟩ := Pointwise.exists_left merge.blended beforeMember
  rw [standsFor.primaryKey] at key
  rw [standsFor.nullable]
  by_contra nullable
  have unkeyed := mergeField_unkeyed mergedField (by simpa using nullable)
  simp [key] at unkeyed

theorem requiredKeys_law (book : RuleBook) : MergeLaw book fun _ members entity =>
    (∀ member ∈ members, member.HasRequiredKeys) → entity.HasRequiredKeys := by
  refine .of_property Entity.HasRequiredKeys ?_ ?_
  · intro first others merged later entity _ given
    exact mergeGroup_requiredKeys given
  · intro entity later grown required
    exact grown.requiredKeys required

end Compile

/-! ## The graph -/

open Compile

variable {index : Schema.Index} {settings : Settings} {graph : Graph} {levels : Nat}

/-- No field of an entity of the graph, marks and aliases included, is a primary key that may be
null. -/
theorem primaryKeys_required (compiled : compile index settings levels = .ok graph) :
    ∀ entity ∈ graph.entities, ∀ field ∈ entity.fields,
      ¬(field.primaryKey = true ∧ field.nullable = true) := by
  obtain ⟨stages⟩ := exists_stages compiled
  obtain ⟨construction⟩ := stages.construction
  intro entity member field fieldMember
  rintro ⟨key, nullable⟩
  have required : entity.HasRequiredKeys := by
    refine stages.follows_law (requiredKeys_law stages.book) member fun built inGroup => ?_
    obtain ⟨inBuilt, _⟩ := State.mem_builtAs.mp inGroup
    obtain ⟨path, found, _⟩ := stages.mem_built_iff.mp inBuilt
    exact construction.requiredKeys path built found
  have notNull := required field fieldMember key
  simp [nullable] at notNull

/-- Two types of rows with a code, of which only one has a note. -/
def codedRows : Schema.Index :=
  .ofSequences [("Left", [("code", "xs:string", .one)]),
    ("Right", [("code", "xs:string", .one), ("note", "xs:string", .one)])]

/-- Both types become one entity, and the code is its key. -/
def keyedByCode : Settings :=
  { settingsOf ["Left", "Right"] with
    typeMap := [⟨"Left|Right", "Row", true⟩]
    global := { EntityOptions.none with primaryKey := some "code" } }

/-- Merging makes the note nullable, and leaves the key as it is. -/
theorem primaryKeys_required_of_codedRows :
    ∃ graph, compile codedRows keyedByCode = .ok graph ∧
      graph.entities.map (fun entity =>
          entity.fields.map fun field => (field.name, field.primaryKey, field.nullable)) =
        [[("code", true, false), ("note", false, true)]] ∧
      ∀ entity ∈ graph.entities, ∀ field ∈ entity.fields,
        ¬(field.primaryKey = true ∧ field.nullable = true) := by
  have evaluated : (compile codedRows keyedByCode).toOption.map (·.entities.map fun entity =>
      entity.fields.map fun field => (field.name, field.primaryKey, field.nullable)) =
      some [[("code", true, false), ("note", false, true)]] := by decide +kernel
  obtain ⟨graph, compiled, seen⟩ := Result.exists_ok_of_map evaluated
  exact ⟨graph, compiled, seen, primaryKeys_required compiled⟩

end EntityGraph
