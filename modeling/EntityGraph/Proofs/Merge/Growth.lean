import EntityGraph.Proofs.Entity
import EntityGraph.Proofs.Field
import EntityGraph.Proofs.Merge.Signatures
import Mathlib.Logic.Relation

/-!
# Growth of merged entities

After an entity has been merged, its bags may still take in the entries of entities that adopt it as
their parent. Nothing else about it changes.
-/
open Relation (ReflTransGen)

namespace EntityGraph.Compile

/-- The same field, or the same bag with more entries. -/
inductive GrownField (field : Field) : Field → Prop
  | same : GrownField field field
  | bag {entries more : Bag} {documentation : List String} (kind : field.kind = .jsonBag entries)
      (keeps : ∀ path ∈ entries.names, path ∈ more.names) :
      GrownField field { field with kind := .jsonBag more, documentation }

namespace GrownField

variable {field later : Field}

theorem trans {last : Field} (first : GrownField field later) (second : GrownField later last) :
    GrownField field last := by
  cases first with
  | same => exact second
  | bag kind keeps =>
    cases second with
    | same => exact .bag kind keeps
    | bag kindMore keepsMore =>
      cases kindMore
      exact .bag kind fun path there => keepsMore path (keeps path there)

theorem name (grown : GrownField field later) : later.name = field.name := by
  cases grown <;> rfl

theorem dottedPath (grown : GrownField field later) : later.dottedPath = field.dottedPath := by
  cases grown <;> rfl

theorem maxOccurs (grown : GrownField field later) : later.maxOccurs = field.maxOccurs := by
  cases grown <;> rfl

/-- The kind stays, unless it is that of a bag, which keeps its paths. -/
theorem bag_cases (grown : GrownField field later) :
    later.kind = field.kind ∨
      ∃ entries more, field.kind = .jsonBag entries ∧ later.kind = .jsonBag more ∧
        ∀ path ∈ entries.names, path ∈ more.names := by
  cases grown with
  | same => exact .inl rfl
  | bag kind keeps => exact .inr ⟨_, _, kind, rfl, keeps⟩

theorem kind_cases (grown : GrownField field later) :
    later.kind = field.kind ∨
      ∃ entries more, field.kind = .jsonBag entries ∧ later.kind = .jsonBag more := by
  rcases grown.bag_cases with same | ⟨entries, more, kind, laterKind, _⟩
  · exact .inl same
  · exact .inr ⟨entries, more, kind, laterKind⟩

/-- All but the entries of a bag and the documentation stays. -/
theorem flags (grown : GrownField field later) :
    later.nullable = field.nullable ∧ later.primaryKey = field.primaryKey := by
  cases grown <;> exact ⟨rfl, rfl⟩

theorem isMaterialized (grown : GrownField field later) :
    later.isMaterialized = field.isMaterialized := by
  rcases grown.kind_cases with same | ⟨_, _, kind, later⟩
  · simp [Field.isMaterialized, same]
  · simp [Field.isMaterialized, kind, later, FieldKind.isMaterialized]

theorem isCollection (grown : GrownField field later) :
    later.kind.isCollection = field.kind.isCollection := by
  rcases grown.kind_cases with same | ⟨_, _, kind, later⟩
  · rw [same]
  · rw [kind, later]
    rfl

theorem dependency? (grown : GrownField field later) :
    later.kind.dependency? = field.kind.dependency? := by
  rcases grown.kind_cases with same | ⟨_, _, kind, later⟩
  · rw [same]
  · rw [kind, later]
    rfl

theorem repr? (grown : GrownField field later) : later.kind.repr? = field.kind.repr? := by
  rcases grown.kind_cases with same | ⟨_, _, kind, later⟩
  · rw [same]
  · rw [kind, later]
    rfl

end GrownField

theorem grownFields_materializedNames {fields later : List Field}
    (grown : List.Forall₂ GrownField fields later) :
    materializedNames later = materializedNames fields := by
  induction grown with
  | nil => rfl
  | @cons field other _ _ head _ ih =>
    simp only [materializedNames] at ih ⊢
    rw [List.filter_cons, List.filter_cons, head.isMaterialized]
    cases field.isMaterialized <;> simp [head.name, ih]

/-- The same entity, up to the entries of its bags. -/
structure GrownEntity (entity later : Entity) : Prop where
  rest : later = { entity with fields := later.fields }
  fields : List.Forall₂ GrownField entity.fields later.fields

namespace GrownEntity

variable {entity later : Entity}

theorem refl (entity : Entity) : GrownEntity entity entity :=
  ⟨rfl, List.forall₂_same.mpr fun _ _ => .same⟩

theorem trans {last : Entity} (first : GrownEntity entity later) (second : GrownEntity later last) :
    GrownEntity entity last :=
  ⟨by rw [second.rest, first.rest],
    Pointwise.trans (fun _ _ _ left right => left.trans right) first.fields second.fields⟩

theorem name (grown : GrownEntity entity later) : later.name = entity.name := by rw [grown.rest]

theorem parent (grown : GrownEntity entity later) : later.parent = entity.parent := by
  rw [grown.rest]

theorem sourceTypes (grown : GrownEntity entity later) :
    later.sourceTypes = entity.sourceTypes := by rw [grown.rest]

theorem dependencies (grown : GrownEntity entity later) :
    later.dependencies = entity.dependencies := by rw [grown.rest]

theorem imports (grown : GrownEntity entity later) : later.imports = entity.imports := by
  rw [grown.rest]

theorem exists_later (grown : GrownEntity entity later) {field : Field}
    (member : field ∈ entity.fields) : ∃ grownField ∈ later.fields, GrownField field grownField :=
  Pointwise.exists_right grown.fields member

theorem exists_earlier (grown : GrownEntity entity later) {field : Field}
    (member : field ∈ later.fields) : ∃ old ∈ entity.fields, GrownField old field :=
  Pointwise.exists_left grown.fields member

theorem materializedNames_eq (grown : GrownEntity entity later) :
    materializedNames later.fields = materializedNames entity.fields :=
  grownFields_materializedNames grown.fields

theorem isClosed (grown : GrownEntity entity later) (closed : entity.IsClosed) :
    later.IsClosed := by
  intro name referred
  rw [grown.dependencies]
  refine closed name ((Entity.mem_referredNames entity name).mpr ?_)
  rcases (Entity.mem_referredNames later name).mp referred with ⟨field, member, target⟩ | parent
  · obtain ⟨old, oldMember, grownField⟩ := grown.exists_earlier member
    exact .inl ⟨old, oldMember, grownField.dependency?.symm.trans target⟩
  · exact .inr (grown.parent ▸ parent)

/-- Putting the joined entries in the place of a bag. -/
theorem set_joined {slot : Nat} {found other joined : Field}
    (place : entity.fields[slot]? = some found) (join : joinBags? found other = some joined) :
    GrownEntity entity { entity with fields := entity.fields.set slot joined } := by
  refine ⟨rfl, Pointwise.set (fun _ => .same) place ?_⟩
  obtain ⟨entries, more, kind, _, rfl⟩ := bags_of_joinBags? join
  exact .bag kind fun path there => Bag.mem_names_merge.mpr (.inl there)

end GrownEntity

/-! ## Lists of entities -/

/-- The same entities, up to the entries of their bags. -/
abbrev Grown (entities later : List Entity) : Prop := List.Forall₂ GrownEntity entities later

namespace Grown

variable {entities later : List Entity}

theorem refl (entities : List Entity) : Grown entities entities :=
  List.forall₂_same.mpr fun entity _ => .refl entity

theorem trans {last : List Entity} (first : Grown entities later) (second : Grown later last) :
    Grown entities last :=
  Pointwise.trans (fun _ _ _ left right => left.trans right) first second

/-- Changing the entity at a position. -/
theorem modify {position : Nat} {ancestor : Entity} {change : Entity → Entity}
    (place : entities[position]? = some ancestor) (step : GrownEntity ancestor (change ancestor)) :
    Grown entities (entities.modify position change) := by
  have same : entities.modify position change = entities.set position (change ancestor) := by
    rw [List.modify_eq_set, place]
    rfl
  rw [same]
  exact Pointwise.set .refl place step

end Grown

/-- An entity of the list has the other name as its parent. -/
def HasParent (entities : List Entity) (child parent : String) : Prop :=
  ∃ entity ∈ entities, entity.name = child ∧ entity.parent = some parent

theorem HasParent.grown {entities later : List Entity} (grown : Grown entities later)
    {child parent : String} (link : HasParent entities child parent) :
    HasParent later child parent := by
  obtain ⟨entity, member, name, has⟩ := link
  obtain ⟨other, otherMember, step⟩ := Pointwise.exists_right grown member
  exact ⟨other, otherMember, step.name.trans name, step.parent.trans has⟩

theorem HasParent.append {entities : List Entity} (more : List Entity) {child parent : String}
    (link : HasParent entities child parent) : HasParent (entities ++ more) child parent := by
  obtain ⟨entity, member, rest⟩ := link
  exact ⟨entity, List.mem_append_left _ member, rest⟩

end EntityGraph.Compile
