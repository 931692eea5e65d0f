import EntityGraph.Proofs.Field

/-!
# Adding a field to an entity

What the options of a field may change, and the three things that can happen to a field that is put
into an entity.
-/
namespace EntityGraph.Compile

/-! ## Options -/

/-- A rule replaced the kind of a field that is no scalar by a scalar. -/
def KindReplaced (rules : FieldRules) (field final : Field) : Prop :=
  field.kind.repr? = none ∧ ∃ kind, rules.kind? field.name = some kind ∧
    final.kind.shape = .scalar default

theorem documentChoices_kind (field : Field) : (documentChoices field).kind = field.kind := by
  simp only [documentChoices]
  split <;> rfl

theorem documentChoices_declaration (field : Field) :
    (documentChoices field).declaration = field.declaration := by
  simp only [documentChoices]
  split <;> rfl

theorem overrideKind_declaration (rules : FieldRules) (field : Field) :
    (overrideKind rules field).declaration = field.declaration := by
  simp only [overrideKind]
  split
  · rfl
  · split <;> rfl

theorem overrideKind_shape (rules : FieldRules) (field : Field) :
    (overrideKind rules field).kind.shape = field.kind.shape ∨
      KindReplaced rules field (overrideKind rules field) := by
  simp only [overrideKind]
  split
  · exact .inl rfl
  next kind given =>
    split
    · exact .inl (FieldKind.shape_mapRepr _ _)
    next noScalar => exact .inr ⟨noScalar, kind, given, rfl⟩

/-- Two fields agree in all that no option but the kind override touches. -/
def SameForm (field other : Field) : Prop :=
  field.declaration = other.declaration ∧ field.kind.shape = other.kind.shape

theorem SameForm.trans {first second third : Field} (left : SameForm first second)
    (right : SameForm second third) : SameForm first third :=
  ⟨left.1.trans right.1, left.2.trans right.2⟩

/-- Setting a default value changes the scalar of the field at most. -/
theorem setDefault_eq {primitive path : String} {raw : Option String} {field final : Field}
    (set : setDefault primitive path raw field = .ok final) :
    ∃ change, final = { field with kind := field.kind.mapRepr change } := by
  simp only [setDefault] at set
  split at set
  · obtain ⟨literal, _, set⟩ := Result.bind_eq_ok.mp set
    exact ⟨_, (Result.pure_eq_ok.mp set).symm⟩
  · refine ⟨id, ?_⟩
    rw [FieldKind.mapRepr_id]
    exact (Result.pure_eq_ok.mp set).symm

/-- Setting keys changes three marks of the field at most. -/
theorem setKeys_eq (rules : FieldRules) (field : Field) :
    ∃ primaryKey unique dbIndex,
      setKeys rules field = { field with primaryKey, unique, dbIndex } := by
  simp only [setKeys]
  repeat' split
  all_goals exact ⟨_, _, _, rfl⟩

theorem setDefault_form {primitive path : String} {raw : Option String} {field final : Field}
    (set : setDefault primitive path raw field = .ok final) : SameForm final field := by
  obtain ⟨change, rfl⟩ := setDefault_eq set
  exact ⟨rfl, FieldKind.shape_mapRepr _ _⟩

theorem setKeys_form (rules : FieldRules) (field : Field) :
    SameForm (setKeys rules field) field := by
  obtain ⟨_, _, _, keyed⟩ := setKeys_eq rules field
  rw [keyed]
  exact ⟨rfl, rfl⟩

theorem setKeys_kind (rules : FieldRules) (field : Field) :
    (setKeys rules field).kind = field.kind := by
  obtain ⟨_, _, _, keyed⟩ := setKeys_eq rules field
  rw [keyed]

theorem overrideField_form {options : FieldOverride} {primitive path : String}
    {field final : Field} (overridden : overrideField options primitive path field = .ok final) :
    SameForm final field := by
  simp only [overrideField] at overridden
  obtain ⟨defaulted, set, overridden⟩ := Result.bind_eq_ok.mp overridden
  obtain rfl := Result.pure_eq_ok.mp overridden
  have form := setDefault_form set
  refine ⟨form.1, ?_⟩
  simpa using form.2

/-- The last check of a field gives the field itself. -/
theorem eq_of_checked {failure : Error} {failed : Bool} {field final : Field}
    (checked : (if failed = true then do throw failure; pure field else pure field : Result Field)
      = .ok final) : final = field ∧ failed = false := by
  cases failed with
  | true => exact absurd checked (by simp [bind, Except.bind, throw, throwThe, MonadExceptOf.throw])
  | false => exact ⟨(Result.pure_eq_ok.mp checked).symm, rfl⟩

/-- The field as the options find it, with the kind that the rules ask for. -/
def withKind (context : Context) (rules : FieldRules) (field : Field) : Field :=
  overrideKind rules (documentChoices { field with
    kind := field.kind.mapRepr (Scalar.finalize context.settings.compiler.textThreshold) })

theorem withKind_declaration (context : Context) (rules : FieldRules) (field : Field) :
    (withKind context rules field).declaration = field.declaration := by
  rw [withKind, overrideKind_declaration, documentChoices_declaration]
  rfl

theorem withKind_shape (context : Context) (rules : FieldRules) (field : Field) :
    (withKind context rules field).kind.shape = field.kind.shape ∨
      KindReplaced rules field (withKind context rules field) := by
  let sized : Field := { field with
    kind := field.kind.mapRepr (Scalar.finalize context.settings.compiler.textThreshold) }
  have kind : (documentChoices sized).kind.shape = field.kind.shape := by
    rw [documentChoices_kind, FieldKind.shape_mapRepr]
  have name : (documentChoices sized).name = field.name :=
    (Field.declaration_eq_iff.mp (documentChoices_declaration sized)).1
  rcases overrideKind_shape rules (documentChoices sized) with same | ⟨noScalar, given⟩
  · exact .inl (same.trans kind)
  · refine .inr ⟨?_, name ▸ given⟩
    have bare := FieldKind.repr?_isSome_of_shape kind
    rw [noScalar] at bare
    exact Option.not_isSome_iff_eq_none.mp (by simp [← bare])

/-- What finishing a field has done: the field with its kind and nullability has got its default
value and its keys, and the properties that the settings give for it. -/
theorem finishField_steps {context : Context} {scope : Scope} {text primitive : Option String}
    {field final : Field} (finished : finishField context scope text primitive field = .ok final) :
    ∃ name nullable defaulted,
      nullable = ((withKind context scope.rules field).nullable || scope.rules.null.contains name) ∧
      setDefault (primitive.getD "xs:string") (scope.memberPath field.dottedPath) text
        { withKind context scope.rules field with nullable } = .ok defaulted ∧
      (final = setKeys scope.rules defaulted ∨ ∃ options name,
        scope.rules.fieldOverride? name = some options ∧
        overrideField options (primitive.getD "xs:string") (scope.memberPath field.dottedPath)
          (setKeys scope.rules defaulted) = .ok final) ∧
      (final.primaryKey && final.nullable) = false := by
  simp only [finishField] at finished
  obtain ⟨defaulted, set, finished⟩ := Result.bind_eq_ok.mp finished
  refine ⟨_, _, defaulted, rfl, set, ?_⟩
  split at finished
  next options given =>
    obtain ⟨overridden, override, checked⟩ := Result.bind_eq_ok.mp finished
    obtain ⟨rfl, valid⟩ := eq_of_checked checked
    exact ⟨.inr ⟨options, _, given, override⟩, valid⟩
  next =>
    obtain ⟨rfl, valid⟩ := eq_of_checked finished
    exact ⟨.inl rfl, valid⟩

/-- Finishing a field keeps its declaration, and its kind unless a rule replaces it. No finished
field is both a primary key and nullable. -/
theorem finishField_form {context : Context} {scope : Scope} {text primitive : Option String}
    {field final : Field} (finished : finishField context scope text primitive field = .ok final) :
    final.declaration = field.declaration ∧
      (final.kind.shape = field.kind.shape ∨ KindReplaced scope.rules field final) ∧
      (final.primaryKey && final.nullable) = false := by
  obtain ⟨_, _, defaulted, _, set, given, valid⟩ := finishField_steps finished
  -- Only the override of `withKind` may replace the kind. Whatever comes after it keeps the form.
  have keyed := (setKeys_form scope.rules defaulted).trans (setDefault_form set)
  have optional : SameForm final (withKind context scope.rules field) := by
    rcases given with rfl | ⟨_, _, _, override⟩
    · exact keyed
    · exact (overrideField_form override).trans keyed
  refine ⟨optional.1.trans (withKind_declaration context scope.rules field), ?_, valid⟩
  rcases withKind_shape context scope.rules field with same | ⟨noScalar, kind, given, replaced⟩
  · exact .inl (optional.2.trans same)
  · exact .inr ⟨noScalar, kind, given, optional.2.trans replaced⟩

theorem withKind_notes (context : Context) (rules : FieldRules) (field : Field) :
    (withKind context rules field).notes = field.notes := by
  simp only [withKind, overrideKind, documentChoices]
  repeat' split
  all_goals rfl

/-- Options note nothing. -/
theorem finishField_notes {context : Context} {scope : Scope} {text primitive : Option String}
    {field final : Field} (finished : finishField context scope text primitive field = .ok final) :
    final.notes = field.notes := by
  obtain ⟨_, _, defaulted, _, set, given, _⟩ := finishField_steps finished
  obtain ⟨_, rfl⟩ := setDefault_eq set
  obtain ⟨_, _, _, keyed⟩ := setKeys_eq scope.rules _
  have same := withKind_notes context scope.rules field
  rcases given with rfl | ⟨_, _, _, override⟩
  · rw [keyed]
    exact same
  · obtain ⟨last, set, override⟩ := Result.bind_eq_ok.mp override
    obtain ⟨_, rfl⟩ := setDefault_eq set
    obtain rfl := Result.pure_eq_ok.mp override
    rw [keyed]
    exact same

/-! ## Insertion -/

/-- What putting a field into an entity comes to. The field is there afterwards, or one that
compares equal, or the mark of a coalesced one. -/
structure Insertion (entity : Entity) (field : Field) (after : Entity) : Prop where
  eq_with_fields : after = { entity with fields := after.fields }
  placed : Placed entity.fields field after.fields
  present :
    (∃ known ∈ after.fields, known.name = field.name ∧ known.dottedPath = field.dottedPath ∧
      ((known.kind == field.kind) = true ∨ known.kind = field.kind)) ∨
    ∃ former, field.coalescedFrom = some former ∧ aliasOf field former ∈ after.fields

theorem insertField_insertion {entity after : Entity} {field : Field}
    (inserted : insertField entity field = .ok after) : Insertion entity field after := by
  have tests (known : Field) : (known.name == field.name && known.isMaterialized) = true ↔
      known.isMaterialized = true ∧ known.name = field.name := by
    simp [and_comm]
  simp only [insertField] at inserted
  split at inserted
  next slot first former found coalesced =>
    -- The name is taken, and the field has been coalesced.
    obtain ⟨place, materialized, name⟩ := place_of_findIdx? found tests
    cases inserted
    exact ⟨rfl, .aliased place name materialized,
      .inr ⟨former, coalesced, List.mem_append_right _ (List.mem_singleton_self _)⟩⟩
  next slot first found _ =>
    -- The name is taken: a mark stands behind it, the same field adds nothing, any other fails.
    obtain ⟨place, materialized, name⟩ := place_of_findIdx? found tests
    split at inserted
    next mark =>
      cases inserted
      refine ⟨rfl, .appended fun materialized => ?_, .inl ⟨field, by simp, rfl, rfl, .inr rfl⟩⟩
      simp [materialized] at mark
    next =>
      split at inserted
      next same =>
        cases inserted
        simp only [Bool.and_eq_true, beq_iff_eq] at same
        have member := List.mem_of_getElem? place
        exact ⟨rfl, .known, .inl ⟨first, member, name, same.2, .inl same.1⟩⟩
      next => cases inserted
  next missing =>
    cases inserted
    exact ⟨rfl, .appended fun _ => free_of_findIdx? missing tests,
      .inl ⟨field, by simp, rfl, rfl, .inr rfl⟩⟩

/-- A field that is not coalesced adds nothing if its name is taken, and else comes last. -/
theorem insertField_uncoalesced {entity after : Entity} {field : Field}
    (materialized : field.isMaterialized = true) (own : field.coalescedFrom = none)
    (inserted : insertField entity field = .ok after) :
    (field.name ∈ materializedNames entity.fields ∧ after.fields = entity.fields) ∨
      (field.name ∉ materializedNames entity.fields ∧ after.fields = entity.fields ++ [field]) := by
  have tests (known : Field) : (known.name == field.name && known.isMaterialized) = true ↔
      known.isMaterialized = true ∧ known.name = field.name := by
    simp [and_comm]
  simp only [insertField] at inserted
  split at inserted
  next coalesced =>
    rw [own] at coalesced
    cases coalesced
  next slot first found _ =>
    obtain ⟨place, known, name⟩ := place_of_findIdx? found tests
    have taken := mem_materializedNames.mpr ⟨first, List.mem_of_getElem? place, known, name⟩
    rw [materialized] at inserted
    simp only [Bool.not_true, Bool.false_eq_true, if_false] at inserted
    split at inserted
    · cases inserted
      exact .inl ⟨taken, rfl⟩
    · cases inserted
  next missing =>
    cases inserted
    exact .inr ⟨free_of_findIdx? missing tests, rfl⟩

end EntityGraph.Compile
