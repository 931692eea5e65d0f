import EntityGraph.Proofs.Build.LawfulEntities
import EntityGraph.Proofs.Graph.Stages
import EntityGraph.Proofs.Options
import EntityGraph.Proofs.Scalar.Primitive

/-!
# Literals of the graph

Unless the settings replace the scalar of a type or the kind of a field, the default and the bounds
of every field are of the types that its kind asks for. A scalar is derived along the bases of its
type, its default is read as a value of the primitive type at the end of them, and neither the
options of a field nor merging brings the two apart.
-/
namespace EntityGraph

namespace EntityOptions

/-- The options replace the kind of no field. -/
def KeepsKinds (options : EntityOptions) : Prop := options.kindOverrides = []

instance : DecidablePred KeepsKinds := fun options =>
  inferInstanceAs (Decidable (options.kindOverrides = []))

theorem keepsKinds_layered {primary fallback : EntityOptions} (upper : primary.KeepsKinds)
    (lower : fallback.KeepsKinds) : (layered primary fallback).KeepsKinds := by
  simp only [KeepsKinds] at upper lower
  simp [KeepsKinds, layered, upper, lower, union]

end EntityOptions

theorem keepsKinds_layers : Layers EntityOptions.KeepsKinds :=
  ⟨rfl, EntityOptions.keepsKinds_layered⟩

/-- No settings replace the scalar of a type or the kind of a field. -/
def Settings.KeepsKinds (settings : Settings) : Prop :=
  settings.typeOverrides = [] ∧ settings.EveryOptions EntityOptions.KeepsKinds

instance (settings : Settings) : Decidable settings.KeepsKinds :=
  inferInstanceAs (Decidable (_ ∧ _))

/-- The literals of the scalar of a field agree with its kind, if the field has one. -/
def FieldKind.LiteralsAgree (kind : FieldKind) : Prop :=
  ∀ repr, kind.repr? = some repr → repr.LiteralsAgree

theorem FieldKind.isMaterialized_of_repr? {kind : FieldKind} {repr : ScalarRepr}
    (has : kind.repr? = some repr) : kind.isMaterialized = true := by
  cases kind <;> first | rfl | cases has

theorem FieldKind.literalsAgree_of_bare {kind : FieldKind} (bare : kind.repr? = none) :
    kind.LiteralsAgree := by
  intro repr has
  rw [bare] at has
  cases has

/-- The literals of all fields of an entity agree with their kinds. -/
def Entity.LiteralsAgree (entity : Entity) : Prop :=
  ∀ field ∈ entity.fields, field.kind.LiteralsAgree

namespace Compile

/-! ## Options of a field -/

/-- The scalar of a kind, if it has one, holds values of a built-in type, and its literals agree. -/
def Stores (primitive : String) (kind : FieldKind) : Prop :=
  ∀ repr, kind.repr? = some repr →
    repr.kind.defaultType = Scalar.primitiveType primitive ∧ repr.LiteralsAgree

theorem stores_of_bare {primitive : String} {kind : FieldKind} (bare : kind.repr? = none) :
    Stores primitive kind := by
  intro repr has
  rw [bare] at has
  cases has

theorem stores_of_agrees {primitive : String} {kind : FieldKind} {repr : ScalarRepr}
    (stored : kind = .scalar repr ∨ kind = .collection repr)
    (agrees : Scalar.Agrees primitive repr) :
    Stores primitive kind := by
  intro found has
  have same : found = repr := by
    rcases stored with rfl | rfl <;> exact (Option.some.inj has).symm
  subst same
  refine ⟨agrees.type, ?_, agrees.bounds⟩
  intro literal default
  rw [agrees.plain] at default
  cases default

/-- A change that keeps the type of the values, the default and the bounds. -/
theorem Stores.mapRepr {primitive : String} {kind : FieldKind} (stores : Stores primitive kind)
    {change : ScalarRepr → ScalarRepr}
    (keeps : ∀ repr, (change repr).kind.defaultType = repr.kind.defaultType ∧
      (change repr).defaultValue = repr.defaultValue ∧
      (change repr).validators = repr.validators) : Stores primitive (kind.mapRepr change) := by
  intro repr has
  rw [FieldKind.repr?_mapRepr] at has
  obtain ⟨old, hasOld, rfl⟩ := Option.map_eq_some_iff.mp has
  obtain ⟨type, agree⟩ := stores old hasOld
  obtain ⟨sameType, sameDefault, sameValidators⟩ := keeps old
  refine ⟨sameType.trans type, fun literal default => ?_,
    ScalarRepr.boundsAgree_of_same sameType sameValidators agree.bounds⟩
  rw [agree.default literal (sameDefault ▸ default), sameType]

theorem setDefault_stores {primitive path : String} {raw : Option String} {field final : Field}
    (stores : Stores primitive field.kind) (set : setDefault primitive path raw field = .ok final) :
    Stores primitive final.kind := by
  simp only [setDefault] at set
  split at set
  next raw old _ has =>
    obtain ⟨literal, parsed, set⟩ := Result.bind_eq_ok.mp set
    obtain rfl := Result.pure_eq_ok.mp set
    intro repr given
    rw [FieldKind.repr?_mapRepr] at given
    obtain ⟨known, hasKnown, rfl⟩ := Option.map_eq_some_iff.mp given
    obtain ⟨type, agree⟩ := stores known hasKnown
    refine ⟨type, ?_, agree.bounds⟩
    rintro _ ⟨⟩
    exact (Scalar.parseDefault_type parsed).trans type.symm
  next =>
    obtain rfl := Result.pure_eq_ok.mp set
    exact stores

theorem Stores.setRelatedName {primitive : String} {kind : FieldKind}
    (stores : Stores primitive kind) (relatedName : Option String) :
    Stores primitive (setRelatedName relatedName kind) := by
  intro repr has
  exact stores repr (FieldKind.repr?_setRelatedName relatedName kind ▸ has)

theorem overrideField_stores {options : FieldOverride} {primitive path : String}
    {field final : Field} (stores : Stores primitive field.kind)
    (overridden : overrideField options primitive path field = .ok final) :
    Stores primitive final.kind := by
  simp only [overrideField] at overridden
  obtain ⟨defaulted, set, overridden⟩ := Result.bind_eq_ok.mp overridden
  obtain rfl := Result.pure_eq_ok.mp overridden
  refine (setDefault_stores ?_ set).setRelatedName _
  exact stores.mapRepr fun repr => ⟨rfl, rfl, rfl⟩

theorem overrideKind_of_keepsKinds {rules : FieldRules} (keeps : rules.options.KeepsKinds)
    (field : Field) : overrideKind rules field = field := by
  have none : rules.kind? field.name = none := by
    rw [FieldRules.kind?, keeps]
    rfl
  rw [overrideKind, none]

theorem withKind_stores {context : Context} {rules : FieldRules} (keeps : rules.options.KeepsKinds)
    {primitive : String} {field : Field} (stores : Stores primitive field.kind) :
    Stores primitive (withKind context rules field).kind := by
  rw [withKind, overrideKind_of_keepsKinds keeps, documentChoices_kind]
  exact stores.mapRepr fun repr => Scalar.finalize_agrees _ repr

/-- Whatever options a field gets, its literals stay of the types that its kind asks for. -/
theorem finishField_stores {context : Context} {scope : Scope} {text primitive : Option String}
    {field final : Field} (keeps : scope.rules.options.KeepsKinds)
    (stores : Stores (primitive.getD "xs:string") field.kind)
    (finished : finishField context scope text primitive field = .ok final) :
    Stores (primitive.getD "xs:string") final.kind := by
  obtain ⟨_, _, defaulted, _, set, given, _⟩ := finishField_steps finished
  have keyed : Stores (primitive.getD "xs:string") (setKeys scope.rules defaulted).kind := by
    rw [setKeys_kind]
    have replaced : Stores (primitive.getD "xs:string") (withKind context scope.rules field).kind :=
      withKind_stores keeps stores
    refine setDefault_stores ?_ set
    exact replaced
  rcases given with rfl | ⟨_, _, _, override⟩
  · exact keyed
  · exact overrideField_stores keyed override

/-! ## The law of literals -/

/-- A scalar that has been found, with the primitive type of its defaults. -/
def FindsLiterals (primitive : Option String) (repr : ScalarRepr) : Prop :=
  Scalar.Agrees (primitive.getD "xs:string") repr

theorem given_literalsAgree {context : Context} {words : Vocabulary context.index} {scope : Scope}
    {field : Field} (keeps : scope.rules.options.KeepsKinds)
    (given : Given context words FindsLiterals scope field) : field.kind.LiteralsAgree := by
  cases given with
  | dropped | parentAlias | bag => exact FieldKind.literalsAgree_of_bare rfl
  | content found =>
    rintro _ ⟨⟩
    obtain ⟨type, default, validators⟩ :=
      Scalar.finalize_agrees context.settings.compiler.textThreshold _
    refine ⟨fun literal given => ?_, ScalarRepr.boundsAgree_of_same type validators found.bounds⟩
    rw [default, found.plain] at given
    cases given
  | value kind found finished =>
    exact fun repr has =>
      (finishField_stores keeps (stores_of_agrees kind found) finished repr has).2
  | relation _ bare finished =>
    exact fun repr has => (finishField_stores keeps (stores_of_bare bare) finished repr has).2
  | extra _ plain =>
    intro repr has
    rw [plain repr has]
    exact ScalarRepr.literalsAgree_ofKind _ _

theorem insertField_literalsAgree {entity after : Entity} {field : Field}
    (inserted : insertField entity field = .ok after) (agree : entity.LiteralsAgree)
    (fieldAgrees : field.kind.LiteralsAgree) : after.LiteralsAgree := by
  intro known member
  rcases (insertField_insertion inserted).placed.cases_of_mem member with
    ⟨old, oldMember, same⟩ | rfl | ⟨former, rfl⟩
  · rw [(Field.bare_eq_iff.mp same).2.2.1]
    exact agree old oldMember
  · exact fieldAgrees
  · exact FieldKind.literalsAgree_of_bare rfl

/-- The literals of all entities agree with the kinds of their fields. -/
structure State.LiteralsAgree (index : Schema.Index) (state : State) : Prop where
  remembers : state.scalars.Remembers index
  entities : ∀ path entity, state.entities.get? path = some entity → entity.LiteralsAgree

theorem State.LiteralsAgree.set {index : Schema.Index} {state : State}
    (agree : state.LiteralsAgree index) {entity : Entity} (entityAgrees : entity.LiteralsAgree)
    (path : String) :
    State.LiteralsAgree index { state with entities := state.entities.set path entity } := by
  refine ⟨agree.remembers, fun other found get => ?_⟩
  rcases Table.cases_of_get?_set get with ⟨_, rfl⟩ | old
  · exact entityAgrees
  · exact agree.entities other found old

theorem toOption_primitiveBase {index : Schema.Index} {name : String} {repr : ScalarRepr}
    (derived : Scalar.DerivedFor index name repr) :
    FindsLiterals (index.primitiveBase name).toOption repr := by
  obtain ⟨steps, primitive, down, agrees⟩ := derived
  rw [down.primitiveBase]
  exact agrees

theorem findsLiterals_named {index : Schema.Index} {name : String} {repr : ScalarRepr}
    (derived : Scalar.DerivedFor index name repr) :
    FindsLiterals (primitiveOf? index name) repr := by
  unfold primitiveOf?
  split
  next is =>
    obtain ⟨steps, primitive, down, agrees⟩ := derived
    obtain ⟨_, rfl⟩ := down.unique (.builtin is)
    exact agrees
  next => exact toOption_primitiveBase derived

/-- A member without any type is a text, as is the primitive type of a default without one. -/
theorem findsLiterals_untyped {index : Schema.Index} {member : Schema.Member} {repr : ScalarRepr}
    (derived : Scalar.DerivedFor index (declaredTypes member).fallback repr) :
    FindsLiterals none repr := by
  obtain ⟨steps, primitive, down, agrees⟩ := derived
  refine ⟨agrees.plain, agrees.bounds, agrees.type.trans ?_⟩
  have any : Schema.isBuiltin "xs:anyType" = true := by decide +kernel
  have string : Schema.isBuiltin "xs:string" = true := by decide +kernel
  have is : Schema.isBuiltin (declaredTypes member).fallback = true := by
    cases member with
    | element _ => exact any
    | attrib _ => exact string
  obtain ⟨_, rfl⟩ := down.unique (.builtin is)
  cases member <;> rfl

theorem derives_literals {context : Context} (plain : context.settings.typeOverrides = [])
    {state : State} (agree : state.LiteralsAgree context.index) {primitive : Option String}
    {derive : Scalar.State → Scalar.Derivation} (derives : Derives context primitive derive)
    {repr : ScalarRepr} {scalars : Scalar.State}
    (derived : derive state.scalars = (.ok repr, scalars)) :
    State.LiteralsAgree context.index { state with scalars } ∧ FindsLiterals primitive repr := by
  let source : Scalar.Source := ⟨context.index, context.settings⟩
  have named (name : String) (sound : Scalar.Sound context.index name (.ok repr, scalars)) :
      State.LiteralsAgree context.index { state with scalars } ∧
        Scalar.DerivedFor context.index name repr :=
    ⟨⟨sound.1, agree.entities⟩, sound.2 repr rfl⟩
  have sound (name : String) :
      Scalar.Sound context.index name (Scalar.named source name state.scalars) :=
    Scalar.named_sound plain name agree.remembers
  cases derives with
  | named name =>
    obtain ⟨kept, found⟩ := named name (derived ▸ sound name)
    exact ⟨kept, findsLiterals_named found⟩
  | inline type =>
    -- An inline type restricts the scalar of its base, and comes down to the same primitive type.
    have base := sound type.base
    unfold Scalar.inline at derived
    split at derived
    next inner state' given =>
      rw [given] at base
      obtain ⟨restricted, rfl⟩ := Prod.mk.inj derived
      obtain ⟨steps, primitive, down, agrees⟩ := base.2 inner rfl
      refine ⟨⟨base.1, agree.entities⟩, ?_⟩
      rw [down.primitiveBase]
      exact Scalar.agrees_restrict restricted agrees
    next failed => exact absurd derived (failed repr scalars)
  | untyped member =>
    obtain ⟨kept, found⟩ := named _ (derived ▸ sound _)
    exact ⟨kept, findsLiterals_untyped found⟩

/-- Every build keeps to the agreement of literals and kinds. -/
def literalsLaw {context : Context} (plain : context.settings.typeOverrides = [])
    (keeps : ∀ path entity rules, context.book.forType entity path = .ok rules →
      rules.options.KeepsKinds) : BuildLaw context where
  Holds := State.LiteralsAgree context.index
  At scope := scope.rules.options.KeepsKinds
  words := .all _
  Asks _ _ := True
  Found := FindsLiterals
  moved place same := by
    have rules := congrArg (fun key => key.2.2) same
    exact (congrArg (fun rules => rules.options.KeepsKinds) rules).mpr place
  asks _ _ := trivial
  asks_named _ _ _ := trivial
  frame agree entities _ known _ := ⟨by rw [Scalar.State.Remembers, known]; exact agree.remembers,
    entities ▸ agree.entities⟩
  naming agree _ := ⟨agree.remembers, agree.entities⟩
  derives agree derives derived := derives_literals plain agree derives derived
  added agree place found given inserted := by
    refine agree.set (insertField_literalsAgree inserted (agree.entities _ _ found) ?_) _
    intro repr has
    rw [FieldKind.repr?_setRelatedName] at has
    exact given_literalsAgree place given repr has
  referredBack agree found inserted :=
    agree.set (insertField_literalsAgree inserted (agree.entities _ _ found)
      (FieldKind.literalsAgree_of_bare rfl)) _
  reshaped agree found same := by
    have entityAgrees := agree.entities _ _ found
    rw [Entity.LiteralsAgree, ← (Prod.mk.inj (Prod.mk.inj (Prod.mk.inj same).2).2).2]
      at entityAgrees
    exact agree.set entityAgrees _
  adopted agree _ found _ := by
    have entityAgrees := agree.entities _ _ found
    refine agree.set ?_ _
    exact entityAgrees
  opened agree _ _ := agree.set (fun _ member => by cases member) _
  outermost _ given := keeps _ _ _ given
  asked _ := trivial

/-- The literals of everything that is built agree with the kinds of the fields. -/
theorem build_literalsAgree {index : Schema.Index} {settings : Settings} {levels : Nat}
    {book : RuleBook} {state : State} (plain : settings.KeepsKinds)
    (built : build index settings levels = .ok (book, state)) :
    state.LiteralsAgree index := by
  obtain ⟨resolver, roots, _, read, _, ran⟩ := build_eq_ok built
  have start : (State.start resolver).LiteralsAgree index :=
    ⟨(fun _ member => by cases member), fun _ _ found => by cases found⟩
  have kept := buildRoots_keeps (@literalsLaw ⟨index, settings, book, roots.map (·.1)⟩ plain.1
    fun _ _ _ given => rules_of_layers keepsKinds_layers read plain.2 given) levels
    roots fun _ _ => trivial
  exact ((kept _ start).2 () state ran).1

end Compile

open Compile

/-- Unless the settings replace the scalar of a type or the kind of a field, the default and every
bound of every field of the graph is of the type that the kind of the field asks for. -/
theorem literals_agree {index : Schema.Index} {settings : Settings} {graph : Graph}
    {levels : Nat} (plain : settings.KeepsKinds)
    (compiled : compile index settings levels = .ok graph) :
    ∀ entity ∈ graph.entities, ∀ field ∈ entity.fields, ∀ repr, field.kind.repr? = some repr →
      repr.LiteralsAgree := by
  intro entity member field fieldMember repr has
  obtain ⟨stages⟩ := exists_stages compiled
  have agree := build_literalsAgree plain stages.built
  have materialized : field.isMaterialized = true := FieldKind.isMaterialized_of_repr? has
  -- What merging exchanges are references and bags, which have no scalar.
  have blends : Blends fun kind _ => kind.LiteralsAgree :=
    ⟨fun _ _ _ _ _ _ _ _ _ _ _ => FieldKind.literalsAgree_of_bare rfl,
      fun _ _ _ _ => FieldKind.literalsAgree_of_bare rfl⟩
  refine stages.blended member fieldMember materialized blends ?_ repr has
  exact fun path built found _ _ known knownMember _ =>
    agree.entities path built found known knownMember

/-- Rows with a number that is at least one, and five unless it is given. -/
def countedRows : Schema.Index :=
  let count : Schema.Element :=
    ⟨some "count", none, some "Count", none, none, .once, some "5", none, none⟩
  { (default : Schema.Index) with
    complexTypes := [("Row", ⟨some "Row", false, none, [],
      some (.compositor .sequence .once [.element count]), none, none, none⟩)]
    simpleTypes := [("Count", ⟨some "Count", none, "xs:int",
      { Schema.Facets.none with minInclusive := some "1" }⟩)] }

/-- Whether a field has a default and a bound. -/
def Field.hasLiterals (field : Field) : Bool :=
  field.kind.repr?.any fun repr =>
    repr.defaultValue.isSome && repr.validators.any (·.bound?.isSome)

theorem literals_agree_of_countedRows :
    (settingsOf ["Row"]).KeepsKinds ∧
      ∃ graph, compile countedRows (settingsOf ["Row"]) = .ok graph ∧
        ∃ entity ∈ graph.entities, ∃ field ∈ entity.materializedFields, field.hasLiterals = true ∧
          ∀ repr, field.kind.repr? = some repr → repr.LiteralsAgree := by
  have keeps : (settingsOf ["Row"]).KeepsKinds := by decide
  have evaluated : (compile countedRows (settingsOf ["Row"])).toOption.map
      (·.entities.any (·.materializedFields.any Field.hasLiterals)) = some true := by
    decide +kernel
  obtain ⟨graph, compiled, entity, inGraph, field, inEntity, seen⟩ :=
    exists_field_of_evaluated evaluated
  exact ⟨keeps, graph, compiled, entity, inGraph, field, inEntity, seen,
    literals_agree keeps compiled entity inGraph field (List.mem_of_mem_filter inEntity)⟩

end EntityGraph
