import EntityGraph.Proofs.Build.Priority

/-!
# What flattening leaves behind

Flattening an element adds the members of its type to the entity at hand, and fails if nothing has
been added. Whether something has been added is judged by counting the fields and the entries of the
bag, before and after. As neither of them is ever taken away from an entity under construction, the
numbers are the same exactly if the fields and the entries are; and then everything that the type
leads to, which `Yields` lists by its path, has been there before.
-/
namespace EntityGraph

open Schema (Attribute AttributeItem ComplexType Element Index Member Particle Wildcard)

/-! ## Growing -/

/-- Placing a field keeps the fields in their order, but for more documentation. -/
theorem Placed.bare_prefix {fields after : List Field} {field : Field}
    (placed : Placed fields field after) : fields.map Field.bare <+: after.map Field.bare := by
  cases placed with
  | @aliased slot first documentation former place name materialized =>
    obtain ⟨bound, rfl⟩ := List.getElem?_eq_some_iff.mp place
    have same : (fields.set slot { fields[slot] with documentation }).map Field.bare =
        fields.map Field.bare := by
      have bare : Field.bare { fields[slot] with documentation } = Field.bare fields[slot] := rfl
      rw [List.map_set, bare, ← List.getElem_map Field.bare (h := by simpa using bound),
        List.set_getElem_self]
    rw [List.map_append, same]
    exact List.prefix_append _ _
  | known => exact List.prefix_refl _
  | appended =>
    rw [List.map_append]
    exact List.prefix_append _ _

namespace Compile

/-- The fields of every type path stay in their order, but for more documentation. -/
def KeepsFields (before after : State) : Prop :=
  ∀ path, (before.fieldsAt path).map Field.bare <+: (after.fieldsAt path).map Field.bare

namespace KeepsFields

variable {before after : State}

theorem of_same (same : after.entities = before.entities) : KeepsFields before after := by
  intro path
  have fields : after.fieldsAt path = before.fieldsAt path := by
    rw [State.fieldsAt, State.fieldsAt, same]
  exact fields ▸ List.prefix_refl _

theorem set {path : String} {entity : Entity}
    (grows : (before.fieldsAt path).map Field.bare <+: entity.fields.map Field.bare) :
    KeepsFields before { before with entities := before.entities.set path entity } := by
  intro other
  by_cases same : other = path
  · subst same
    have changed : State.fieldsAt { before with entities := before.entities.set other entity }
        other = entity.fields := State.fieldsAt_of_get? (Table.get?_set_self _ _ _)
    rw [changed]
    exact grows
  · have untouched : State.fieldsAt { before with entities := before.entities.set path entity }
        other = before.fieldsAt other := by
      rw [State.fieldsAt, State.fieldsAt, Table.get?_set_of_ne _ _ same]
    exact untouched ▸ List.prefix_refl _

theorem set_same {path : String} {entity later : Entity}
    (found : before.entities.get? path = some entity) (same : later.fields = entity.fields) :
    KeepsFields before { before with entities := before.entities.set path later } := by
  apply set
  have fields : later.fields = before.fieldsAt path :=
    same.trans (State.fieldsAt_of_get? found).symm
  exact fields ▸ List.prefix_refl _

end KeepsFields

theorem Step.keepsFields {context : Context} {before after : Progress}
    (step : Step context before after) : KeepsFields before.state after.state := by
  cases step with
  | noticed | named | chosen | derived | bagged | unbagged | reopened => exact .of_same rfl
  | @opened _ state path fresh _ =>
    have missing : state.fieldsAt path = [] := by
      rw [State.fieldsAt, (Table.get?_eq_none_iff _ _).mpr, Option.map_none, Option.getD_none]
      rw [← Table.has_iff_mem_names]
      exact Bool.eq_false_iff.mp fresh
    refine .set ?_
    rw [missing]
    exact List.nil_prefix
  | described _ found _ => exact .set_same found rfl
  | inherited _ found _ => exact .set_same found rfl
  | added _ found _ _ _ inserted =>
    refine .set ?_
    rw [State.fieldsAt_of_get? found]
    exact (insertField_insertion inserted).placed.bare_prefix
  | completed found _ _ => exact .set_same found rfl
  | closed found => exact .set_same found rfl

theorem Steps.keepsFields {context : Context} {before after : Progress}
    (steps : Steps context before after) : KeepsFields before.state after.state := by
  induction steps with
  | refl => exact .of_same rfl
  | tail _ step ih => exact fun path => (ih path).trans (step.keepsFields path)

/-! ## Counting -/

/-- The fields of a type path are the same but for their documentation, and its bag has the same
keys. -/
structure SameContents (path : String) (before after : State) : Prop where
  fields : (after.fieldsAt path).map Field.bare = (before.fieldsAt path).map Field.bare
  bag : after.bagKeys path = before.bagKeys path

/-- What is counted: the fields and the entries of the bag. -/
def State.size (state : State) (path : String) : Nat :=
  (state.fieldsAt path).length + (state.bagKeys path).length

theorem produced_run (path : String) (state : State) :
    (produced path).run state = .ok (state.size path, state) := by
  have fields : ((state.entities.get? path).map (·.fields.length)).getD 0 =
      (state.fieldsAt path).length := by
    rw [State.fieldsAt]
    cases state.entities.get? path <;> rfl
  have bag : ((state.bags.get? path).map List.length).getD 0 = (state.bagKeys path).length := by
    rw [State.bagKeys, Table.names, List.length_map]
    cases state.bags.get? path <;> rfl
  rw [State.size, ← fields, ← bag]
  rfl

/-- As nothing is ever taken away, the count stays the same only if all that is counted does. -/
theorem sameContents_iff_size_eq {before after : State} {path : String}
    (fields : KeepsFields before after)
    (bag : (before.bagKeys path).Sublist (after.bagKeys path)) :
    SameContents path before after ↔ after.size path = before.size path := by
  constructor
  · rintro ⟨sameFields, sameBag⟩
    have lengths := congrArg List.length sameFields
    rw [List.length_map, List.length_map] at lengths
    rw [State.size, State.size, lengths, sameBag]
  · intro same
    have moreFields := (fields path).length_le
    have moreKeys := bag.length_le
    rw [List.length_map, List.length_map] at moreFields
    rw [State.size, State.size] at same
    constructor
    · refine ((fields path).eq_of_length ?_).symm
      rw [List.length_map, List.length_map]
      omega
    · exact (bag.eq_of_length (by omega)).symm

/-! ## Records -/

/-- The entity of the type path has a field of a path, or its bag has an entry of that path. -/
def State.Records (state : State) (typePath path : String) : Prop :=
  (∃ field ∈ state.fieldsAt typePath, field.dottedPath = path) ∨ path ∈ state.bagKeys typePath

theorem SameContents.records_iff {before after : State} {typePath path : String}
    (same : SameContents typePath before after) :
    after.Records typePath path ↔ before.Records typePath path := by
  have paths (state : State) : (∃ field ∈ state.fieldsAt typePath, field.dottedPath = path) ↔
      ∃ bare ∈ (state.fieldsAt typePath).map Field.bare, bare.dottedPath = path := by
    simp [Field.bare]
  rw [State.Records, State.Records, paths, paths, same.fields, same.bag]

theorem State.Records.lasts {context : Context} {before after : Progress} {typePath path : String}
    (records : before.state.Records typePath path) (steps : Steps context before after)
    (undisturbed : Undisturbed [] before.state after.state)
    (built : before.state.isBuilt typePath = true) : after.state.Records typePath path := by
  rcases records with ⟨field, member, named⟩ | key
  · obtain ⟨kept, keptMember, bare⟩ := List.mem_map.mp
      ((steps.keepsFields typePath).subset (List.mem_map_of_mem member))
    exact .inl ⟨kept, keptMember, (Field.bare_eq_iff.mp bare).2.1.trans named⟩
  · exact .inr ((undisturbed.bags typePath List.not_mem_nil built).subset key)

section Walks

variable {context : Context} {onward : Onward} {pending : List String} {state final : State}
  {scope : Scope} {path : String}

theorem Received.records {field : Field} (received : Received state final scope field)
    (wanted : field.isMaterialized = true →
      scope.rules.dropAfterProcessing.contains field.name = false) :
    final.Records scope.typePath field.dottedPath := by
  rcases received with ⟨materialized, leftOut⟩ | ⟨entity, after, insertion, found⟩
  · rw [wanted materialized] at leftOut
    cases leftOut
  · rw [State.Records, State.fieldsAt_of_get? found]
    rcases insertion.present with ⟨known, member, _, knownPath, _⟩ | ⟨_, _, marked⟩
    · exact .inl ⟨known, member, knownPath⟩
    · exact .inl ⟨_, marked, rfl⟩

theorem State.Shows.records {rules : FieldRules} {typePath name : String} {kind : FieldKind}
    (shows : final.Shows rules typePath name path kind)
    (wanted : rules.dropAfterProcessing.contains name = false) : final.Records typePath path := by
  rcases shows with leftOut | ⟨entity, found, field, member, named, _⟩
  · rw [wanted] at leftOut
    cases leftOut
  · rw [State.Records, State.fieldsAt_of_get? found]
    exact .inl ⟨field, member, named⟩

/-- What one of several walks at a place records is there when all of them are done. -/
theorem Runs.records_one {α : Type} {items : List α} {walk : α → Walk Unit} {item : α}
    (member : item ∈ items) (fits : scope.Fits context ⟨pending, state⟩)
    (others : ∀ other, ∀ reached, scope.Fits context ⟨pending, reached⟩ →
      Runs context pending pending (walk other) reached fun _ _ => True)
    (records : ∀ reached, scope.Fits context ⟨pending, reached⟩ →
      Runs context pending pending (walk item) reached
        fun _ final => final.Records scope.typePath path) :
    Runs context pending pending (items.forM walk) state
      fun _ final => final.Records scope.typePath path := by
  induction items generalizing state with
  | nil => cases member
  | cons first rest ih =>
    change Runs context pending pending (walk first >>= fun _ => rest.forM walk) state _
    rcases List.mem_cons.mp member with rfl | inRest
    · refine (records state fits).bind fun _ reached steps recorded => ?_
      have reachedFits := steps.fits fits
      have all : Runs context pending pending (rest.forM walk) reached fun _ _ => True :=
        .repeats (fun _ => True) trivial fun other _ further more _ =>
          others other further (more.fits reachedFits)
      have built : reached.isBuilt scope.typePath = true :=
        State.isBuilt_iff.mpr (reachedFits.named.imp fun _ => And.left)
      exact all.watched.weaken fun _ _ more undisturbed =>
        recorded.lasts more undisturbed.2 built
    · exact (others first state fits).bind fun _ reached steps _ => ih inRest (steps.fits fits)

end Walks

end Compile

/-! ## What a type leads to -/

/-- A particle stands in a content model, at any depth of its compositors. -/
inductive Schema.Particle.Within (part : Particle) : Particle → Prop
  | itself : Within part part
  | inside {kind : Schema.Compositor} {occurs : Schema.Occurs} {parts : List Particle}
      {inner : Particle} (listed : inner ∈ parts) (within : Within part inner) :
      Within part (.compositor kind occurs parts)

namespace Compile

namespace FieldRules

/-- The place of the members below a path of ancestors. Their names depend on nothing else. -/
def placeAt (rules : FieldRules) (ancestors : String) : Scope :=
  { Scope.outermost "" "" rules with ancestors }

/-- The name of a member, with underscores for the dots of its path. -/
def nameAt (rules : FieldRules) (ancestors : String) (member : Member) : String :=
  (rules.placeAt ancestors).fieldName (rules.localName member)

/-- The path of a member. -/
def pathAt (rules : FieldRules) (ancestors : String) (member : Member) : String :=
  member.dottedPath ancestors (rules.localName member)

/-- The name of the field of a member, which may have been made equal to that of other fields. -/
def settledAt (rules : FieldRules) (ancestors : String) (member : Member) : String :=
  (rules.coalesce.renamed? (rules.nameAt ancestors member)).getD (rules.nameAt ancestors member)

/-- A member of the name only leaves a mark. -/
def Marks (rules : FieldRules) (name : String) : Prop :=
  rules.drop.contains name = true ∨ rules.options.parentField = some name

end FieldRules

mutual

/-- The path of something that attributes and contents lead to below a path of ancestors: a field,
a mark or an entry of the bag. -/
inductive Yields (index : Index) (rules : FieldRules) :
    String → List AttributeItem → List Particle → String → Prop
  | attrib {ancestors : String} {attributes : List AttributeItem} {contents : List Particle}
      {declaration : Attribute} {path : String} (listed : .single declaration ∈ attributes)
      (walked : isWalked declaration = true)
      (yields : MemberYields index rules ancestors (.attrib declaration) path) :
      Yields index rules ancestors attributes contents path
  | element {ancestors : String} {attributes : List AttributeItem} {contents : List Particle}
      {content : Particle} {declaration : Element} {path : String} (listed : content ∈ contents)
      (within : (Particle.element declaration).Within content)
      (yields : MemberYields index rules ancestors (.element declaration) path) :
      Yields index rules ancestors attributes contents path
  | wildcard {ancestors : String} {attributes : List AttributeItem} {contents : List Particle}
      {content : Particle} {wildcard : Wildcard} (listed : content ∈ contents)
      (within : (Particle.any wildcard).Within content) :
      Yields index rules ancestors attributes contents (ancestors ++ "*")

/-- The same of a member. A field or an entry that a rule leaves out afterwards does not count, and
an element that is flattened in turn only counts for what its own type leads to. -/
inductive MemberYields (index : Index) (rules : FieldRules) : String → Member → String → Prop
  | marked {ancestors : String} {member : Member}
      (marks : rules.Marks (rules.nameAt ancestors member)) :
      MemberYields index rules ancestors member (rules.pathAt ancestors member)
  | attrib {ancestors : String} {declaration : Attribute}
      (wanted : rules.dropAfterProcessing.contains
        (rules.settledAt ancestors (.attrib declaration)) = false) :
      MemberYields index rules ancestors (.attrib declaration)
        (rules.pathAt ancestors (.attrib declaration))
  | element {ancestors : String} {declaration : Element} {type : Option ComplexType}
      (typed : index.elementComplexType declaration = .ok type)
      (wanted : rules.dropAfterProcessing.contains
        (rules.settledAt ancestors (.element declaration)) = false)
      (whole : RuleFamily.decisive rules (rules.settledAt ancestors (.element declaration)) type ≠
        some .flatten) :
      MemberYields index rules ancestors (.element declaration)
        (rules.pathAt ancestors (.element declaration))
  | flattened {ancestors : String} {declaration : Element} {members own : ComplexType}
      {path : String} (unmarked : ¬rules.Marks (rules.nameAt ancestors (.element declaration)))
      (typed : index.elementComplexType declaration = .ok (some members))
      (decides : RuleFamily.decisive rules (rules.settledAt ancestors (.element declaration))
        (some members) = some .flatten)
      (above : own ∈ index.lineage members)
      (beneath : Yields index rules (rules.pathAt ancestors (.element declaration) ++ ".")
        own.attributeItems own.contents path) :
      MemberYields index rules ancestors (.element declaration) path
  | added {ancestors : String} {declaration : Element} {members : ComplexType}
      {extension : Schema.Extension} {family : RuleFamily} {path : String}
      (unmarked : ¬rules.Marks (rules.nameAt ancestors (.element declaration)))
      (typed : index.elementComplexType declaration = .ok (some members))
      (refers : rules.referenceExtension.contains
        (rules.settledAt ancestors (.element declaration)) = true)
      (decides : RuleFamily.decisive rules (rules.settledAt ancestors (.element declaration))
        (some members) = some family) (valued : family ∈ RuleFamily.valued)
      (extends_ : members.extension = some extension)
      (beneath : Yields index rules (rules.pathAt ancestors (.element declaration) ++ ".")
        extension.attributes extension.content.toList path) :
      MemberYields index rules ancestors (.element declaration) path

end

/-- What only leaves a mark leads to nothing else. -/
theorem MemberYields.eq_of_marks {index : Index} {rules : FieldRules} {ancestors path : String}
    {member : Member} (yields : MemberYields index rules ancestors member path)
    (marks : rules.Marks (rules.nameAt ancestors member)) :
    path = rules.pathAt ancestors member := by
  cases yields with
  | marked | attrib | element => rfl
  | flattened unmarked | added unmarked => exact absurd marks unmarked

/-! ## Walks inside of a flattened element -/

/-- The place is inside of a flattened element. -/
def Scope.IsNested (scope : Scope) : Prop := '.' ∈ scope.ancestors.toList

/-- Inside of a flattened element the name of a member is not its path. -/
theorem Scope.IsNested.name_ne_path {scope : Scope} (nested : scope.IsNested) (member : Member)
    (localName : String) :
    scope.fieldName localName ≠ member.dottedPath scope.ancestors localName := by
  intro same
  have letters := congrArg String.toList same
  cases member with
  | attrib declaration =>
    have lengths := congrArg List.length letters
    simp [Scope.fieldName, Member.dottedPath] at lengths
  | element declaration =>
    simp only [Scope.fieldName, Member.dottedPath, String.toList_append, String.toList_ofList,
      List.append_cancel_right_eq] at letters
    -- No letter of the name is a dot.
    rw [Scope.IsNested, ← letters, List.mem_map] at nested
    obtain ⟨c, _, dot⟩ := nested
    split at dot
    · cases dot
    next other => exact other dot

section Nested

variable {context : Context} {onward : Onward} {pending : List String} {state final : State}
  {scope : Scope} {path : String}

theorem walkParts_eq_forM (parts : List Particle) :
    walkParts context onward scope parts = parts.forM (walkParticle context onward scope) := by
  induction parts with
  | nil => rw [walkParts]; rfl
  | cons part rest ih => rw [walkParts, ih]; rfl

/-- The walk of attributes or of a content model. -/
def walkEither (context : Context) (onward : Onward) (scope : Scope) :
    List AttributeItem ⊕ Option Particle → Walk Unit
  | .inl items => walkAttributes context onward scope items
  | .inr content => walkContent context onward scope content

theorem walkOwnMembers_eq_forM (type : ComplexType) :
    walkOwnMembers context onward scope type =
      [.inl type.attributes, .inl ((type.simpleContent.map (·.attributes)).getD []),
        .inl ((type.extension.map (·.attributes)).getD []), .inr type.content,
        .inr (type.extension.bind (·.content))].forM (walkEither context onward scope) := by
  simp [walkOwnMembers, walkEither, List.forM]

theorem walkExtension_eq_forM (extension : Schema.Extension) :
    walkExtension context onward scope extension =
      [.inl extension.attributes, .inr extension.content].forM
        (walkEither context onward scope) := by
  simp [walkExtension, walkEither, List.forM]

/-- What every part of its kind records at a place, the whole content model records. -/
theorem walkParticle_records (onwardRuns : OnwardRuns context onward) {part whole : Particle}
    (within : part.Within whole) (fits : scope.Fits context ⟨pending, state⟩)
    (records : ∀ nullable choiceGroup reached, scope.Fits context ⟨pending, reached⟩ →
      Runs context pending pending
        (walkParticle context onward { scope with nullable, choiceGroup } part) reached
        fun _ final => final.Records scope.typePath path) :
    Runs context pending pending (walkParticle context onward scope whole) state
      fun _ final => final.Records scope.typePath path := by
  induction within generalizing scope state with
  | itself => exact records scope.nullable scope.choiceGroup state fits
  | @inside kind occurs parts inner listed within ih =>
    have compositor (nullable : Bool) (choiceGroup : Option Nat) {reached : State}
        (reachedFits : scope.Fits context ⟨pending, reached⟩) :
        Runs context pending pending
          (walkParts context onward { scope with nullable, choiceGroup } parts) reached
          fun _ final => final.Records scope.typePath path := by
      have place : Scope.Fits context ⟨pending, reached⟩ { scope with nullable, choiceGroup } :=
        reachedFits.moved
      rw [walkParts_eq_forM]
      refine (Runs.records_one listed place (fun other further furtherFits => ?_)
        fun further furtherFits => ?_).weaken fun _ _ _ => id
      · exact (walkParticle_runs onwardRuns furtherFits other).weaken fun _ _ _ _ => trivial
      · exact ih furtherFits fun inner choice last lastFits =>
          records inner choice last lastFits.moved
    cases kind with
    | sequence =>
      rw [walkParticle]
      exact compositor _ _ fits
    | choice =>
      rw [walkParticle]
      exact nextChoice_runs.bind fun choice reached steps _ =>
        compositor true (some choice) (steps.fits fits)

theorem walkAttributes_records (onwardRuns : OnwardRuns context onward)
    {items : List AttributeItem} {declaration : Attribute} (listed : .single declaration ∈ items)
    (walked : isWalked declaration = true) (fits : scope.Fits context ⟨pending, state⟩)
    (records : ∀ nullable reached, scope.Fits context ⟨pending, reached⟩ →
      Runs context pending pending
        (classify context onward scope nullable (.attrib declaration)) reached
        fun _ final => final.Records scope.typePath path) :
    Runs context pending pending (walkAttributes context onward scope items) state
      fun _ final => final.Records scope.typePath path := by
  refine Runs.records_one listed fits (fun other reached reachedFits => ?_)
    fun reached reachedFits => ?_
  · split
    · split
      · exact (classify_runs onwardRuns reachedFits _ _).weaken fun _ _ _ _ => trivial
      · exact .returns trivial
    · exact .fails
  · dsimp only
    rw [if_pos walked]
    exact records _ reached reachedFits

theorem recordWildcard_records (wildcard : Wildcard) :
    Runs context pending pending (recordWildcard scope wildcard) state
      fun _ final => final.Records scope.typePath (scope.ancestors ++ "*") := by
  refine (Runs.changes (.bagged scope.typePath _) (.of_same rfl) (.override _ _)).weaken
    fun _ final _ same => ?_
  subst same
  refine .inr ?_
  rw [State.bagKeys, Table.get?_set_self]
  exact mem_names_override.mpr (.inr List.mem_cons_self)

/-! ### Members -/

variable {site : Site} {declaration : Element} {type : Option ComplexType}

theorem addRelation_shows (onwardRuns : OnwardRuns context onward)
    (fits : scope.Fits context ⟨pending, state⟩) (inferred : Option Target) (relation : Relation) :
    Runs context pending pending
      (addRelation context onward scope site declaration inferred relation) state
      fun _ final => ∃ kind,
        final.Shows scope.rules scope.typePath site.name site.dottedPath kind := by
  cases relation with
  | oneToOne =>
    refine (singleTarget_runs site declaration).bind fun target _ steps _ => ?_
    exact (addReverse_shows onwardRuns (steps.fits fits) true target).weaken
      fun _ _ _ ⟨_, _, _, shown⟩ => ⟨_, shown⟩
  | oneToMany =>
    refine (manyTarget_runs site declaration _ _).bind fun target _ steps _ => ?_
    exact (addReverse_shows onwardRuns (steps.fits fits) false target).weaken
      fun _ _ _ ⟨_, _, _, shown⟩ => ⟨_, shown⟩
  | manyToMany =>
    refine (manyTarget_runs site declaration _ _).bind fun target _ steps _ => ?_
    exact (addManyToMany_shows onwardRuns (steps.fits fits) target).weaken
      fun _ _ _ ⟨_, _, shown⟩ => ⟨_, shown⟩

theorem recordBag_records {key : String} {doc : Option String} :
    Runs context pending pending (recordBag context scope key doc type) state
      fun _ final => final.Records scope.typePath key := by
  refine recordBag_becomes.weaken fun _ final _ kept => ?_
  obtain ⟨_, bag, found, has⟩ := kept
  refine .inr ?_
  rw [State.bagKeys, found]
  exact (Table.has_iff_mem_names _ _).mp has

/-- A plain element becomes a field, whichever family decides about its value. -/
theorem classifyPlain_records (onwardRuns : OnwardRuns context onward)
    (fits : scope.Fits context ⟨pending, state⟩) (hint : Option String)
    (wanted : scope.rules.dropAfterProcessing.contains site.name = false) :
    Runs context pending pending
      (classifyPlain context onward scope site declaration type hint) state
      fun _ final => final.Records scope.typePath site.dottedPath := by
  refine (classifyPlain_becomes onwardRuns fits hint site.name state).weaken
    fun _ final _ becomes => ?_
  cases decides : RuleFamily.valued.find? (RuleFamily.applies scope.rules site.name type) with
  | none =>
    rw [decides] at becomes
    obtain ⟨_, _, shown⟩ := becomes
    exact shown.records wanted
  | some family =>
    have valued := List.mem_of_find?_eq_some decides
    rw [decides] at becomes
    simp only [RuleFamily.valued, List.mem_cons, List.not_mem_nil, or_false] at valued
    rcases valued with rfl | rfl | rfl
    · obtain ⟨_, shown⟩ := becomes
      exact shown.records wanted
    · obtain ⟨_, _, _, _, shown⟩ := becomes
      exact shown.records wanted
    · obtain ⟨_, _, _, _, _, _, shown, _⟩ := becomes
      exact shown.records wanted

/-- An element that is not flattened becomes a field, or an entry of the bag. -/
theorem classifyElement_records (onwardRuns : OnwardRuns context onward)
    (fits : scope.Fits context ⟨pending, state⟩)
    (typed : context.index.elementComplexType declaration = .ok type)
    (wanted : scope.rules.dropAfterProcessing.contains site.name = false)
    (whole : RuleFamily.decisive scope.rules site.name type ≠ some .flatten) :
    Runs context pending pending
      (classifyElement context onward scope site site.dottedPath declaration) state
      fun _ final => final.Records scope.typePath site.dottedPath := by
  rw [classifyElement_eq]
  refine (Runs.lifts _).bind fun found first toFirst given => ?_
  obtain rfl : type = found := Except.ok.inj (typed.symm.trans given.1)
  refine (inferTarget?_runs site declaration _).bind fun inferred second toSecond implicit => ?_
  have fitsSecond := toSecond.fits (toFirst.fits fits)
  split
  next relation _ =>
    refine (addRelation_shows onwardRuns fitsSecond inferred relation).weaken ?_
    rintro _ final _ ⟨kind, shown⟩
    exact shown.records wanted
  next unrelated =>
    obtain rfl := inferred_eq_none_of_relation? unrelated
    have decides : RuleFamily.decisive scope.rules site.name type = _ :=
      decisive_of_unrelated unrelated
    unfold classifyUnrelated
    split
    next =>
      rw [if_pos (by simpa using wanted)]
      exact recordBag_records
    next unbagged =>
      rw [if_neg unbagged] at decides
      cases flat : flattened? scope.rules site.name type with
      | some members =>
        rw [flat] at decides
        exact absurd decides whole
      | none =>
        exact (unflattenedHint_runs site type).bind fun hint _ steps _ =>
          classifyPlain_records onwardRuns (steps.fits fitsSecond) hint wanted

/-- What the extension adds to which an element refers is recorded as well. -/
theorem classifyPlain_records_added (onwardRuns : OnwardRuns context onward)
    (fits : scope.Fits context ⟨pending, state⟩) (hint : Option String) {members : ComplexType}
    {extension : Schema.Extension}
    (refers : scope.rules.referenceExtension.contains site.name = true)
    (extends_ : members.extension = some extension)
    (records : ∀ reached, scope.Fits context ⟨pending, reached⟩ →
      Runs context pending pending (onward.extension { scope with
        ancestors := site.dottedPath ++ ".", nullable := site.nullable } extension) reached
        fun _ final => final.Records scope.typePath path) :
    Runs context pending pending
      (classifyPlain context onward scope site declaration (some members) hint) state
      fun _ final => final.Records scope.typePath path := by
  refine referencedExtension?_asked.bind fun found first toFirst hasAsked => ?_
  obtain rfl : found = some extension := (hasAsked.1 refers).trans extends_
  refine (resolveElement_runs onwardRuns site declaration (some members) hint _).bind
    fun result second toSecond given => ?_
  obtain ⟨resolved, most, documented⟩ := result
  have fitsSecond := toSecond.fits (toFirst.fits fits)
  refine (addMember_runs fitsSecond documented (.element declaration) resolved most given.value
    (.inl ⟨declaration, rfl⟩)).bind fun _ third toThird _ => ?_
  exact records third (toThird.fits fitsSecond)

theorem classifyElement_records_added (onwardRuns : OnwardRuns context onward)
    (fits : scope.Fits context ⟨pending, state⟩) (bagKey : String) {members : ComplexType}
    {extension : Schema.Extension} {family : RuleFamily}
    (typed : context.index.elementComplexType declaration = .ok (some members))
    (refers : scope.rules.referenceExtension.contains site.name = true)
    (decides : RuleFamily.decisive scope.rules site.name (some members) = some family)
    (valued : family ∈ RuleFamily.valued) (extends_ : members.extension = some extension)
    (records : ∀ reached, scope.Fits context ⟨pending, reached⟩ →
      Runs context pending pending (onward.extension { scope with
        ancestors := site.dottedPath ++ ".", nullable := site.nullable } extension) reached
        fun _ final => final.Records scope.typePath path) :
    Runs context pending pending
      (classifyElement context onward scope site bagKey declaration) state
      fun _ final => final.Records scope.typePath path := by
  have explicit := RuleFamily.hasExplicitRule_of_decisive decides
  rw [classifyElement_eq]
  refine (Runs.lifts _).bind fun found reached _ given => ?_
  obtain ⟨same, rfl⟩ := given
  obtain rfl : some members = found := Except.ok.inj (typed.symm.trans same)
  rw [inferTarget?, if_pos explicit, pure_bind]
  -- The families of relations, of the bag and of flattening are none of those of values.
  split
  next relation asked =>
    obtain rfl := Option.some.inj (decides.symm.trans (decisive_of_relation? asked))
    cases relation <;> exact absurd valued (by decide)
  next unrelated =>
    rw [decisive_of_unrelated unrelated] at decides
    unfold classifyUnrelated
    split
    next bagged =>
      rw [if_pos bagged] at decides
      obtain rfl := Option.some.inj decides
      exact absurd valued (by decide)
    next unbagged =>
      rw [if_neg unbagged] at decides
      cases flat : flattened? scope.rules site.name (some members) with
      | some flattened =>
        rw [flat] at decides
        obtain rfl := Option.some.inj decides
        exact absurd valued (by decide)
      | none =>
        exact (unflattenedHint_runs site _).bind fun hint _ steps _ =>
          classifyPlain_records_added onwardRuns (steps.fits fits) hint refers extends_ records

/-! ### Types -/

/-- What members and extensions lead to below a flattened element is recorded. -/
structure OnwardRecords (context : Context) (onward : Onward) : Prop where
  members : ∀ {pending : List String} {state : State} {scope : Scope} {type own : ComplexType}
    {path : String}, scope.Fits context ⟨pending, state⟩ → scope.IsNested →
    own ∈ context.index.lineage type →
    Yields context.index scope.rules scope.ancestors own.attributeItems own.contents path →
      Runs context pending pending (onward.members scope type) state
        fun _ final => final.Records scope.typePath path
  extension : ∀ {pending : List String} {state : State} {scope : Scope}
    {extension : Schema.Extension} {path : String}, scope.Fits context ⟨pending, state⟩ →
    scope.IsNested →
    Yields context.index scope.rules scope.ancestors extension.attributes extension.content.toList
      path →
      Runs context pending pending (onward.extension scope extension) state
        fun _ final => final.Records scope.typePath path

theorem Scope.IsNested.of_ancestors {scope : Scope} {path : String}
    (same : scope.ancestors = path ++ ".") : scope.IsNested := by
  simp [Scope.IsNested, same]

theorem classifyAttribute_records (onwardRuns : OnwardRuns context onward)
    (fits : scope.Fits context ⟨pending, state⟩) (declaration : Attribute)
    (wanted : scope.rules.dropAfterProcessing.contains site.name = false) :
    Runs context pending pending
      (classifyAttribute context onward scope site site.dottedPath declaration) state
      fun _ final => final.Records scope.typePath site.dottedPath := by
  unfold classifyAttribute
  split
  next =>
    rw [if_pos ((Bool.not_eq_true' _).mpr wanted)]
    exact recordBag_records
  next =>
    refine (resolveValue_runs onwardRuns _ _ _).bind fun resolved reached steps value => ?_
    have single : resolved.kind.isCollection = !Schema.MaxOccurs.one.isOne := value.2
    exact (addMember_shows (steps.fits fits) value.1 (.inr single)).weaken
      fun _ _ _ shown => shown.records wanted

/-- What an element that does not only leave a mark leads to is recorded. -/
theorem classifyElement_yields (onwardRuns : OnwardRuns context onward)
    (onwardRecords : OnwardRecords context onward) (fits : scope.Fits context ⟨pending, state⟩)
    (name : site.name = scope.rules.settledAt scope.ancestors (.element declaration))
    (dotted : site.dottedPath = scope.rules.pathAt scope.ancestors (.element declaration))
    (unmarked : ¬scope.rules.Marks (scope.rules.nameAt scope.ancestors (.element declaration)))
    (yields : MemberYields context.index scope.rules scope.ancestors (.element declaration) path) :
    Runs context pending pending
      (classifyElement context onward scope site site.dottedPath declaration) state
      fun _ final => final.Records scope.typePath path := by
  cases yields with
  | marked marks => exact absurd marks unmarked
  | element typed wanted whole =>
    rw [← dotted]
    rw [← name] at wanted whole
    exact classifyElement_records onwardRuns fits typed wanted whole
  | flattened _ typed decides above beneath =>
    rw [← name] at decides
    rw [← dotted] at beneath
    have explicit := RuleFamily.hasExplicitRule_of_decisive decides
    intro wellFormed result final ran
    obtain ⟨steps, undisturbed, becomes⟩ :=
      classifyElement_becomes onwardRuns fits typed explicit _ wellFormed result final ran
    -- The walk is the walk of the members.
    rw [decides] at becomes
    obtain ⟨_, same, ranMembers⟩ := becomes
    obtain rfl := Option.some.inj same
    have place : Scope.Fits context ⟨pending, state⟩
      (scope.flattened site.dottedPath (site.doc.getD site.name) site.nullable) := fits.moved
    obtain ⟨_, _, recorded⟩ := onwardRecords.members place (.of_ancestors rfl) above
      beneath wellFormed _ _ ranMembers
    exact ⟨steps, undisturbed, recorded⟩
  | added _ typed refers decides valued extends_ beneath =>
    rw [← name] at refers decides
    rw [← dotted] at beneath
    refine classifyElement_records_added onwardRuns fits _ typed refers decides valued extends_
      fun reached reachedFits => ?_
    have place : Scope.Fits context ⟨pending, reached⟩ { scope with
      ancestors := site.dottedPath ++ ".", nullable := site.nullable } := reachedFits.moved
    exact onwardRecords.extension place (.of_ancestors rfl) beneath

theorem classify_records (onwardRuns : OnwardRuns context onward)
    (onwardRecords : OnwardRecords context onward) (fits : scope.Fits context ⟨pending, state⟩)
    (nested : scope.IsNested) (nullable : Bool) {member : Member}
    (yields : MemberYields context.index scope.rules scope.ancestors member path) :
    Runs context pending pending (classify context onward scope nullable member) state
      fun _ final => final.Records scope.typePath path := by
  unfold classify
  extract_lets rules localName dottedPath name coalesced settled bagKey site
  have key : bagKey = site.dottedPath := if_neg (nested.name_ne_path member localName)
  split
  next drops =>
    obtain rfl := yields.eq_of_marks (.inl drops)
    exact (addField_runs fits .dropped).weaken fun _ _ _ received => received.records nofun
  next kept =>
    split
    next parent =>
      obtain rfl := yields.eq_of_marks (.inr (beq_iff_eq.mp parent))
      exact (addField_runs fits .parentAlias).weaken fun _ _ _ received => received.records nofun
    next noParent =>
      have unmarked : ¬rules.Marks name := by
        rintro (drops | parent)
        · exact kept drops
        · exact noParent (beq_iff_eq.mpr parent)
      rw [key]
      cases member with
      | attrib declaration =>
        cases yields with
        | marked marks => exact absurd marks unmarked
        | attrib wanted => exact classifyAttribute_records onwardRuns fits declaration wanted
      | element declaration =>
        exact classifyElement_yields onwardRuns onwardRecords fits rfl rfl unmarked yields

/-- What attributes and contents lead to is recorded by a walk that has all of them among its
parts. -/
theorem walkEither_records (onwardRuns : OnwardRuns context onward)
    (onwardRecords : OnwardRecords context onward) (fits : scope.Fits context ⟨pending, state⟩)
    (nested : scope.IsNested) {parts : List (List AttributeItem ⊕ Option Particle)}
    {attributes : List AttributeItem} {contents : List Particle}
    (hasAttributes : ∀ item ∈ attributes, ∃ items, .inl items ∈ parts ∧ item ∈ items)
    (hasContents : ∀ content ∈ contents, .inr (some content) ∈ parts)
    (yields : Yields context.index scope.rules scope.ancestors attributes contents path) :
    Runs context pending pending (parts.forM (walkEither context onward scope)) state
      fun _ final => final.Records scope.typePath path := by
  have others (part : List AttributeItem ⊕ Option Particle) (reached : State)
      (reachedFits : scope.Fits context ⟨pending, reached⟩) :
      Runs context pending pending (walkEither context onward scope part) reached
        fun _ _ => True := by
    cases part with
    | inl items => exact walkAttributes_runs onwardRuns reachedFits items
    | inr content => exact walkContent_runs onwardRuns reachedFits content
  cases yields with
  | attrib listed walked yields =>
    obtain ⟨items, part, inside⟩ := hasAttributes _ listed
    refine Runs.records_one part fits others fun reached reachedFits => ?_
    exact walkAttributes_records onwardRuns inside walked reachedFits
      fun nullable _ furtherFits =>
        classify_records onwardRuns onwardRecords furtherFits nested nullable yields
  | element listed within yields =>
    refine Runs.records_one (hasContents _ listed) fits others fun reached reachedFits => ?_
    refine walkParticle_records onwardRuns within reachedFits
      fun nullable choiceGroup further furtherFits => ?_
    have place : Scope.Fits context ⟨pending, further⟩ { scope with nullable, choiceGroup } :=
      furtherFits.moved
    rw [walkParticle]
    exact classify_records onwardRuns onwardRecords place nested _ yields
  | wildcard listed within =>
    refine Runs.records_one (hasContents _ listed) fits others fun reached reachedFits => ?_
    refine walkParticle_records onwardRuns within reachedFits fun _ _ _ _ => ?_
    rw [walkParticle]
    exact recordWildcard_records _

theorem walkMembers_records (onwardRuns : OnwardRuns context onward)
    (onwardRecords : OnwardRecords context onward) (fits : scope.Fits context ⟨pending, state⟩)
    (nested : scope.IsNested) {given own : ComplexType} (above : own ∈ context.index.lineage given)
    (yields : Yields context.index scope.rules scope.ancestors own.attributeItems own.contents
      path) :
    Runs context pending pending (walkMembers context onward scope given) state
      fun _ final => final.Records scope.typePath path := by
  refine Runs.records_one above fits
    (fun other _ reachedFits => walkOwnMembers_runs onwardRuns reachedFits other)
    fun reached reachedFits => ?_
  rw [walkOwnMembers_eq_forM]
  refine walkEither_records onwardRuns onwardRecords reachedFits nested (fun item listed => ?_)
    (fun content listed => ?_) yields
  · simp only [ComplexType.attributeItems, List.mem_append] at listed
    rcases listed with (listed | listed) | listed
    · exact ⟨_, by simp, listed⟩
    · exact ⟨_, by simp, listed⟩
    · exact ⟨_, by simp, listed⟩
  · simp only [ComplexType.contents, List.mem_append, Option.mem_toList] at listed
    rcases listed with listed | listed
    · simp [← listed]
    · simp [← listed]

theorem walkExtension_records (onwardRuns : OnwardRuns context onward)
    (onwardRecords : OnwardRecords context onward) (fits : scope.Fits context ⟨pending, state⟩)
    (nested : scope.IsNested) {extension : Schema.Extension}
    (yields : Yields context.index scope.rules scope.ancestors extension.attributes
      extension.content.toList path) :
    Runs context pending pending (walkExtension context onward scope extension) state
      fun _ final => final.Records scope.typePath path := by
  rw [walkExtension_eq_forM]
  refine walkEither_records onwardRuns onwardRecords fits nested
    (fun item listed => ⟨_, by simp, listed⟩) (fun content listed => ?_) yields
  rw [Option.mem_toList] at listed
  simp [← listed]

theorem onward_records (context : Context) (levels : Nat) :
    OnwardRecords context (Compile.onward context levels) := by
  induction levels with
  | zero => exact ⟨fun _ _ _ _ => .fails, fun _ _ _ => .fails⟩
  | succ levels ih =>
    have onwardRuns := onward_runs context levels
    exact ⟨fun fits nested above yields =>
        walkMembers_records onwardRuns ih fits nested above yields,
      fun fits nested yields => walkExtension_records onwardRuns ih fits nested yields⟩

/-! ## Flattening -/

theorem flatten_run (members : ComplexType) :
    (flatten onward scope site members).run state =
      ((onward.members (scope.flattened site.dottedPath (site.doc.getD site.name) site.nullable)
        members).run state).bind fun reached =>
          if reached.2.size scope.typePath = state.size scope.typePath then
            .error (.emptyFlatten (scope.memberPath site.dottedPath) members.label)
          else .ok ((), reached.2) := by
  simp only [flatten, StateT.run_bind, produced_run]
  cases ran : (onward.members (scope.flattened site.dottedPath (site.doc.getD site.name)
    site.nullable) members).run state with
  | error other => simp [bind, Except.bind, ran]
  | ok reached =>
    simp only [bind, Except.bind, ran]
    split
    · rfl
    · rfl

/-- Flattening fails with the walk of the members, or if that leaves the count as it was. -/
theorem flatten_eq_error_iff {members : ComplexType} {failure : Error} :
    (flatten onward scope site members).run state = .error failure ↔
      (onward.members (scope.flattened site.dottedPath (site.doc.getD site.name) site.nullable)
        members).run state = .error failure ∨
      failure = .emptyFlatten (scope.memberPath site.dottedPath) members.label ∧
        ∃ final, (onward.members (scope.flattened site.dottedPath (site.doc.getD site.name)
          site.nullable) members).run state = .ok ((), final) ∧
            final.size scope.typePath = state.size scope.typePath := by
  rw [flatten_run]
  cases (onward.members (scope.flattened site.dottedPath (site.doc.getD site.name)
    site.nullable) members).run state with
  | error other => simp [Except.bind]
  | ok reached =>
    obtain ⟨⟨⟩, final⟩ := reached
    by_cases same : final.size scope.typePath = state.size scope.typePath
    · simp [Except.bind, same, eq_comm]
    · simp [Except.bind, same]

end Nested

end Compile

end EntityGraph
