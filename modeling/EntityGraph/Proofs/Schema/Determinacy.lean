import EntityGraph.Proofs.Schema.Resolved

/-!
# What resolution depends on

What a declaration is resolved to depends neither on the trail nor on the number of layers, so far
as there is a result at all. The element around an inline type is only noted in it. So a reference
to an element resolves to what the index has for the element, with few exceptions.
-/
namespace EntityGraph.Schema

open Result (Related)

namespace Declarations

variable {self : Declarations}

theorem attributesWith_agree {members others : String → Result (List AttributeItem)}
    (agree : ∀ reference, Related Eq (members reference) (others reference))
    (items : List AttributeItem) :
    Related Eq (self.attributesWith members items) (self.attributesWith others items) := by
  induction items with
  | nil => exact .returns rfl
  | cons item rest ih =>
    cases item with
    | single declaration =>
      refine (Related.same (self.attributeDeclaration declaration)).bind ?_
      rintro first _ rfl
      refine ih.bind ?_
      rintro later _ rfl
      exact .returns rfl
    | group reference =>
      refine (agree reference).bind ?_
      rintro found _ rfl
      refine ih.bind ?_
      rintro later _ rfl
      exact .returns rfl

theorem attributeItems_agree (layers others : Nat) (trail other : Trail)
    (items : List AttributeItem) :
    Related Eq (self.attributeItems layers trail items)
      (self.attributeItems others other items) := by
  induction layers generalizing others trail other items with
  | zero =>
    cases others with
    | zero | succ others => exact attributesWith_agree (fun _ => .fails_left) items
  | succ layers ih =>
    cases others with
    | zero => exact attributesWith_agree (fun _ => .fails_right) items
    | succ others =>
      refine attributesWith_agree (fun reference => ?_) items
      refine (Related.same (lookup self.attributeGroups _)).bind ?_
      rintro group _ rfl
      -- The two trails may differ, and so may what entering the group makes of them.
      exact (Related.anyhow _ _).bind fun inner otherInner _ =>
        ih others inner otherInner group.attributes

/-- Two layers give the same results where both give one, on any trails. -/
structure Layer.Agree (layer other : Layer) : Prop where
  particle : ∀ trail otherTrail written,
    Related Eq (layer.particle trail written) (other.particle otherTrail written)
  element : ∀ trail otherTrail written,
    Related Eq (layer.element trail written) (other.element otherTrail written)

mutual

/-- Two resolutions of a type differ in the container only. -/
theorem complexType_agree {next otherNext : Layer} (agree : next.Agree otherNext)
    (trail other : Trail) (container otherContainer : Option Container) (written : ComplexType) :
    Related (fun type otherType =>
        type = { otherType with container } ∧ otherType.container = otherContainer)
      (self.complexType next trail container written)
      (self.complexType otherNext other otherContainer written) := by
  match written with
  | ⟨name, isAbstract, documentation, attributes, inside, extends_, simpleContent, _⟩ =>
    rw [complexType, complexType]
    refine (attributeItems_agree _ _ trail other attributes).bind ?_
    rintro items _ rfl
    refine (content_agree agree trail other inside).bind ?_
    rintro content _ rfl
    refine (extension_agree agree trail other extends_).bind ?_
    rintro extension _ rfl
    cases simpleContent with
    | none => exact .returns ⟨rfl, rfl⟩
    | some inner =>
      refine (attributeItems_agree _ _ trail other inner.attributes).bind ?_
      rintro innerItems _ rfl
      exact .returns ⟨rfl, rfl⟩
termination_by structural written

theorem content_agree {next otherNext : Layer} (agree : next.Agree otherNext)
    (trail other : Trail) (written : Option Particle) :
    Related Eq (self.content next trail written) (self.content otherNext other written) := by
  match written with
  | some inside =>
    rw [content, content]
    refine (particle_agree agree trail other inside).bind ?_
    rintro resolved _ rfl
    exact .returns rfl
  | none =>
    rw [content, content]
    exact .returns rfl
termination_by structural written

theorem extension_agree {next otherNext : Layer} (agree : next.Agree otherNext)
    (trail other : Trail) (written : Option Extension) :
    Related Eq (self.extension next trail written) (self.extension otherNext other written) := by
  match written with
  | some ⟨base, attributes, inside⟩ =>
    rw [extension, extension]
    refine (attributeItems_agree _ _ trail other attributes).bind ?_
    rintro items _ rfl
    refine (content_agree agree trail other inside).bind ?_
    rintro content _ rfl
    exact .returns rfl
  | none =>
    rw [extension, extension]
    exact .returns rfl
termination_by structural written

theorem particle_agree {next otherNext : Layer} (agree : next.Agree otherNext)
    (trail other : Trail) (written : Particle) :
    Related Eq (self.particle next trail written) (self.particle otherNext other written) := by
  match written with
  | .element declaration =>
    rw [particle, particle]
    refine (element_agree agree trail other declaration).bind ?_
    rintro resolved _ rfl
    exact .returns rfl
  | .compositor kind occurs inside =>
    rw [particle, particle]
    refine (parts_agree agree trail other inside).bind ?_
    rintro resolved _ rfl
    exact .returns rfl
  | .any wildcard =>
    rw [particle, particle]
    exact .returns rfl
  | .group reference occurs =>
    rw [particle, particle]
    refine (Related.same (lookup self.groups _)).bind ?_
    rintro group _ rfl
    refine (Related.anyhow _ _).bind fun inner otherInner _ => ?_
    refine (agree.particle inner otherInner group.particle).bind ?_
    rintro resolved _ rfl
    exact .returns rfl
termination_by structural written

theorem parts_agree {next otherNext : Layer} (agree : next.Agree otherNext)
    (trail other : Trail) (written : List Particle) :
    Related Eq (self.parts next trail written) (self.parts otherNext other written) := by
  match written with
  | [] =>
    rw [parts, parts]
    exact .returns rfl
  | part :: rest =>
    rw [parts, parts]
    refine (particle_agree agree trail other part).bind ?_
    rintro first _ rfl
    refine (parts_agree agree trail other rest).bind ?_
    rintro later _ rfl
    exact .returns rfl
termination_by structural written

theorem element_agree {next otherNext : Layer} (agree : next.Agree otherNext)
    (trail other : Trail) (written : Element) :
    Related Eq (self.element next trail written) (self.element otherNext other written) := by
  match written with
  | ⟨name, some reference, typeName, inline, simpleType, occurs, defaultText, fixedText,
      documentation⟩ =>
    rw [element, element]
    refine (Related.same (lookup self.elements _)).bind ?_
    rintro target _ rfl
    extract_lets
    split
    · exact (Related.anyhow _ _).bind fun inner otherInner _ => agree.element inner otherInner _
    · exact .returns rfl
  | ⟨name, none, typeName, inline, simpleType, occurs, defaultText, fixedText, documentation⟩ =>
    rw [element, element]
    refine (inlineType_agree agree trail other _ inline).bind ?_
    rintro inside _ rfl
    exact .returns rfl
termination_by structural written

theorem inlineType_agree {next otherNext : Layer} (agree : next.Agree otherNext)
    (trail other : Trail) (container : Container) (written : Option ComplexType) :
    Related Eq (self.inlineType next trail container written)
      (self.inlineType otherNext other container written) := by
  match written with
  | some type =>
    rw [inlineType, inlineType]
    refine (complexType_agree agree trail other (some container) (some container) type).bind ?_
    rintro _ ⟨_, _, _, _, _, _, _, _⟩ ⟨rfl, own⟩
    cases own
    exact .returns rfl
  | none =>
    rw [inlineType, inlineType]
    exact .returns rfl
termination_by structural written

end

theorem layer_agree (count other : Nat) : (self.layer count).Agree (self.layer other) := by
  induction count generalizing other with
  | zero => exact ⟨fun _ _ _ => .fails_left, fun _ _ _ => .fails_left⟩
  | succ count ih =>
    cases other with
    | zero => exact ⟨fun _ _ _ => .fails_right, fun _ _ _ => .fails_right⟩
    | succ other => exact ⟨particle_agree (ih other), element_agree (ih other)⟩

theorem element_eq_ok_of_direct {next : Layer} {trail : Trail} {written resolved : Element}
    (direct : written.reference = none) (given : self.element next trail written = .ok resolved) :
    ∃ inside, self.inlineType next trail ⟨written.name.getD "", written.documentation⟩
        written.complexType = .ok inside ∧
      resolved = { written with
        typeName := written.typeName.map self.names.canonical
        complexType := inside
        simpleType := written.simpleType.map self.simpleType } := by
  obtain ⟨name, reference, _, _, _, _, _, _, _⟩ := written
  obtain rfl : reference = none := direct
  rw [element] at given
  obtain ⟨inside, insideGiven, given⟩ := Result.bind_eq_ok.mp given
  exact ⟨inside, insideGiven, (Result.pure_eq_ok.mp given).symm⟩

/-- A reference to an element without an inline type takes the simple type of the element as it is
written. An inline type is resolved in the next layer. -/
theorem element_eq_ok_of_reference {next : Layer} {trail : Trail} {site resolved : Element}
    {reference : String} (refers : site.reference = some reference) (bare : site.simpleType = none)
    (given : self.element next trail site = .ok resolved) :
    ∃ target, self.elements.get? (self.names.canonical reference) = some target ∧
      (target.complexType = none ∧
          resolved = { referencedElement site target (self.names.canonical reference) with
            typeName := target.typeName.map self.names.canonical } ∨
        target.complexType.isSome = true ∧ ∃ inner, next.element inner
          (referencedElement site target (self.names.canonical reference)) = .ok resolved) := by
  obtain ⟨_, written, _, _, simpleType, _, _, _, _⟩ := site
  obtain rfl : written = some reference := refers
  obtain rfl : simpleType = none := bare
  rw [element] at given
  obtain ⟨target, has, given⟩ := Result.bind_eq_ok.mp given
  refine ⟨target, get?_of_lookup has, ?_⟩
  extract_lets resolved at given
  split at given
  next inline =>
    obtain ⟨inner, _, given⟩ := Result.bind_eq_ok.mp given
    exact .inr ⟨inline, inner, given⟩
  next inline =>
    exact .inl ⟨Option.not_isSome_iff_eq_none.mp inline, (Result.pure_eq_ok.mp given).symm⟩

theorem inlineType_eq_ok {count : Nat} {trail : Trail} {container : Container}
    {written resolved : Option ComplexType}
    (given : self.inlineType (self.layer count) trail container written = .ok resolved) :
    resolved.isSome = written.isSome ∧
      ∀ type, resolved = some type → type.container = some container := by
  cases written with
  | none =>
    rw [inlineType] at given
    cases given
    exact ⟨rfl, fun _ has => by cases has⟩
  | some type =>
    rw [inlineType] at given
    obtain ⟨inside, insideGiven, given⟩ := Result.bind_eq_ok.mp given
    obtain rfl := Result.pure_eq_ok.mp given
    refine ⟨rfl, ?_⟩
    rintro _ ⟨⟩
    exact (complexType_agree (layer_agree count count) _ _ _ _ _ _ _ insideGiven insideGiven).2

theorem inlineType_contained {next otherNext : Layer} (agree : next.Agree otherNext)
    (trail other : Trail) (container otherContainer : Container) (written : Option ComplexType) :
    Related (fun type otherType => type = otherType.map fun inside : ComplexType =>
        { inside with container := some container })
      (self.inlineType next trail container written)
      (self.inlineType otherNext other otherContainer written) := by
  cases written with
  | none =>
    rw [inlineType, inlineType]
    exact .returns rfl
  | some type =>
    rw [inlineType, inlineType]
    refine (complexType_agree agree trail other _ _ type).bind ?_
    rintro _ resolved ⟨rfl, _⟩
    exact .returns rfl

end Declarations

namespace Index

variable {document : Document} {index : Index}

theorem get?_of_resolveElements {declarations : Declarations} {elements resolved : Table Element}
    (given : resolveElements declarations elements = .ok resolved) {name : String}
    {declared : Element} (has : elements.get? name = some declared) :
    ∃ entry, resolved.get? name = some entry ∧
      declarations.element declarations.allLayers ["element " ++ name] declared = .ok entry := by
  induction elements generalizing resolved with
  | nil => cases has
  | cons first rest ih =>
    obtain ⟨own, element⟩ := first
    rw [resolveElements] at given
    obtain ⟨entry, entryGiven, given⟩ := Result.bind_eq_ok.mp given
    obtain ⟨others, othersGiven, given⟩ := Result.bind_eq_ok.mp given
    obtain rfl := Result.pure_eq_ok.mp given
    rw [Table.get?_cons] at has ⊢
    split at has
    next same =>
      obtain rfl := Option.some.inj has
      refine ⟨entry, by rw [if_pos same], ?_⟩
      obtain rfl : own = name := same
      exact entryGiven
    next differs =>
      rw [if_neg differs]
      exact ih othersGiven has

/-- The entry of a declared element that is no reference. -/
theorem exists_entry_of_build (built : Index.build document = .ok index) {name : String}
    {declared : Element}
    (has : (Declarations.ofDocument document).elements.get? name = some declared)
    (direct : declared.reference = none) :
    ∃ entry, index.elements.get? name = some entry ∧
      ∃ inside, (Declarations.ofDocument document).inlineType
          (Declarations.ofDocument document).allLayers ["element " ++ name]
          ⟨declared.name.getD "", declared.documentation⟩ declared.complexType = .ok inside ∧
        entry = { declared with
          typeName := declared.typeName.map index.canonical
          complexType := inside
          simpleType :=
            declared.simpleType.map (Declarations.ofDocument document).simpleType } := by
  have names := build_namespaces built
  obtain ⟨_, _, built⟩ := Result.bind_eq_ok.mp built
  obtain ⟨elements, elementsGiven, built⟩ := Result.bind_eq_ok.mp built
  obtain rfl := Result.pure_eq_ok.mp built
  obtain ⟨entry, found, given⟩ := get?_of_resolveElements elementsGiven has
  exact ⟨entry, found, Declarations.element_eq_ok_of_direct direct given⟩

/-- What a reference is resolved to, compared with the entry of the element. -/
theorem reference_eq_entry (built : Index.build document = .ok index) {site target : Element}
    {reference : String} (refers : site.reference = some reference) (bare : site.simpleType = none)
    (declared : (Declarations.ofDocument document).elements.get? (index.canonical reference) =
      some target) (direct : target.reference = none) {count : Nat} {trail : Trail}
    {resolved : Element} (given : (Declarations.ofDocument document).element
      ((Declarations.ofDocument document).layer count) trail site = .ok resolved) :
    ∃ entry, index.elements.get? (index.canonical reference) = some entry ∧
      entry.simpleType = target.simpleType.map (Declarations.ofDocument document).simpleType ∧
      (∀ inside, entry.complexType = some inside →
        inside.container = some ⟨target.name.getD "", target.documentation⟩) ∧
      entry.complexType.isSome = target.complexType.isSome ∧
      resolved = { entry with
        name := some (index.canonical reference)
        reference := none
        simpleType :=
          if target.complexType.isSome then entry.simpleType else target.simpleType
        complexType := entry.complexType.map fun inside : ComplexType =>
          { inside with
            container :=
              some ⟨index.canonical reference, site.documentation <|> entry.documentation⟩ }
        occurs := site.occurs
        documentation := site.documentation <|> entry.documentation } := by
  obtain ⟨entry, found, inside, insideGiven, rfl⟩ := exists_entry_of_build built declared direct
  refine ⟨_, found, rfl, ?_⟩
  have canonical : index.canonical = (Declarations.ofDocument document).names.canonical := by
    funext name
    rw [Index.canonical, build_namespaces built]
    rfl
  obtain ⟨target', has, resolution⟩ := Declarations.element_eq_ok_of_reference refers bare given
  rw [← canonical] at has
  obtain rfl : target = target' := Option.some.inj (declared.symm.trans has)
  obtain ⟨present, contained⟩ := Declarations.inlineType_eq_ok insideGiven
  refine ⟨contained, present, ?_⟩
  rcases resolution with ⟨plain, rfl⟩ | ⟨inline, inner, given⟩
  · have absent : inside = none := by
      rw [plain, Option.isSome_none] at present
      exact Option.not_isSome_iff_eq_none.mp (by rw [present]; exact Bool.false_ne_true)
    simp [absent, plain, Declarations.referencedElement, canonical]
  · cases count with
    | zero => cases given
    | succ count =>
      obtain ⟨nested, nestedGiven, rfl⟩ := Declarations.element_eq_ok_of_direct rfl given
      obtain rfl := Declarations.inlineType_contained
        (Declarations.layer_agree count _) _ _ _ _ _ nested inside nestedGiven insideGiven
      simp [inline, Declarations.referencedElement, canonical]

end Index

/-- A type without the documentation of the element around it. -/
def ComplexType.withoutContainerText (type : ComplexType) : ComplexType :=
  { type with
    container := type.container.map fun around => { around with documentation := none } }

/-- The resolved element stands for an entry of an index: it is the entry under the given name, with
the bounds of the place of the reference, and with its documentation, if it states any. -/
structure Element.StandsFor (resolved site entry : Element) (name : String) : Prop where
  name : resolved.name = some name
  reference : resolved.reference = none
  typeName : resolved.typeName = entry.typeName
  complexType : resolved.complexType.map ComplexType.withoutContainerText =
    entry.complexType.map ComplexType.withoutContainerText
  simpleType : resolved.simpleType = entry.simpleType
  occurs : resolved.occurs = site.occurs
  defaultText : resolved.defaultText = entry.defaultText
  fixedText : resolved.fixedText = entry.fixedText
  documentation : resolved.documentation = (site.documentation <|> entry.documentation)

/-- A type in another container is the same without the text of the container if the element around
it has the same name. -/
theorem withoutContainerText_eq_iff {type : ComplexType} {container other : Container}
    (contained : type.container = some other) :
    ({ type with container := some container } : ComplexType).withoutContainerText =
      type.withoutContainerText ↔ other.element = container.element := by
  obtain ⟨_, _, _, _, _, _, _, _⟩ := type
  obtain rfl : _ = some other := contained
  simp [ComplexType.withoutContainerText, eq_comm]

/-- A reference to an element that is no reference itself resolves to what the index has for the
element, wherever it stands, with two exceptions: a simple type inside the element is not resolved,
and a complex type inside the element knows the element by its canonical name. -/
theorem Index.standsFor_entry_iff {document : Document} {index : Index}
    (built : Index.build document = .ok index) {site target : Element} {reference : String}
    (refers : site.reference = some reference) (bare : site.simpleType = none)
    (declared : (Declarations.ofDocument document).elements.get? (index.canonical reference) =
      some target) (direct : target.reference = none) {count : Nat} {trail : Trail}
    {resolved : Element} (given : (Declarations.ofDocument document).element
      ((Declarations.ofDocument document).layer count) trail site = .ok resolved) :
    ∃ entry, index.elements.get? (index.canonical reference) = some entry ∧
      (resolved.StandsFor site entry (index.canonical reference) ↔
        if target.complexType.isSome then target.name.getD "" = index.canonical reference
        else target.simpleType.map (Declarations.ofDocument document).simpleType =
          target.simpleType) := by
  obtain ⟨entry, found, simple, contained, present, rfl⟩ :=
    reference_eq_entry built refers bare declared direct given
  refine ⟨entry, found, ?_⟩
  have stands : ∀ {simpleType complexType},
      Element.StandsFor { entry with
        name := some (index.canonical reference)
        reference := none
        simpleType
        complexType
        occurs := site.occurs
        documentation := site.documentation <|> entry.documentation } site entry
        (index.canonical reference) ↔
      complexType.map ComplexType.withoutContainerText =
        entry.complexType.map ComplexType.withoutContainerText ∧
      simpleType = entry.simpleType := by
    refine ⟨fun stands => ⟨stands.complexType, stands.simpleType⟩, ?_⟩
    rintro ⟨complexType, simpleType⟩
    exact ⟨rfl, rfl, rfl, complexType, simpleType, rfl, rfl, rfl, rfl⟩
  rw [stands, ← present, ← simple]
  cases inline : entry.complexType with
  | none => simp [eq_comm]
  | some inside =>
    simp [withoutContainerText_eq_iff (contained inside inline)]

/-- An order with a reference to its code. The element of the code restricts a type by the given
name; the prefix `shop` stands for the default namespace. -/
def codeDocument (base : String) : Document :=
  { (default : Document) with
    namespaces := [("", "urn:shop"), ("shop", "urn:shop")]
    complexTypes := [⟨some "Order", false, none, [], some (.compositor .sequence .once
      [.element (plainElement none (some "code") none)]), none, none, none⟩]
    simpleTypes := [⟨some "Code", none, "xs:token", .none⟩]
    elements := [{ plainElement (some "code") none none with
      simpleType := some ⟨none, none, base, .none⟩ }] }

theorem Index.standsFor_entry_of_codeDocument :
    ∃ index resolved entry, Index.build (codeDocument "Code") = .ok index ∧
      (Declarations.ofDocument (codeDocument "Code")).element
        ((Declarations.ofDocument (codeDocument "Code")).layer 1) []
        (plainElement none (some "shop:code") none) = .ok resolved ∧
      index.elements.get? "code" = some entry ∧
      resolved.StandsFor (plainElement none (some "shop:code") none) entry "code" := by
  have evaluated : (Index.build (codeDocument "Code")).toOption.isSome = true ∧
      ((Declarations.ofDocument (codeDocument "Code")).element
        ((Declarations.ofDocument (codeDocument "Code")).layer 1) []
        (plainElement none (some "shop:code") none)).toOption.isSome = true := by
    decide
  obtain ⟨index, built⟩ := Result.isSome_toOption.mp evaluated.1
  obtain ⟨resolved, given⟩ := Result.isSome_toOption.mp evaluated.2
  have canonical : index.canonical "shop:code" = "code" := by
    rw [Index.canonical, Index.build_namespaces built]
    decide
  have refers : (plainElement none (some "shop:code") none).reference = some "shop:code" := rfl
  obtain ⟨entry, found, stands⟩ := Index.standsFor_entry_iff built refers rfl
    (by rw [canonical]; rfl) rfl given
  rw [canonical] at found stands
  exact ⟨index, resolved, entry, built, given, found, stands.mpr (by decide)⟩

/-- The type that the element restricts is named differently where the element is referred to. -/
theorem Index.reference_keeps_written_base :
    ∃ index type content resolved entry, Index.build (codeDocument "shop:Code") = .ok index ∧
      index.complexType? "Order" = some type ∧ type.content = some content ∧
      resolved ∈ content.elements ∧ index.elements.get? "code" = some entry ∧
      resolved.simpleType = some ⟨none, none, "shop:Code", .none⟩ ∧
      entry.simpleType = some ⟨none, none, "Code", .none⟩ ∧
      ¬resolved.StandsFor (plainElement none (some "code") none) entry "code" := by
  have evaluated : (Index.build (codeDocument "shop:Code")).toOption.map (fun index =>
      (((index.complexTypes.get? "Order").bind (·.content)).map fun content =>
          content.elements.map (·.simpleType),
        (index.elements.get? "code").map (·.simpleType))) =
      some (some [some ⟨none, none, "shop:Code", .none⟩],
        some (some ⟨none, none, "Code", .none⟩)) := by decide
  obtain ⟨index, built, seen⟩ := Result.exists_ok_of_map evaluated
  obtain ⟨inOrder, inIndex⟩ := Prod.mk.inj seen
  obtain ⟨content, inside, simple⟩ := Option.map_eq_some_iff.mp inOrder
  obtain ⟨type, found, has⟩ := Option.bind_eq_some_iff.mp inside
  obtain ⟨entry, entryFound, entrySimple⟩ := Option.map_eq_some_iff.mp inIndex
  obtain ⟨resolved, member, resolvedSimple⟩ : ∃ resolved ∈ content.elements,
      resolved.simpleType = some ⟨none, none, "shop:Code", .none⟩ :=
    List.mem_map.mp (simple ▸ List.mem_cons_self)
  refine ⟨index, type, content, resolved, entry, built, ?_, has, member, entryFound,
    resolvedSimple, entrySimple, fun stands => ?_⟩
  · rw [Index.complexType?, Index.lookup?, found]
    rfl
  · rw [stands.simpleType, entrySimple] at resolvedSimple
    exact absurd resolvedSimple (by decide)

end EntityGraph.Schema
