import EntityGraph.Proofs.Graph.Stages

/-!
# Elements that wrap rows

An element that occurs once becomes a relation to many where its type wraps exactly one element that
repeats. Two questions are asked of the type: whether it wraps such an element, and which element
that is. They agree on a bare element and on a sequence. On a choice only the first one is answered,
and the relation leads to the wrapper itself.
-/
namespace EntityGraph

open Schema (ComplexType Element)

namespace Schema.ComplexType

/-- Whether the content is a choice. -/
def isChoice (type : ComplexType) : Bool :=
  match type.content with
  | some (.compositor .choice _ _) => true
  | _ => false

/-- The two questions about a repeated element that stands alone agree unless it is in a choice. -/
theorem unboundedChild?_of_sole {type : ComplexType} {child : Element}
    (sole : type.soleElement? = some child) (unbounded : child.occurs.most = .unbounded) :
    type.unboundedChild? = if type.isChoice then none else some child := by
  have repeats : child.occurs.most.isUnbounded = true := by rw [unbounded]; rfl
  unfold soleElement? at sole
  split at sole
  next kind _ declaration content =>
    cases sole
    cases kind with
    | sequence => simp [unboundedChild?, isChoice, content, unboundedPart?, repeats]
    | choice => simp [unboundedChild?, isChoice, content]
  next declaration content =>
    cases sole
    simp [unboundedChild?, isChoice, content, unboundedPart?, repeats]
  next => cases sole

end Schema.ComplexType

namespace Compile

/-- The element occurs once, and its type has no attributes of its own and wraps exactly one
element, which repeats and is of complex type. -/
structure Wraps (index : Schema.Index) (declaration : Element) (wrapper : ComplexType)
    (child : Element) (inner : ComplexType) : Prop where
  once : declaration.occurs.most = .one
  typed : index.elementComplexType declaration = .ok (some wrapper)
  bare : wrapper.attributes = []
  sole : wrapper.soleElement? = some child
  unbounded : child.occurs.most = .unbounded
  complex : index.elementComplexType child = .ok (some inner)

/-- The type of the wrapped rows. -/
def rowTarget (scope : Scope) (site : Site) (child : Element) (inner : ComplexType) : Target :=
  ⟨inner.name.getD (scope.memberPath (site.name ++ "_" ++ child.localName)), some inner⟩

/-- The type of the wrapper. -/
def wrapperTarget (scope : Scope) (site : Site) (wrapper : ComplexType) : Target :=
  ⟨wrapper.name.getD (scope.memberPath site.name), some wrapper⟩

/-- The relation to many that no rule asks for: many to many if the target is a root. -/
def addInferred (context : Context) (onward : Onward) (scope : Scope) (site : Site)
    (target : Target) : Walk Unit :=
  if context.roots.contains target.path then addManyToMany context onward scope site target
  else addReverse context onward scope site false target

section Wraps

variable {context : Context} {scope : Scope} {site : Site} {declaration child : Element}
  {wrapper inner : ComplexType}

theorem Wraps.isRepeated (wraps : Wraps context.index declaration wrapper child inner) :
    isRepeated context.index declaration = .ok true := by
  have once : declaration.occurs.most.isUnbounded = false := by rw [wraps.once]; rfl
  have single : declaration.occurs.most.isOne = true := by rw [wraps.once]; rfl
  have repeats : child.occurs.most.isUnbounded = true := by rw [wraps.unbounded]; rfl
  simp [Compile.isRepeated, wraps.typed, once, single, wraps.bare, wraps.sole, repeats,
    wraps.complex]

/-- What does not look at the state and succeeds gives its value. -/
theorem lift_ok {α : Type} (value : α) : (liftM (.ok value : Result α) : Walk α) = pure value := rfl

/-- The target is the type of the wrapped rows; in a choice it is the wrapper, and a notice says
so. -/
theorem Wraps.repeatedTarget (wraps : Wraps context.index declaration wrapper child inner) :
    repeatedTarget context scope site declaration =
      if wrapper.isChoice then do
        notify (.assumedUnbounded (scope.memberPath site.dottedPath))
        return wrapperTarget scope site wrapper
      else return rowTarget scope site child inner := by
  have once : declaration.occurs.most.isUnbounded = false := by rw [wraps.once]; rfl
  have asked := ComplexType.unboundedChild?_of_sole wraps.sole wraps.unbounded
  cases choice : wrapper.isChoice with
  | true =>
    simp [Compile.repeatedTarget, repeatedElement, once, wraps.typed, asked, choice, lift_ok,
      wrapperTarget]
  | false =>
    simp [Compile.repeatedTarget, repeatedElement, once, wraps.typed, asked, choice, lift_ok,
      wraps.complex, rowTarget]

/-- Where no rule applies, the wrapped rows decide. -/
theorem Wraps.inferTarget? (wraps : Wraps context.index declaration wrapper child inner)
    (implicit : hasExplicitRule scope.rules site.name true = false) :
    inferTarget? context scope site declaration true =
      some <$> Compile.repeatedTarget context scope site declaration := by
  simp [Compile.inferTarget?, implicit, wraps.isRepeated, lift_ok]

variable {rules : FieldRules} {name : String}

/-- Without rules, there is a relation exactly where a target has been inferred. -/
theorem relation?_of_implicit {target : Target}
    (implicit : hasExplicitRule rules name true = false) :
    relation? context rules name (some target) =
      some (if context.roots.contains target.path then .manyToMany else .oneToMany) := by
  simp only [hasExplicitRule, Bool.or_eq_false_iff] at implicit
  obtain ⟨⟨⟨⟨⟨⟨⟨⟨⟨⟨oneToOne, oneToMany⟩, manyToMany⟩, owned⟩, shared⟩, _⟩, _⟩, _⟩, _⟩, _⟩, _⟩ :=
    implicit
  cases isRoot : context.roots.contains target.path <;>
    simp_all [relation?]

/-- The element becomes the relation to the target that has been inferred. -/
theorem Wraps.classifyElement (wraps : Wraps context.index declaration wrapper child inner)
    (implicit : hasExplicitRule scope.rules site.name true = false) (onward : Onward)
    (bagKey : String) :
    classifyElement context onward scope site bagKey declaration =
      Compile.repeatedTarget context scope site declaration >>=
        addInferred context onward scope site := by
  have given := implicit
  simp only [hasExplicitRule, Bool.or_eq_false_iff, Option.isSome_eq_false_iff,
    Option.isNone_iff_eq_none] at given
  obtain ⟨⟨⟨⟨⟨⟨⟨⟨_, owned⟩, shared⟩, _⟩, _⟩, _⟩, _⟩, _⟩, _⟩ := given
  simp only [Compile.classifyElement, wraps.typed, lift_ok, pure_bind, Option.isSome_some,
    wraps.inferTarget? implicit, map_eq_pure_bind, bind_assoc]
  congr 1
  funext target
  rw [relation?_of_implicit implicit]
  by_cases isRoot : target.path ∈ context.roots
  · simp [addInferred, addRelation, manyTarget, shared, isRoot]
  · simp [addInferred, addRelation, manyTarget, owned, isRoot]

/-- The number of occurrences asks for a relation to the target, without a notice, and the element
becomes that relation. -/
def RelatesTo (context : Context) (onward : Onward) (scope : Scope) (site : Site) (bagKey : String)
    (declaration : Element) (target : Target) : Prop :=
  Compile.inferTarget? context scope site declaration true = pure (some target) ∧
    Compile.classifyElement context onward scope site bagKey declaration =
      addInferred context onward scope site target

/-- A notice does something. -/
theorem notify_ne_pure {α : Type} (notice : Diagnostic) (value other : α) :
    (do notify notice; return value : Walk α) ≠ pure other := by
  intro same
  have ran := congrArg (fun walk => (walk.run default).toOption.map (·.2.notices.length)) same
  cases ran

/-- An element that wraps rows becomes a relation to these rows, many to many if their type is a
root, exactly if the wrapper is no choice. Where it is one, a notice is given and the relation leads
to the wrapper. -/
theorem wrapped_rows_related_iff (onward : Onward) (bagKey : String)
    (implicit : hasExplicitRule scope.rules site.name true = false)
    (wraps : Wraps context.index declaration wrapper child inner) :
    (RelatesTo context onward scope site bagKey declaration (rowTarget scope site child inner) ↔
        wrapper.isChoice = false) ∧
      (wrapper.isChoice = true →
        Compile.classifyElement context onward scope site bagKey declaration = (do
          notify (.assumedUnbounded (scope.memberPath site.dottedPath))
          addInferred context onward scope site (wrapperTarget scope site wrapper))) := by
  have inferred := wraps.inferTarget? implicit
  have classified := wraps.classifyElement implicit onward bagKey
  rw [wraps.repeatedTarget] at inferred classified
  cases choice : wrapper.isChoice with
  | false =>
    rw [choice] at inferred classified
    refine ⟨⟨fun _ => rfl, fun _ => ⟨?_, ?_⟩⟩, nofun⟩
    · simpa using inferred
    · simpa using classified
  | true =>
    rw [choice] at inferred classified
    refine ⟨⟨fun relates => ?_, nofun⟩, fun _ => by simpa using classified⟩
    -- Whatever the target is, the notice makes the difference.
    have same := inferred.symm.trans relates.1
    simp only [if_true, map_bind, map_pure] at same
    exact absurd same (notify_ne_pure _ _ _)

end Wraps

end Compile

open Compile

/-! ## Rows in a sequence and in a choice -/

/-- An owner of a wrapper, which has the rows in a compositor of the kind. -/
def wrappedRows (kind : Schema.Compositor) : Schema.Index :=
  { (default : Schema.Index) with
    complexTypes :=
      [("Owner", wrapping "Owner" .sequence (typedElement "rows" "Rows" .one)),
        ("Row", wrapping "Row" .sequence (typedElement "a" "xs:string" .one)),
        ("Rows", wrapping "Rows" kind (typedElement "row" "Row" .unbounded))] }

/-- A compilation of the schema in which nothing but the owner is known. -/
def rowsContext (kind : Schema.Compositor) : Context :=
  ⟨wrappedRows kind, settingsOf ["Owner"], default, ["Owner"]⟩

theorem wrapped_rows_related_iff_of_wrappedRows :
    let context := rowsContext .sequence
    let scope := Scope.outermost "Owner" "Owner" .plain
    let site : Site := ⟨"rows", "rows", none, false, none⟩
    let rows := typedElement "rows" "Rows" .one
    let row := wrapping "Row" .sequence (typedElement "a" "xs:string" .one)
    hasExplicitRule scope.rules site.name true = false ∧
      Wraps context.index rows (wrapping "Rows" .sequence (typedElement "row" "Row" .unbounded))
        (typedElement "row" "Row" .unbounded) row ∧
      RelatesTo context (onward context 2) scope site "rows" rows ⟨"Row", some row⟩ := by
  intro context scope site rows row
  have implicit : hasExplicitRule scope.rules site.name true = false := by rfl
  have wraps : Wraps context.index rows
      (wrapping "Rows" .sequence (typedElement "row" "Row" .unbounded))
      (typedElement "row" "Row" .unbounded) row :=
    ⟨rfl, elementComplexType_typedElement (by decide +kernel) rfl, rfl, rfl, rfl,
      elementComplexType_typedElement (by decide +kernel) rfl⟩
  exact ⟨implicit, wraps, (wrapped_rows_related_iff (onward context 2) "rows" implicit wraps).1.mpr
    rfl⟩

/-- What the entity of a name refers to, and whether the number of some rows was made up. -/
def Graph.outlook (graph : Graph) (name : String) : List String × Bool :=
  ((graph.entity? name).elim [] (·.materializedFields.filterMap (·.kind.target?)),
    graph.diagnostics.any (·.code == .assumedUnbounded))

/-- In a sequence the owner has the rows themselves. In a choice it has a wrapper, and the rows are
said to be made up. -/
theorem wrapped_rows_lost_in_choice :
    (compile (wrappedRows .sequence) (settingsOf ["Owner"])).toOption.map (·.outlook "Owner") =
        some (["Row"], false) ∧
      (compile (wrappedRows .choice) (settingsOf ["Owner"])).toOption.map (·.outlook "Owner") =
        some (["Rows"], true) := by
  decide +kernel

end EntityGraph
