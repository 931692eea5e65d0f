import EntityGraph.Proofs.Merge.Growth
import EntityGraph.Proofs.Merge.Signatures
import EntityGraph.Proofs.Result

/-!
# Adopting a parent

An entity that adopts a parent gives up the fields that an ancestor has under the same name and
path, and no others. The field of the ancestor compares equal to the one that has been given up, or
both are bags and it has taken in the entries, unless the rules of the ancestor tolerate the
difference. The ancestors are the entities that the parent links lead to, and stay so while entities
grow.
-/
open Relation (ReflTransGen)

namespace EntityGraph.Compile

/-! ## Lineages -/

/-- The position is that of the start of a lineage, or of one of its ancestors. -/
def OnLineage (entities : List Entity) (start : String) (position : Nat) : Prop :=
  ∃ ancestor, entities[position]? = some ancestor ∧
    ReflTransGen (HasParent entities) start ancestor.name

theorem lineage_grown {entities later : List Entity} (grown : Grown entities later)
    {start name : String} (lineage : ReflTransGen (HasParent entities) start name) :
    ReflTransGen (HasParent later) start name :=
  lineage.lift id fun _ _ link => link.grown grown

theorem OnLineage.grown {entities later : List Entity} (grown : Grown entities later)
    {start : String} {position : Nat} (on : OnLineage entities start position) :
    OnLineage later start position := by
  obtain ⟨ancestor, place, lineage⟩ := on
  obtain ⟨other, otherPlace, step⟩ := Pointwise.getElem?_right grown place
  exact ⟨other, otherPlace, step.name ▸ lineage_grown grown lineage⟩

theorem ancestry_onLineage {merged : List Entity} {missing : String → Error} {start : String}
    (steps : Nat) {lineage result : List Nat} {name : String}
    (given : ancestry merged missing steps lineage name = .ok result)
    (known : ∀ position ∈ lineage, OnLineage merged start position)
    (reached : ReflTransGen (HasParent merged) start name) :
    ∀ position ∈ result, OnLineage merged start position := by
  induction steps generalizing lineage name with
  | zero =>
    cases given
    exact known
  | succ steps ih =>
    simp only [ancestry] at given
    split at given
    next => cases given
    next position index =>
      obtain ⟨bound, holds, _⟩ := List.findIdx?_eq_some_iff_getElem.mp index
      have place : merged[position]? = some merged[position] := List.getElem?_eq_getElem bound
      have named : merged[position].name = name := by simpa using holds
      -- The walk goes on from an entity that the links lead to.
      have extended : ∀ other ∈ lineage ++ [position], OnLineage merged start other := by
        intro other member
        rcases List.mem_append.mp member with old | new
        · exact known other old
        · exact List.mem_singleton.mp new ▸ ⟨_, place, named ▸ reached⟩
      split at given
      next =>
        cases given
        exact known
      next =>
        split at given
        next parent has =>
          rw [place, Option.bind_some] at has
          exact ih given extended
            (reached.tail ⟨_, List.getElem_mem bound, named, has⟩)
        next =>
          cases given
          exact extended

/-! ## Fields that ancestors have -/

/-- A field of an ancestor has all that the field of an entity has: they compare equal, or both are
bags and no path is missing. -/
inductive Matches (field known : Field) : Prop
  | same (signature : signature known = signature field)
      (noBag : ∀ entries, known.kind ≠ .jsonBag entries)
  | bag {entries : Bag} (kind : field.kind = .jsonBag entries)
      (holds : ∃ more, known.kind = .jsonBag more ∧ ∀ path ∈ entries.names, path ∈ more.names)

theorem Matches.category {field known : Field} (matches_ : Matches field known) :
    known.kind.category = field.kind.category := by
  cases matches_ with
  | same signature _ => exact category_eq_of_signature signature
  | bag kind holds =>
    obtain ⟨more, knownKind, _⟩ := holds
    rw [kind, knownKind]
    rfl

theorem Matches.grown {field known later : Field} (matches_ : Matches field known)
    (grown : GrownField known later) : Matches field later := by
  cases matches_ with
  | same signature noBag =>
    cases grown with
    | same => exact .same signature noBag
    | bag kind _ => exact absurd kind (noBag _)
  | bag kind holds =>
    obtain ⟨more, knownKind, all⟩ := holds
    rcases grown.bag_cases with same | ⟨known, last, oldKind, laterKind, keeps⟩
    · exact .bag kind ⟨more, same.trans knownKind, all⟩
    · obtain rfl : known = more := FieldKind.jsonBag.inj (oldKind.symm.trans knownKind)
      exact .bag kind ⟨last, laterKind, fun path there => keeps path (all path there)⟩

/-- The start of a lineage or one of its ancestors has a field of the same name and path, and it
matches, unless a difference is tolerated. -/
def Covered (book : RuleBook) (entities : List Entity) (start : String) (field : Field) : Prop :=
  ∃ ancestor ∈ entities, ReflTransGen (HasParent entities) start ancestor.name ∧
    ∃ known ∈ ancestor.fields, known.name = field.name ∧ known.dottedPath = field.dottedPath ∧
      (Matches field known ∨ Tolerates book ancestor field.dottedPath)

theorem Covered.grown {book : RuleBook} {entities later : List Entity}
    (grown : Grown entities later) {start : String} {field : Field}
    (covered : Covered book entities start field) : Covered book later start field := by
  obtain ⟨ancestor, member, lineage, known, knownMember, name, path, compared⟩ := covered
  obtain ⟨other, otherMember, step⟩ := Pointwise.exists_right grown member
  obtain ⟨grownField, grownMember, grownStep⟩ := step.exists_later knownMember
  refine ⟨other, otherMember, step.name ▸ lineage_grown grown lineage, grownField, grownMember,
    grownStep.name.trans name, grownStep.dottedPath.trans path, ?_⟩
  rcases compared with matches_ | tolerates
  · exact .inl (matches_.grown grownStep)
  · exact .inr (tolerates.of_same step.name step.sourceTypes)

theorem Covered.append {book : RuleBook} {entities : List Entity} (more : List Entity)
    {start : String} {field : Field} (covered : Covered book entities start field) :
    Covered book (entities ++ more) start field := by
  obtain ⟨ancestor, member, lineage, rest⟩ := covered
  exact ⟨ancestor, List.mem_append_left _ member,
    lineage.lift id fun _ _ link => link.append more, rest⟩

theorem inherited?_some {merged : List Entity} {lineage : List Nat} {field found : Field}
    {start : String} (known : ∀ position ∈ lineage, OnLineage merged start position)
    {position slot : Nat} {ancestor : Entity}
    (inherits : inherited? merged lineage field = some (position, ancestor, slot, found)) :
    merged[position]? = some ancestor ∧ ancestor.fields[slot]? = some found ∧
      ReflTransGen (HasParent merged) start ancestor.name ∧
      found.name = field.name ∧ found.dottedPath = field.dottedPath := by
  obtain ⟨at_, member, looked⟩ := List.exists_of_findSome?_eq_some inherits
  obtain ⟨entity, place, looked⟩ := Option.bind_eq_some_iff.mp looked
  obtain ⟨index, indexed, looked⟩ := Option.bind_eq_some_iff.mp looked
  obtain ⟨known_, slotPlace, looked⟩ := Option.bind_eq_some_iff.mp looked
  cases looked
  obtain ⟨bound, holds, _⟩ := List.findIdx?_eq_some_iff_getElem.mp indexed
  obtain ⟨_, rfl⟩ := List.getElem?_eq_some_iff.mp slotPlace
  simp only [hasIdentity, Bool.and_eq_true, beq_iff_eq] at holds
  obtain ⟨other, otherPlace, reached⟩ := known position member
  obtain rfl : ancestor = other := Option.some.inj (place.symm.trans otherPlace)
  exact ⟨place, slotPlace, reached, holds⟩

/-! ## Adoption -/

theorem adoptField_spec {book : RuleBook} {name memberType start : String} {lineage : List Nat}
    {kept later : List Field} {merged grown : List Entity} {field : Field}
    (known : ∀ position ∈ lineage, OnLineage merged start position)
    (given : adoptField book name memberType lineage (kept, merged) field = .ok (later, grown)) :
    Grown merged grown ∧ (later = kept ++ [field] ∨
      later = kept ∧ Covered book grown start field) := by
  simp only [adoptField] at given
  split at given
  next =>
    cases given
    exact ⟨.refl merged, .inl rfl⟩
  next position ancestor slot found inherits =>
    obtain ⟨place, slotPlace, reached, name, path⟩ := inherited?_some known inherits
    have covered (compared : Matches field found ∨ Tolerates book ancestor field.dottedPath) :
        Covered book merged start field :=
      ⟨ancestor, List.mem_of_getElem? place, reached, found, List.mem_of_getElem? slotPlace, name,
        path, compared⟩
    split at given
    next joined join =>
      cases given
      -- The bag of the ancestor takes in the entries.
      let widened := { ancestor with fields := ancestor.fields.set slot joined }
      have grows : Grown merged (merged.modify position fun entity =>
          { entity with fields := entity.fields.set slot joined }) :=
        .modify place (GrownEntity.set_joined slotPlace join)
      have inGrown : widened ∈ merged.modify position fun entity =>
          { entity with fields := entity.fields.set slot joined } :=
        List.mem_iff_getElem?.mpr ⟨position, by simp [place, widened]⟩
      obtain ⟨slotBound, _⟩ := List.getElem?_eq_some_iff.mp slotPlace
      obtain ⟨entries, more, foundKind, kind, rfl⟩ := bags_of_joinBags? join
      refine ⟨grows, .inr ⟨rfl, widened, inGrown, lineage_grown grows reached, _,
        List.mem_set slotBound _, name, path, .inl (.bag kind ⟨_, rfl, ?_⟩)⟩⟩
      exact fun path there => Bag.mem_names_merge.mpr (.inr there)
    next apart =>
      split at given
      next same =>
        cases given
        refine ⟨.refl merged, .inr ⟨rfl, covered (.inl (.same same fun entries bag => ?_))⟩⟩
        have category := category_eq_of_signature same
        cases other : field.kind with
        | jsonBag more => exact not_bags_of_joinBags? apart bag other
        | _ => simp [FieldKind.category, bag, other] at category
      next =>
        obtain ⟨rules, read, given⟩ := Result.bind_eq_ok.mp given
        split at given
        next tolerated =>
          cases given
          exact ⟨.refl merged, .inr ⟨rfl, covered (.inr ⟨rules, read, tolerated⟩)⟩⟩
        next => cases given

/-- A member of a group before and after the group has agreed on a parent: it has lost no field but
those that the parent or an ancestor of it has, and none if it had a parent. Looking up a name and
path finds the same field as long as it has not been lost. -/
structure Adopted (book : RuleBook) (entities : List Entity) (parent : Option String)
    (member adopted : Entity) : Prop where
  name : adopted.name = member.name
  sourceTypes : adopted.sourceTypes = member.sourceTypes
  fields : ∀ field ∈ adopted.fields, field ∈ member.fields
  kept : ∀ field ∈ member.fields, field ∈ adopted.fields ∨
    ∃ start, parent = some start ∧ Covered book entities start field
  looked : ∀ name dottedPath field, member.fieldAt? name dottedPath = some field →
    adopted.fieldAt? name dottedPath = some field ∨
      ∃ start, parent = some start ∧ Covered book entities start field
  parented : member.parent.isSome = true → adopted = member

namespace Adopted

variable {book : RuleBook} {entities later : List Entity} {parent : Option String}
  {member adopted : Entity}

theorem refl (book : RuleBook) (entities : List Entity) (parent : Option String)
    (member : Entity) : Adopted book entities parent member member :=
  ⟨rfl, rfl, fun _ fieldMember => fieldMember, fun _ fieldMember => .inl fieldMember,
    fun _ _ _ found => .inl found, fun _ => rfl⟩

theorem mono (lost : Adopted book entities parent member adopted)
    (covers : ∀ start field, Covered book entities start field → Covered book later start field) :
    Adopted book later parent member adopted := by
  refine ⟨lost.name, lost.sourceTypes, lost.fields, fun field fieldMember => ?_,
    fun name dottedPath field found => ?_, lost.parented⟩
  · rcases lost.kept field fieldMember with kept | ⟨start, same, covered⟩
    · exact .inl kept
    · exact .inr ⟨start, same, covers _ _ covered⟩
  · rcases lost.looked name dottedPath field found with kept | ⟨start, same, covered⟩
    · exact .inl kept
    · exact .inr ⟨start, same, covers _ _ covered⟩

end Adopted

/-- What has become of fields: they stay in their order behind those before, or they are covered. -/
structure Sifted (book : RuleBook) (entities : List Entity) (start : String)
    (kept fields later : List Field) : Prop where
  begins : kept <+: later
  sound : ∀ field ∈ later, field ∈ kept ∨ field ∈ fields
  complete : ∀ field ∈ fields, field ∈ later ∨ Covered book entities start field
  looked : ∀ (test : Field → Bool) field, kept.find? test = none → fields.find? test = some field →
    later.find? test = some field ∨ Covered book entities start field

/-- Going through fields, each of which stays or is covered. -/
theorem foldlM_adoptField {book : RuleBook} {name memberType start : String} {lineage : List Nat}
    {fields kept later : List Field} {merged grown : List Entity}
    (known : ∀ position ∈ lineage, OnLineage merged start position)
    (given : fields.foldlM (adoptField book name memberType lineage) (kept, merged) =
      .ok (later, grown)) :
    Grown merged grown ∧ Sifted book grown start kept fields later := by
  induction fields generalizing kept merged with
  | nil =>
    cases given
    exact ⟨.refl _, List.prefix_refl _, fun _ member => .inl member, by simp, by simp⟩
  | cons field rest ih =>
    rw [List.foldlM_cons] at given
    obtain ⟨⟨middle, middleMerged⟩, stepped, given⟩ := Result.bind_eq_ok.mp given
    obtain ⟨growsFirst, placed⟩ := adoptField_spec known stepped
    obtain ⟨grows, sifted⟩ :=
      ih (fun position member => (known position member).grown growsFirst) given
    refine ⟨growsFirst.trans grows, ?_⟩
    -- The field has been kept behind the others, or left to an ancestor.
    rcases placed with rfl | ⟨rfl, covered⟩
    · have stays : field ∈ later := sifted.begins.subset (by simp)
      refine ⟨(List.prefix_append _ _).trans sifted.begins, fun other member => ?_,
        fun other member => ?_, fun test other free found => ?_⟩
      · rcases sifted.sound other member with inMiddle | inRest
        · simp only [List.mem_append, List.mem_singleton] at inMiddle
          rcases inMiddle with inKept | rfl
          · exact .inl inKept
          · exact .inr List.mem_cons_self
        · exact .inr (List.mem_cons_of_mem _ inRest)
      · rcases List.mem_cons.mp member with rfl | inRest
        · exact .inl stays
        · exact sifted.complete other inRest
      · rw [List.find?_cons] at found
        split at found
        next passes =>
          obtain rfl := Option.some.inj found
          obtain ⟨more, rfl⟩ := sifted.begins
          exact .inl (by simp [free, passes])
        next fails => exact sifted.looked test other (by simp [free, fails]) found
    · have coveredLater := covered.grown grows
      refine ⟨sifted.begins, fun other member => ?_, fun other member => ?_,
        fun test other free found => ?_⟩
      · rcases sifted.sound other member with inKept | inRest
        · exact .inl inKept
        · exact .inr (List.mem_cons_of_mem _ inRest)
      · rcases List.mem_cons.mp member with rfl | inRest
        · exact .inr coveredLater
        · exact sifted.complete other inRest
      · rw [List.find?_cons] at found
        split at found
        · obtain rfl := Option.some.inj found
          exact .inr coveredLater
        · exact sifted.looked test other free found

theorem adopt_spec {book : RuleBook} {name parent : String} {lineage : List Nat}
    {members later merged grown : List Entity} {member : Entity}
    (known : ∀ position ∈ lineage, OnLineage merged parent position)
    (given : adopt book name parent lineage (members, merged) member = .ok (later, grown)) :
    Grown merged grown ∧
      ∃ adopted, later = members ++ [adopted] ∧
        Adopted book grown (some parent) member adopted := by
  simp only [adopt] at given
  split at given
  next =>
    cases given
    exact ⟨.refl merged, member, rfl, .refl _ _ _ _⟩
  next orphan =>
    obtain ⟨⟨kept, after⟩, folded, given⟩ := Result.bind_eq_ok.mp given
    cases given
    obtain ⟨grows, sifted⟩ := foldlM_adoptField known folded
    refine ⟨grows, _, rfl, rfl, rfl, fun field fieldMember => ?_, fun field fieldMember => ?_,
      fun name dottedPath field found => ?_, fun has => absurd has orphan⟩
    · rcases sifted.sound field fieldMember with none | some
      · cases none
      · exact some
    · rcases sifted.complete field fieldMember with stays | covered
      · exact .inl stays
      · exact .inr ⟨parent, rfl, covered⟩
    · rcases sifted.looked _ field rfl found with stays | covered
      · exact .inl stays
      · exact .inr ⟨parent, rfl, covered⟩

theorem foldlM_adopt {book : RuleBook} {name parent : String} {lineage : List Nat}
    {items members later merged grown : List Entity}
    (known : ∀ position ∈ lineage, OnLineage merged parent position)
    (given : items.foldlM (adopt book name parent lineage) (members, merged) = .ok (later, grown)) :
    Grown merged grown ∧
      ∃ adopted, later = members ++ adopted ∧
        List.Forall₂ (Adopted book grown (some parent)) items adopted := by
  induction items generalizing members merged with
  | nil =>
    cases given
    exact ⟨.refl _, [], by simp, .nil⟩
  | cons item rest ih =>
    rw [List.foldlM_cons] at given
    obtain ⟨⟨middle, middleMerged⟩, stepped, given⟩ := Result.bind_eq_ok.mp given
    obtain ⟨growsFirst, first, rfl, adoptedFirst⟩ := adopt_spec known stepped
    obtain ⟨grows, others, rfl, adoptedOthers⟩ :=
      ih (fun position member => (known position member).grown growsFirst) given
    refine ⟨growsFirst.trans grows, first :: others, by simp, .cons ?_ adoptedOthers⟩
    exact adoptedFirst.mono fun _ _ covered => covered.grown grows

/-- Agreeing on a parent changes the members by adoption only, and the merged entities by growth
only. -/
theorem mergeParents_spec {book : RuleBook} {name : String}
    {members later merged grown : List Entity} {parent : Option String}
    (given : mergeParents book name members merged = .ok (parent, later, grown)) :
    Grown merged grown ∧ List.Forall₂ (Adopted book grown parent) members later := by
  have unchanged : List.Forall₂ (Adopted book merged parent) members members :=
    List.forall₂_same.mpr fun member _ => .refl _ _ _ member
  simp only [mergeParents] at given
  split at given
  next =>
    cases given
    exact ⟨.refl merged, unchanged⟩
  next ancestor _ =>
    split at given
    next =>
      cases given
      exact ⟨.refl merged, unchanged⟩
    next =>
      obtain ⟨lineage, lineageGiven, given⟩ := Result.bind_eq_ok.mp given
      obtain ⟨⟨adopted, after⟩, folded, given⟩ := Result.bind_eq_ok.mp given
      cases given
      have known := ancestry_onLineage (merged.length + 1) lineageGiven (by simp) .refl
      obtain ⟨grows, adoptedItems, rfl, all⟩ := foldlM_adopt known folded
      exact ⟨grows, all⟩
  next => cases given

/-- The parent on which the members agree is that of one of them. -/
theorem mergeParents_parent {book : RuleBook} {name : String}
    {members later merged grown : List Entity} {parent : Option String}
    (given : mergeParents book name members merged = .ok (parent, later, grown)) {ancestor : String}
    (has : parent = some ancestor) : ∃ member ∈ members, member.parent = some ancestor := by
  simp only [mergeParents] at given
  split at given
  next =>
    cases given
    cases has
  next only same =>
    have common : parent = some only := by
      split at given
      · cases given
        rfl
      · obtain ⟨_, _, given⟩ := Result.bind_eq_ok.mp given
        obtain ⟨_, _, given⟩ := Result.bind_eq_ok.mp given
        cases given
        rfl
    obtain rfl : only = ancestor := Option.some.inj (common.symm.trans has)
    have member : only ∈ Text.sortDistinct (members.filterMap (·.parent)) := by
      rw [same]
      exact List.mem_singleton_self only
    exact List.mem_filterMap.mp (mem_sortDistinct.mp member)
  next => cases given

end EntityGraph.Compile
