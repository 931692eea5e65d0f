import EntityGraph.Compile.Merge
import EntityGraph.Proofs.Field
import Mathlib.Data.List.Induction

/-!
# Aliases among merged fields

Of the merged fields of one name the first one stays and the others become its aliases. The names of
those that stay are different, each of them is one of the merged fields, and no name is lost. Every
merged field has one field that stands for it.

A later field of a name is only compared with the first one. So a name is refused exactly if its
first field and some other one have had it from the beginning, whatever the fields between them.
-/
namespace EntityGraph.Compile

theorem addMerged_placed {entity : String} {fields after : List Field} {field : Field}
    (added : addMerged entity fields field = .ok after) :
    Placed fields field after ∧
      (field.isMaterialized = true → field.name ∈ materializedNames after) := by
  have tests (known : Field) : (known.isMaterialized && known.name == field.name) = true ↔
      known.isMaterialized = true ∧ known.name = field.name := by
    simp
  simp only [addMerged] at added
  split at added
  next slot first found =>
    obtain ⟨place, materialized, name⟩ := place_of_findIdx? found tests
    -- The first field of the name stays, so the name is there whatever becomes of this one.
    have taken : field.name ∈ materializedNames fields :=
      mem_materializedNames.mpr ⟨first, List.mem_of_getElem? place, materialized, name⟩
    have both {later : List Field} (placed : Placed fields field later) :
        Placed fields field later ∧
          (field.isMaterialized = true → field.name ∈ materializedNames later) :=
      ⟨placed, fun _ => mem_materializedNames_of_bare (fun _ => placed.keeps) taken⟩
    split at added
    next mark =>
      cases added
      exact ⟨.appended fun materialized => by simp [materialized] at mark,
        fun materialized => by simp [materialized] at mark⟩
    next =>
      split at added
      next => cases added
      next =>
        cases added
        exact both (.aliased place name materialized)
  next missing =>
    cases added
    refine ⟨.appended fun _ => free_of_findIdx? missing tests, fun materialized => ?_⟩
    exact mem_materializedNames.mpr ⟨field, by simp, materialized, rfl⟩

/-- What becomes of the merged fields of an entity. -/
structure Coalesced (fields result : List Field) : Prop where
  nodup : (materializedNames result).Nodup
  sound : ∀ field ∈ result, field.isMaterialized = true →
    ∃ merged ∈ fields, field.bare = merged.bare
  complete : ∀ merged ∈ fields, merged.isMaterialized = true →
    merged.name ∈ materializedNames result

theorem foldlM_addMerged_complete {entity : String} {fields start result : List Field}
    (folded : fields.foldlM (addMerged entity) start = .ok result) :
    (∀ name ∈ materializedNames start, name ∈ materializedNames result) ∧
      ∀ merged ∈ fields, merged.isMaterialized = true → merged.name ∈ materializedNames result := by
  induction fields generalizing start with
  | nil =>
    rw [List.foldlM_nil] at folded
    obtain rfl := Result.pure_eq_ok.mp folded
    exact ⟨fun _ member => member, by simp⟩
  | cons field rest ih =>
    rw [List.foldlM_cons] at folded
    obtain ⟨middle, added, folded⟩ := Result.bind_eq_ok.mp folded
    obtain ⟨placed, there⟩ := addMerged_placed added
    obtain ⟨kept, others⟩ := ih folded
    refine ⟨fun name member =>
        kept name (mem_materializedNames_of_bare (fun _ => placed.keeps) member),
      fun merged member materialized => ?_⟩
    rcases List.mem_cons.mp member with rfl | member
    · exact kept _ (there materialized)
    · exact others merged member materialized

theorem coalesceAliases_coalesced {entity : String} {fields result : List Field}
    (given : coalesceAliases entity fields = .ok result) : Coalesced fields result := by
  refine ⟨?_, ?_, (foldlM_addMerged_complete given).2⟩
  · refine Result.foldlM_induction (fun all => (materializedNames all).Nodup) fields given
      List.nodup_nil fun field _ before after added distinct => ?_
    exact (addMerged_placed added).1.nodup distinct
  · refine Result.foldlM_induction (fun all => ∀ field ∈ all, field.isMaterialized = true →
      ∃ merged ∈ fields, field.bare = merged.bare) fields given (by simp) ?_
    intro field member before after added sound known knownMember materialized
    rcases (addMerged_placed added).1.cases_of_mem knownMember with
      ⟨old, oldMember, same⟩ | rfl | ⟨former, rfl⟩
    · obtain ⟨merged, mergedMember, bare⟩ := sound old oldMember
        ((Field.isMaterialized_of_bare same).symm.trans materialized)
      exact ⟨merged, mergedMember, same.trans bare⟩
    · exact ⟨known, member, rfl⟩
    · exact absurd materialized Bool.false_ne_true

/-! ## One field after another -/

/-- What the aliases leave of a merged field: it stays, but for its documentation, or it becomes an
alias of the first one of its name. -/
inductive StandsFor (merged field : Field) : Prop
  | kept (same : field.bare = merged.bare)
  | pointed {former : String} (materialized : merged.isMaterialized = true)
      (same : field.bare = (aliasOf merged former).bare)

namespace StandsFor

variable {merged field later : Field}

theorem refl (field : Field) : StandsFor field field := .kept rfl

theorem of_bare (stands : StandsFor merged field) (same : later.bare = field.bare) :
    StandsFor merged later := by
  cases stands with
  | kept kept => exact .kept (same.trans kept)
  | pointed materialized pointed => exact .pointed materialized (same.trans pointed)

theorem path (stands : StandsFor merged field) : field.dottedPath = merged.dottedPath := by
  cases stands with
  | kept same => exact (Field.bare_eq_iff.mp same).2.1
  | pointed _ same => exact (Field.bare_eq_iff.mp same).2.1

theorem nullable (stands : StandsFor merged field) : field.nullable = merged.nullable := by
  cases stands with
  | kept same => exact (Field.bare_eq_iff.mp same).2.2.2.1
  | pointed _ same => exact (Field.bare_eq_iff.mp same).2.2.2.1

theorem primaryKey (stands : StandsFor merged field) : field.primaryKey = merged.primaryKey := by
  cases stands with
  | kept same => exact (Field.bare_eq_iff.mp same).2.2.2.2.2.2.2.2.1
  | pointed _ same => exact (Field.bare_eq_iff.mp same).2.2.2.2.2.2.2.2.1

theorem name (stands : StandsFor merged field) :
    field.name = merged.name ∨ field.kind = .coalescedAlias merged.name := by
  cases stands with
  | kept same => exact .inl (Field.bare_eq_iff.mp same).1
  | pointed _ same => exact .inr (Field.bare_eq_iff.mp same).2.2.1

/-- An alias of another field is not materialized. -/
theorem kept_of_isMaterialized (stands : StandsFor merged field)
    (materialized : field.isMaterialized = true) : field.bare = merged.bare := by
  cases stands with
  | kept same => exact same
  | pointed _ same =>
    rw [Field.isMaterialized_of_bare same] at materialized
    exact absurd materialized Bool.false_ne_true

end StandsFor

/-- More documentation for one of the fields changes nothing else. -/
theorem documented {fields : List Field} {slot : Nat} {known : Field}
    (documentation : List String) (place : fields[slot]? = some known) :
    List.Forall₂ (fun old new : Field => new.bare = old.bare) fields
      (fields.set slot { known with documentation }) := by
  refine Pointwise.set (fun field => ?_) place ?_
  · rfl
  · rfl

theorem stand_documented {done fields : List Field} {slot : Nat} {known : Field}
    {documentation : List String} (stand : List.Forall₂ StandsFor done fields)
    (place : fields[slot]? = some known) :
    List.Forall₂ StandsFor done (fields.set slot { known with documentation }) :=
  Pointwise.mono_right (fun _ _ _ stands same => stands.of_bare same) stand
    (documented documentation place)

theorem addMerged_standsFor {entity : String} {done fields after : List Field} {field : Field}
    (stand : List.Forall₂ StandsFor done fields)
    (added : addMerged entity fields field = .ok after) :
    List.Forall₂ StandsFor (done ++ [field]) after := by
  simp only [addMerged] at added
  split at added
  next slot known found =>
    obtain ⟨position, index, found⟩ := Option.bind_eq_some_iff.mp found
    obtain ⟨_, place, same⟩ := Option.map_eq_some_iff.mp found
    cases same
    split at added
    · cases added
      exact List.rel_append stand (.cons (.refl field) .nil)
    next materialized =>
      split at added
      · cases added
      · cases added
        have pointed : StandsFor field
            (aliasOf field (field.coalescedFrom.getD (pathName field.dottedPath))) :=
          .pointed (by simpa using materialized) rfl
        exact List.rel_append (stand_documented stand place) (.cons pointed .nil)
  next =>
    cases added
    exact List.rel_append stand (.cons (.refl field) .nil)

theorem coalesceAliases_standsFor {entity : String} {fields result : List Field}
    (given : coalesceAliases entity fields = .ok result) :
    List.Forall₂ StandsFor fields result := by
  suffices all : ∀ rest done start, List.Forall₂ StandsFor done start →
      rest.foldlM (addMerged entity) start = .ok result →
        List.Forall₂ StandsFor (done ++ rest) result from
    all fields [] [] .nil given
  intro rest
  induction rest with
  | nil =>
    intro done start stand folded
    rw [List.foldlM_nil] at folded
    obtain rfl := Result.pure_eq_ok.mp folded
    rwa [List.append_nil]
  | cons field rest ih =>
    intro done start stand folded
    rw [List.foldlM_cons] at folded
    obtain ⟨middle, added, folded⟩ := Result.bind_eq_ok.mp folded
    have stands := ih (done ++ [field]) middle (addMerged_standsFor stand added) folded
    rwa [List.append_assoc] at stands

/-! ## Names that are refused -/

/-- Whether the field is materialized and has the name. -/
def isNamed (name : String) (field : Field) : Bool := field.isMaterialized && field.name == name

/-- Whether the field is materialized and has had the name from the beginning. -/
def isOwner (name : String) (field : Field) : Bool :=
  isNamed name field && field.coalescedFrom.isNone

/-- Several fields have had the name from the beginning, and the first of all that have it is one of
them. -/
structure IsRefused (fields : List Field) (name : String) : Prop where
  several : 2 ≤ fields.countP (isOwner name)
  first : (fields.find? (isNamed name)).any (isOwner name) = true

/-- What becomes of a field behind others: it stays, or it becomes an alias of the first one of its
name. -/
def aliasedBehind (earlier : List Field) (field : Field) : Field :=
  if field.isMaterialized && earlier.any (isNamed field.name) then
    aliasOf field (field.coalescedFrom.getD (pathName field.dottedPath))
  else field

/-- What becomes of all fields. -/
def aliased (fields : List Field) : List Field :=
  fields.mapIdx fun position field => aliasedBehind (fields.take position) field

theorem isNamed_self {field : Field} :
    isNamed field.name field = field.isMaterialized := by
  simp [isNamed]

/-- Only materialized fields become aliases, and an alias is not materialized. -/
theorem isNamed_aliasedBehind {earlier : List Field} {field : Field} {name : String}
    (free : earlier.any (isNamed name) = false) :
    isNamed name (aliasedBehind earlier field) = isNamed name field := by
  unfold aliasedBehind
  split
  next taken =>
    rw [Bool.and_eq_true] at taken
    have other : field.name ≠ name := by
      rintro rfl
      rw [free] at taken
      exact absurd taken.2 Bool.false_ne_true
    have named : isNamed name field = false := by simp [isNamed, other]
    exact named.symm
  next => rfl

theorem aliased_append (fields : List Field) (field : Field) :
    aliased (fields ++ [field]) = aliased fields ++ [aliasedBehind fields field] := by
  have before : fields.mapIdx (fun position other =>
      aliasedBehind ((fields ++ [field]).take position) other) = aliased fields := by
    refine List.mapIdx_eq_mapIdx_iff.mpr fun position bound => ?_
    rw [List.take_append_of_le_length (Nat.le_of_lt bound)]
  simp only [aliased] at before ⊢
  rw [List.mapIdx_concat, before, List.take_left]

/-- The first materialized field of a name keeps its place. -/
theorem find?_aliased (fields : List Field) (name : String) :
    (aliased fields).find? (isNamed name) = fields.find? (isNamed name) := by
  induction fields using List.reverseRecOn with
  | nil => rfl
  | append_singleton fields field ih =>
    rw [aliased_append, List.find?_append, List.find?_append, ih]
    cases found : fields.find? (isNamed name) with
    | some first => rfl
    | none =>
      -- No field before has the name, so this one stays if it has it.
      have free : fields.any (isNamed name) = false := by
        simpa [List.any_eq_false] using List.find?_eq_none.mp found
      have same : isNamed name (aliasedBehind fields field) = isNamed name field :=
        isNamed_aliasedBehind free
      by_cases named : isNamed name field = true
      · have name_eq : field.name = name := beq_iff_eq.mp (Bool.and_eq_true_iff.mp named).2
        have stays : aliasedBehind fields field = field := by
          simp [aliasedBehind, name_eq, free]
        rw [stays]
      · simp [same, named]

/-- Documentation aside, what is found by a name is the same. -/
theorem find?_isNamed_of_bare {fields others : List Field} (name : String)
    (same : fields.map Field.bare = others.map Field.bare) :
    (fields.find? (isNamed name)).map Field.bare =
      (others.find? (isNamed name)).map Field.bare := by
  have undocumented : isNamed name ∘ Field.bare = isNamed name := rfl
  have found := congrArg (List.find? (isNamed name)) same
  rwa [List.find?_map, List.find?_map, undocumented] at found

/-- The field has had its name from the beginning, and so has the first one of the name. -/
def Intrudes (fields : List Field) (field : Field) : Prop :=
  isOwner field.name field = true ∧
    (fields.find? (isNamed field.name)).any (isOwner field.name) = true

/-- A field that intrudes is refused, and every other one is placed behind the others. -/
theorem addMerged_cases (entity : String) (fields : List Field) (field : Field) :
    (Intrudes fields field ∧
      addMerged entity fields field = .error (.duplicateField entity field.name)) ∨
    (¬Intrudes fields field ∧ ∃ after, addMerged entity fields field = .ok after ∧
      after.map Field.bare = (fields ++ [aliasedBehind fields field]).map Field.bare) := by
  simp only [addMerged]
  split
  next slot first looked =>
    have firstNamed : fields.find? (isNamed field.name) = some first := find?_of_findIdx? looked
    have named := List.find?_some firstNamed
    have tests (known : Field) : (known.isMaterialized && known.name == field.name) = true ↔
        known.isMaterialized = true ∧ known.name = field.name := by
      simp
    have here := (place_of_findIdx? looked tests).1
    have taken : fields.any (isNamed field.name) = true :=
      List.any_eq_true.mpr ⟨first, List.mem_of_find?_eq_some firstNamed, named⟩
    have intrudes_iff : Intrudes fields field ↔ field.isMaterialized = true ∧
        field.coalescedFrom.isNone = true ∧ first.coalescedFrom.isNone = true := by
      simp [Intrudes, isOwner, isNamed_self, firstNamed, named, and_assoc]
    split
    next mark =>
      right
      have mark : field.isMaterialized = false := by simpa using mark
      constructor
      · simp [intrudes_iff, mark]
      · exact ⟨_, rfl, by simp [aliasedBehind, mark]⟩
    next materialized =>
      have materialized : field.isMaterialized = true := by simpa using materialized
      split
      next plain =>
        left
        exact ⟨intrudes_iff.mpr ⟨materialized, Bool.and_eq_true_iff.mp plain⟩, rfl⟩
      next coalesced =>
        right
        constructor
        · intro intrudes
          apply coalesced
          rw [Bool.and_eq_true]
          exact (intrudes_iff.mp intrudes).2
        · refine ⟨_, rfl, ?_⟩
          -- The first field of the name gets more documentation, which is all that happens to it.
          have same := Pointwise.map_eq (fun _ _ same => same) (documented
            (Text.Documentation.squeeze (first.documentation ++ field.documentation)) here)
          rw [List.map_append, List.map_append, same]
          simp [aliasedBehind, materialized, taken, aliasOf]
  next missing =>
    right
    have free : fields.find? (isNamed field.name) = none := find?_of_findIdx? missing
    constructor
    · simp [Intrudes, free]
    · have unnamed : fields.any (isNamed field.name) = false := by
        simpa [List.any_eq_false] using List.find?_eq_none.mp free
      exact ⟨_, rfl, by simp [aliasedBehind, unnamed]⟩

/-- The first field of a name stays the first one, whatever comes behind it. -/
theorem leads_append {fields : List Field} {name : String}
    (leads : (fields.find? (isNamed name)).any (isOwner name) = true) (more : List Field) :
    ((fields ++ more).find? (isNamed name)).any (isOwner name) = true := by
  obtain ⟨first, found, owner⟩ := (Option.any_eq_true _ _).mp leads
  rw [List.find?_append, found]
  exact owner

/-- A name is refused among more fields if it is refused before, or the last one intrudes. -/
theorem isRefused_append {fields : List Field} {field : Field} {name : String} :
    IsRefused (fields ++ [field]) name ↔
      IsRefused fields name ∨ (field.name = name ∧ Intrudes fields field) := by
  constructor
  · rintro ⟨several, first⟩
    rw [List.countP_append] at several
    cases found : fields.find? (isNamed name) with
    | none =>
      -- No field before has the name, so this one is the only one.
      have none : fields.countP (isOwner name) = 0 := by
        refine List.countP_eq_zero.mpr fun known member owner => ?_
        exact List.find?_eq_none.mp found known member (Bool.and_eq_true_iff.mp owner).1
      have single : [field].countP (isOwner name) ≤ 1 := List.countP_le_length
      omega
    | some leader =>
      rw [List.find?_append, found] at first
      by_cases owner : isOwner name field = true
      · have name_eq : field.name = name :=
          beq_iff_eq.mp (Bool.and_eq_true_iff.mp (Bool.and_eq_true_iff.mp owner).1).2
        subst name_eq
        exact .inr ⟨rfl, owner, found ▸ first⟩
      · have alone : [field].countP (isOwner name) = 0 := by simpa using owner
        refine .inl ⟨by omega, ?_⟩
        rw [found]
        exact first
  · rintro (⟨several, first⟩ | ⟨rfl, owner, first⟩)
    · constructor
      · rw [List.countP_append]
        omega
      · exact leads_append first [field]
    · obtain ⟨leader, found, leads⟩ := (Option.any_eq_true _ _).mp first
      have before : 0 < fields.countP (isOwner field.name) :=
        List.countP_pos_iff.mpr ⟨leader, List.mem_of_find?_eq_some found, leads⟩
      have last : [field].countP (isOwner field.name) = 1 := by simpa using owner
      constructor
      · rw [List.countP_append]
        omega
      · exact leads_append first [field]

theorem coalesceAliases_append (entity : String) (fields : List Field) (field : Field) :
    coalesceAliases entity (fields ++ [field]) =
      coalesceAliases entity fields >>= fun start => addMerged entity start field := by
  simp [coalesceAliases]

/-- What the fields look like, but for their documentation, says which ones intrude. -/
theorem intrudes_of_bare {fields others : List Field} {field : Field}
    (same : fields.map Field.bare = others.map Field.bare) :
    Intrudes fields field ↔ Intrudes others field := by
  have found := find?_isNamed_of_bare field.name same
  have undocumented (known : Option Field) :
      (known.map Field.bare).any (isOwner field.name) = known.any (isOwner field.name) := by
    cases known <;> rfl
  unfold Intrudes
  rw [← undocumented, found, undocumented]

theorem aliasedBehind_of_bare {fields others : List Field} {field : Field}
    (same : fields.map Field.bare = others.map Field.bare) :
    aliasedBehind fields field = aliasedBehind others field := by
  have undocumented (known : List Field) :
      (known.map Field.bare).any (isNamed field.name) = known.any (isNamed field.name) := by
    rw [List.any_map]
    rfl
  unfold aliasedBehind
  rw [← undocumented, same, undocumented]

/-- Putting fields in place before does not change which ones intrude. -/
theorem intrudes_aliased {fields : List Field} {field : Field} :
    Intrudes (aliased fields) field ↔ Intrudes fields field := by
  unfold Intrudes
  rw [find?_aliased]

theorem aliasedBehind_aliased (fields : List Field) (field : Field) :
    aliasedBehind (aliased fields) field = aliasedBehind fields field := by
  have taken : (aliased fields).any (isNamed field.name) = fields.any (isNamed field.name) := by
    rw [← List.isSome_find?, ← List.isSome_find?, find?_aliased]
  unfold aliasedBehind
  rw [taken]

/-- Either some name is refused, or every field finds its place behind the others. -/
theorem coalesceAliases_cases (entity : String) (fields : List Field) :
    (∃ name, IsRefused fields name ∧
      coalesceAliases entity fields = .error (.duplicateField entity name)) ∨
    ((∀ name, ¬IsRefused fields name) ∧ ∃ result, coalesceAliases entity fields = .ok result ∧
      result.map Field.bare = (aliased fields).map Field.bare) := by
  induction fields using List.reverseRecOn with
  | nil =>
    right
    constructor
    · rintro name ⟨several, _⟩
      exact absurd several (by simp)
    · exact ⟨[], rfl, rfl⟩
  | append_singleton fields field ih =>
    rw [coalesceAliases_append]
    rcases ih with ⟨name, refused, failed⟩ | ⟨free, start, succeeded, same⟩
    · left
      exact ⟨name, isRefused_append.mpr (.inl refused), by rw [failed]; rfl⟩
    · rw [succeeded, Result.ok_bind]
      have intrudes_iff : Intrudes start field ↔ Intrudes fields field :=
        (intrudes_of_bare same).trans intrudes_aliased
      rcases addMerged_cases entity start field with
        ⟨intrudes, failed⟩ | ⟨fits, after, added, shape⟩
      · left
        exact ⟨field.name, isRefused_append.mpr (.inr ⟨rfl, intrudes_iff.mp intrudes⟩), failed⟩
      · right
        constructor
        · intro name refused
          rcases isRefused_append.mp refused with before | ⟨_, intrudes⟩
          · exact free name before
          · exact fits (intrudes_iff.mpr intrudes)
        · refine ⟨after, added, ?_⟩
          rw [shape, aliasedBehind_of_bare same, aliasedBehind_aliased, aliased_append,
            List.map_append, List.map_append, same]

/-- Coalescing fails exactly if a name is refused, and with an error that says so. Otherwise the
first materialized field of each name stays as it is, but for its documentation, and every later one
becomes an alias of it. -/
theorem coalesceAliases_fails_iff (entity : String) (fields : List Field) :
    ((∃ failure, coalesceAliases entity fields = .error failure) ↔
      ∃ name, IsRefused fields name) ∧
    (∀ failure, coalesceAliases entity fields = .error failure →
      ∃ name, IsRefused fields name ∧ failure = .duplicateField entity name) ∧
    ∀ result, coalesceAliases entity fields = .ok result →
      result.map Field.bare = (aliased fields).map Field.bare := by
  rcases coalesceAliases_cases entity fields with
    ⟨name, refused, failed⟩ | ⟨free, kept, succeeded, same⟩
  · rw [failed]
    refine ⟨⟨fun _ => ⟨name, refused⟩, fun _ => ⟨_, rfl⟩⟩, fun failure given => ?_, nofun⟩
    exact ⟨name, refused, (Except.error.inj given).symm⟩
  · rw [succeeded]
    refine ⟨⟨nofun, ?_⟩, nofun, fun result given => ?_⟩
    · rintro ⟨name, refused⟩
      exact absurd refused (free name)
    · rwa [← Except.ok.inj given]

/-- Two fields that have had one name from the beginning are refused, or become aliases without a
word, whether or not a third one, which was made equal to them, comes after the first. The order is
that of the types. -/
theorem coalescing_depends_on_order :
    let column (path : String) : Field := .ofKind "x_y" path (.toOne "Unit" false .protect none)
    let shared : Field := { column "code" with coalescedFrom := some "code" }
    let row (path : String) (field : Field) : Entity :=
      { Entity.ofTypePath "Row" path with fields := [field] }
    let seen (fields : List Field) := fields.map fun field => (field.name, field.isMaterialized)
    let outcome := [("x_y", true), ("x_y", false), ("_x_y", false)]
    (coalesceAliases "Row" [shared, column "x_y", column "@x_y"]).toOption.map seen =
      some outcome ∧
    (coalesceAliases "Row" [column "x_y", shared, column "@x_y"]).failure? =
      some (.duplicateField "Row" "x_y") ∧
    (mergeGroup default (row "A" shared) [row "B" (column "x_y"), row "C" (column "@x_y")]
      []).toOption.map (seen ·.1.fields) = some outcome ∧
    (mergeGroup default (row "A" (column "x_y")) [row "B" shared, row "C" (column "@x_y")]
      []).failure? = some (.duplicateField "Row" "x_y") ∧
    ¬∀ entity fields,
      (∃ name, coalesceAliases entity fields = .error (.duplicateField entity name)) ↔
        ∃ name, 2 ≤ fields.countP (isOwner name) := by
  intro column shared row seen outcome
  have accepted : (coalesceAliases "Row" [shared, column "x_y", column "@x_y"]).toOption.map seen =
      some outcome := by decide
  refine ⟨accepted, by decide, by decide, by decide, fun claimed => ?_⟩
  obtain ⟨name, failed⟩ := (claimed "Row" [shared, column "x_y", column "@x_y"]).mpr
    ⟨"x_y", by decide⟩
  rw [failed] at accepted
  cases accepted

end EntityGraph.Compile
