import EntityGraph.Compile.Merge
import EntityGraph.Proofs.Merge.Bags
import EntityGraph.Proofs.Options
import EntityGraph.Proofs.Table

/-!
# Signatures of fields

Merging compares fields by the text of their JSON form. The entries stand in key order there, and
`category` is the first of all keys that are compared, so the text begins with the category of the
field: two fields with the same signature are of the same category, and both or neither of them
lead to many values.

The paths for which a merge tolerates a difference come from the options of an entity, under those
of its overlays and over those of all entities. If none of them names such a path, then no entity
tolerates a difference.
-/
namespace EntityGraph

/-! ## The entries of a field -/

section Entries

variable {α : Type} {Holds : String → Prop} {key : String}

theorem forall_flagEntry (holds : Holds key) (value : Bool) :
    ∀ entry ∈ flagEntry key value, Holds entry.1 := by
  cases value <;> simp [flagEntry, holds]

theorem forall_optionalEntry (holds : Holds key) (encode : α → Json) (value : Option α) :
    ∀ entry ∈ optionalEntry key encode value, Holds entry.1 := by
  cases value <;> simp [optionalEntry, holds]

theorem forall_listEntry (holds : Holds key) (encode : α → Json) (values : List α) :
    ∀ entry ∈ listEntry key encode values, Holds entry.1 := by
  cases values <;> simp [listEntry, holds]

theorem forall_singleEntry (holds : Holds key) (value : Json) :
    ∀ entry ∈ [(key, value)], Holds entry.1 := by
  simp [holds]

end Entries

/-- The keys of a scalar. -/
def ScalarRepr.keys : List String :=
  ["kind", "source_type", "max_length", "max_digits", "decimal_places", "choices", "validators",
    "not_blank", "default"]

theorem ScalarRepr.key_mem (repr : ScalarRepr) : ∀ entry ∈ repr.entries, entry.1 ∈ keys := by
  simp only [entries, List.forall_mem_append]
  refine ⟨⟨⟨⟨⟨⟨⟨⟨?_, ?_⟩, ?_⟩, ?_⟩, ?_⟩, ?_⟩, ?_⟩, ?_⟩, ?_⟩
  · exact forall_singleEntry (by decide) _
  · exact forall_optionalEntry (by decide) _ _
  · exact forall_optionalEntry (by decide) _ _
  · exact forall_optionalEntry (by decide) _ _
  · exact forall_optionalEntry (by decide) _ _
  · exact forall_listEntry (by decide) _ _
  · exact forall_listEntry (by decide) _ _
  · exact forall_flagEntry (by decide) _
  · exact forall_optionalEntry (by decide) _ _

namespace FieldKind

/-- The keys that belong to a kind. -/
def payloadKeys : List String :=
  ScalarRepr.keys ++ ["target", "one_to_one", "on_delete", "related_name", "reverse_field",
    "entries", "into"]

theorem key_mem (kind : FieldKind) : ∀ entry ∈ kind.payload, entry.1 ∈ payloadKeys := by
  have target : "target" ∈ payloadKeys := by decide
  have relatedName : "related_name" ∈ payloadKeys := by decide
  have reverseField : "reverse_field" ∈ payloadKeys := by decide
  cases kind with
  | scalar repr | collection repr =>
    exact fun entry member => List.mem_append_left _ (repr.key_mem entry member)
  | toOne =>
    simp only [payload, List.forall_mem_append]
    refine ⟨⟨⟨forall_singleEntry target _, ?_⟩, ?_⟩, forall_optionalEntry relatedName _ _⟩
    · exact forall_flagEntry (by decide) _
    · exact forall_singleEntry (by decide) _
  | reverseOneToMany | reverseOneToOne => simp [payload, target, reverseField]
  | manyToMany =>
    simp only [payload, List.forall_mem_append]
    exact ⟨forall_singleEntry target _, forall_optionalEntry relatedName _ _⟩
  | jsonBag => exact forall_singleEntry (by decide) _
  | dropped | parentAlias => simp [payload]
  | coalescedAlias => exact forall_singleEntry (by decide) _

end FieldKind

namespace Compile

/-- The key comes after `category`, or does not take part in a comparison. -/
def FollowsCategory (key : String) : Prop := "category" < key ∨ key ∈ ignoredMembers

instance (key : String) : Decidable (FollowsCategory key) :=
  inferInstanceAs (Decidable (_ ∨ _))

theorem payload_followsCategory (kind : FieldKind) :
    ∀ entry ∈ kind.payload, FollowsCategory entry.1 := by
  have all : ∀ key ∈ FieldKind.payloadKeys, FollowsCategory key := by decide
  exact fun entry member => all entry.1 (kind.key_mem entry member)

/-- The entries of a field before its category. -/
def leadingEntries (field : Field) : List (String × Json) :=
  ("name", .str field.name) ::
    if field.dottedPath.isEmpty then [] else [("dotted_path", .str field.dottedPath)]

/-- The entries of a field behind its category. -/
def trailingEntries (field : Field) : List (String × Json) :=
  field.kind.payload
    ++ flagEntry "nullable" field.nullable
    ++ listEntry "documentation" .str field.documentation
    ++ listEntry "annotations" MergeNote.toJson field.notes
    ++ optionalEntry "choice_group" .ofNat field.choiceGroup
    ++ (if field.maxOccurs.isOne then [] else [("max_occurs", field.maxOccurs.toJson)])
    ++ optionalEntry "coalesced_from" .str field.coalescedFrom
    ++ flagEntry "primary_key" field.primaryKey
    ++ flagEntry "unique" field.unique
    ++ flagEntry "db_index" field.dbIndex

theorem toJson_eq (field : Field) : field.toJson = .obj (leadingEntries field ++
    ("category", .str field.kind.category) :: trailingEntries field) := by
  simp [Field.toJson, FieldKind.entries, leadingEntries, trailingEntries]

theorem leading_followsCategory (field : Field) :
    ∀ entry ∈ leadingEntries field, FollowsCategory entry.1 := by
  simp only [leadingEntries, List.forall_mem_cons]
  refine ⟨by decide, ?_⟩
  split
  · simp
  · exact forall_singleEntry (by decide) _

theorem trailing_followsCategory (field : Field) :
    ∀ entry ∈ trailingEntries field, FollowsCategory entry.1 := by
  simp only [trailingEntries, List.forall_mem_append]
  refine ⟨⟨⟨⟨⟨⟨⟨⟨⟨payload_followsCategory _, ?_⟩, ?_⟩, ?_⟩, ?_⟩, ?_⟩, ?_⟩, ?_⟩, ?_⟩, ?_⟩
  · exact forall_flagEntry (by decide) _
  · exact forall_listEntry (by decide) _ _
  · exact forall_listEntry (by decide) _ _
  · exact forall_optionalEntry (by decide) _ _
  · split
    · simp
    · exact forall_singleEntry (by decide) _
  · exact forall_optionalEntry (by decide) _ _
  · exact forall_flagEntry (by decide) _
  · exact forall_flagEntry (by decide) _
  · exact forall_flagEntry (by decide) _

theorem sortMembers_append (left right : List (String × Json)) :
    Json.sortMembers (left ++ right) = Json.sortMembers left ++ Json.sortMembers right := by
  induction left with
  | nil => simp [Json.sortMembers]
  | cons entry rest ih => simp [Json.sortMembers, ih]

theorem exists_of_mem_sortMembers {members : List (String × Json)} {entry : String × Json}
    (member : entry ∈ Json.sortMembers members) : ∃ known ∈ members, known.1 = entry.1 := by
  induction members with
  | nil => simp [Json.sortMembers] at member
  | cons first rest ih =>
    rw [Json.sortMembers] at member
    rcases List.mem_cons.mp member with rfl | inRest
    · exact ⟨first, List.mem_cons_self, rfl⟩
    · obtain ⟨known, knownMember, same⟩ := ih inRest
      exact ⟨known, List.mem_cons_of_mem _ knownMember, same⟩

/-- The entries that are compared, other than the category, come after it. -/
theorem lt_of_compared {members : List (String × Json)}
    (follows : ∀ entry ∈ members, FollowsCategory entry.1) :
    ∀ entry ∈ Json.sortMembers (members.filter (!ignoredMembers.contains ·.1)),
      "category" < entry.1 := by
  intro entry member
  obtain ⟨known, compared, same⟩ := exists_of_mem_sortMembers member
  obtain ⟨inMembers, kept⟩ := List.mem_filter.mp compared
  rcases follows known inMembers with later | ignored
  · exact same ▸ later
  · simp [ignored] at kept

/-- A signature is the text of an object whose first entry is the category. -/
theorem signature_eq (field : Field) : ∃ rest, signature field =
    (Json.obj (("category", .str field.kind.category) :: rest)).pretty := by
  have compared : (!ignoredMembers.contains "category") = true := by decide
  have later : ∀ entry ∈
      Json.sortMembers ((leadingEntries field).filter (!ignoredMembers.contains ·.1)) ++
        Json.sortMembers ((trailingEntries field).filter (!ignoredMembers.contains ·.1)),
      "category" < entry.1 :=
    List.forall_mem_append.mpr ⟨lt_of_compared (leading_followsCategory field),
      lt_of_compared (trailing_followsCategory field)⟩
  obtain ⟨rest, first⟩ := Table.ofList_of_least ("category", .str field.kind.category) later
  have kept : (("category", Json.str field.kind.category) :: trailingEntries field).filter
      (!ignoredMembers.contains ·.1) = ("category", Json.str field.kind.category) ::
        (trailingEntries field).filter (!ignoredMembers.contains ·.1) :=
    List.filter_cons_of_pos compared
  refine ⟨rest, ?_⟩
  rw [← first]
  simp only [signature, toJson_eq, List.filter_append, Json.sortKeys, sortMembers_append, kept]
  rfl

/-! ## The text of a signature -/

/-- All categories. -/
def categories : List String :=
  ["scalar", "collection", "to_one", "reverse_one_to_many", "reverse_one_to_one", "many_to_many",
    "json_bag", "dropped", "parent_alias", "coalesced_alias"]

theorem category_mem (kind : FieldKind) : kind.category ∈ categories := by
  cases kind <;> simp [FieldKind.category, categories]

/-- No category needs an escape. -/
theorem quote_category (kind : FieldKind) :
    (Json.quote kind.category).toList = '"' :: (kind.category.toList ++ ['"']) ∧
      '"' ∉ kind.category.toList := by
  have all : ∀ category ∈ categories,
      (Json.quote category).toList = '"' :: (category.toList ++ ['"']) ∧
        '"' ∉ category.toList := by decide +kernel
  exact all _ (category_mem kind)

/-- The text of an object up to the value of its first entry, if that is the category. -/
def categoryStart : String := "\x7b" ++ Json.lineBreak 1 ++ Json.quote "category" ++ ": "

/-- The text begins with the category, whatever comes behind it. -/
theorem pretty_category (category : String) (rest : List (String × Json)) : ∃ after,
    (Json.obj (("category", .str category) :: rest)).pretty =
      categoryStart ++ (Json.quote category ++ after) := by
  cases rest with
  | nil =>
    refine ⟨Json.lineBreak 0 ++ "\x7d", ?_⟩
    simp only [Json.pretty, Json.prettyAt, Json.prettyMembers, categoryStart,
      String.append_assoc]
  | cons entry others =>
    refine ⟨"," ++ Json.lineBreak 1 ++ Json.prettyMembers 1 (entry :: others)
      ++ Json.lineBreak 0 ++ "\x7d", ?_⟩
    simp only [Json.pretty, Json.prettyAt, Json.prettyMembers, categoryStart,
      String.append_assoc]

theorem takeWhile_of_notMem {letters : List Char} {mark : Char} (free : mark ∉ letters)
    (after : List Char) : (letters ++ mark :: after).takeWhile (· != mark) = letters := by
  rw [List.takeWhile_append_of_pos]
  · simp
  · intro letter member
    have different : letter ≠ mark := by
      rintro rfl
      exact free member
    simpa using different

/-- Fields with the same signature are of the same category. -/
theorem category_eq_of_signature {field other : Field}
    (same : signature field = signature other) : field.kind.category = other.kind.category := by
  obtain ⟨rest, text⟩ := signature_eq field
  obtain ⟨otherRest, otherText⟩ := signature_eq other
  obtain ⟨after, split⟩ := pretty_category field.kind.category rest
  obtain ⟨otherAfter, otherSplit⟩ := pretty_category other.kind.category otherRest
  rw [text, otherText, split, otherSplit] at same
  obtain ⟨quoted, free⟩ := quote_category field.kind
  obtain ⟨otherQuoted, otherFree⟩ := quote_category other.kind
  have letters := congrArg String.toList same
  simp only [String.toList_append, quoted, otherQuoted, List.cons_append, List.append_assoc,
    List.nil_append] at letters
  -- Behind the opening quote, each category goes on to the first quote.
  have behind := (List.cons.inj (List.append_cancel_left letters)).2
  have categories := congrArg (List.takeWhile (· != '"')) behind
  rw [takeWhile_of_notMem free, takeWhile_of_notMem otherFree] at categories
  exact String.toList_inj.mp categories

/-- The category says whether a row has many values. -/
theorem isCollection_eq_contains (kind : FieldKind) : kind.isCollection =
    ["collection", "reverse_one_to_many", "many_to_many"].contains kind.category := by
  cases kind <;> rfl

/-! ## Bags -/

/-- Only bags are joined. -/
theorem bags_of_joinBags? {field other joined : Field}
    (join : joinBags? field other = some joined) :
    ∃ entries more, field.kind = .jsonBag entries ∧ other.kind = .jsonBag more ∧
      joined = { field with
        kind := .jsonBag (Bag.merge entries more)
        documentation := [Bag.documentation (Bag.merge entries more)] } := by
  unfold joinBags? at join
  split at join
  next entries more left right =>
    cases join
    exact ⟨entries, more, left, right, rfl⟩
  next => cases join

theorem not_bags_of_joinBags? {field other : Field} (apart : joinBags? field other = none)
    {entries more : Bag} (left : field.kind = .jsonBag entries) : other.kind ≠ .jsonBag more := by
  intro right
  simp [joinBags?, left, right] at apart

/-! ## Tolerated differences -/

/-- The rules of an entity tolerate fields of the path with different signatures. -/
def Tolerates (book : RuleBook) (entity : Entity) (dottedPath : String) : Prop :=
  ∃ rules, rulesOf book entity = .ok rules ∧ rules.ignoreMergeMismatch.contains dottedPath = true

theorem Tolerates.of_same {book : RuleBook} {entity other : Entity} {dottedPath : String}
    (tolerates : Tolerates book entity dottedPath) (name : other.name = entity.name)
    (sourceTypes : other.sourceTypes = entity.sourceTypes) : Tolerates book other dottedPath := by
  unfold Tolerates rulesOf at tolerates ⊢
  rwa [name, sourceTypes]

end Compile

/-! ## Settings that tolerate no difference -/

namespace EntityOptions

/-- The options name no path for which a difference is tolerated. -/
def IsStrict (options : EntityOptions) : Prop := options.ignoreMergeMismatchFields = []

instance (options : EntityOptions) : Decidable options.IsStrict :=
  inferInstanceAs (Decidable (_ = _))

theorem isStrict_layered {primary fallback : EntityOptions} (upper : primary.IsStrict)
    (lower : fallback.IsStrict) : (layered primary fallback).IsStrict := by
  simp only [IsStrict] at upper lower
  simp [IsStrict, layered, upper, lower, union]

end EntityOptions

/-- No options of the settings name a path for which a difference is tolerated. -/
def Settings.IsStrict (settings : Settings) : Prop :=
  settings.global.IsStrict ∧ ∀ rules ∈ settings.entities,
    rules.options.IsStrict ∧ ∀ overlay ∈ rules.overlays, overlay.options.IsStrict

instance (settings : Settings) : Decidable settings.IsStrict :=
  inferInstanceAs (Decidable (_ ∧ _))

namespace Compile

theorem isStrict_layers : Layers EntityOptions.IsStrict :=
  ⟨rfl, EntityOptions.isStrict_layered⟩

theorem ofOptions_contains_of_isStrict {options : EntityOptions} {rules : FieldRules}
    (strict : options.IsStrict) (read : FieldRules.ofOptions options = .ok rules) (name : String) :
    rules.ignoreMergeMismatch.contains name = false := by
  -- Twelve lists of patterns are read before this one, and two of substitutions after it.
  iterate 12 obtain ⟨_, _, read⟩ := Result.bind_eq_ok.mp read
  obtain ⟨tolerated, tolerates, read⟩ := Result.bind_eq_ok.mp read
  iterate 2 obtain ⟨_, _, read⟩ := Result.bind_eq_ok.mp read
  obtain rfl := Result.pure_eq_ok.mp read
  rw [EntityOptions.IsStrict] at strict
  rw [strict] at tolerates
  obtain rfl : ⟨[]⟩ = tolerated := Except.ok.inj tolerates
  rfl

/-- Under strict settings no entity tolerates a difference. -/
theorem not_tolerates_of_isStrict {settings : Settings} {book : RuleBook}
    (strict : settings.IsStrict) (read : RuleBook.ofSettings settings = .ok book)
    (entity : Entity) (dottedPath : String) : ¬Tolerates book entity dottedPath := by
  rintro ⟨rules, ruled, contains⟩
  have own : rules.options.IsStrict := rules_of_layers isStrict_layers read strict ruled
  rw [ofOptions_contains_of_isStrict (ofOptions_options ruled ▸ own) ruled] at contains
  cases contains

end Compile

end EntityGraph
