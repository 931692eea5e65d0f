import EntityGraph.Entity.Scalar
import EntityGraph.Schema.Document
import EntityGraph.Table

/-!
# Fields

A member of an entity. Its kind is a closed sum whose cases carry only what they need: a reference
has no facets, and a scalar has no target. Some kinds are marks that leave a trace of an element but
make no column: they are not materialized.
-/
namespace EntityGraph

open Schema (MaxOccurs)

/-- What happens to a row when the row it refers to goes. -/
inductive OnDelete where
  /-- The target is shared and stays. -/
  | protect
  /-- The target is owned and takes the row with it. -/
  | cascade
  deriving DecidableEq, Repr, Inhabited

/-- Documentation by path. -/
abbrev Bag := Table String

inductive FieldKind where
  | scalar (repr : ScalarRepr)
  /-- A list of scalars in one column. -/
  | collection (repr : ScalarRepr)
  /-- A reference to one row. -/
  | toOne (target : String) (oneToOne : Bool) (onDelete : OnDelete) (relatedName : Option String)
  /-- Owned rows, each of which refers back here by `reverseField`. -/
  | reverseOneToMany (target reverseField : String)
  | reverseOneToOne (target reverseField : String)
  | manyToMany (target : String) (relatedName : Option String)
  /-- An opaque record of everything beneath an element. -/
  | jsonBag (entries : Bag)
  /-- Left out by a rule. -/
  | dropped
  /-- The element that became the inheritance link. -/
  | parentAlias
  /-- A later occurrence of a field that several elements share. -/
  | coalescedAlias (into : String)
  deriving BEq, Repr, Inhabited

namespace FieldKind

def category : FieldKind → String
  | scalar _ => "scalar"
  | collection _ => "collection"
  | toOne .. => "to_one"
  | reverseOneToMany .. => "reverse_one_to_many"
  | reverseOneToOne .. => "reverse_one_to_one"
  | manyToMany .. => "many_to_many"
  | jsonBag _ => "json_bag"
  | dropped => "dropped"
  | parentAlias => "parent_alias"
  | coalescedAlias _ => "coalesced_alias"

/-- The entity at the other end of a relation. -/
def target? : FieldKind → Option String
  | toOne target .. | reverseOneToMany target _ | reverseOneToOne target _ | manyToMany target _ =>
    some target
  | _ => none

/-- Whether a row has many values. -/
def isCollection : FieldKind → Bool
  | collection _ | reverseOneToMany .. | manyToMany .. => true
  | _ => false

/-- Whether there is a column or relation. -/
def isMaterialized : FieldKind → Bool
  | dropped | parentAlias | coalescedAlias _ => false
  | _ => true

def repr? : FieldKind → Option ScalarRepr
  | scalar repr | collection repr => some repr
  | _ => none

/-- Changes the scalar of a scalar or collection. -/
def mapRepr (change : ScalarRepr → ScalarRepr) : FieldKind → FieldKind
  | scalar repr => scalar (change repr)
  | collection repr => collection (change repr)
  | kind => kind

/-- The entity that the owner refers to, and therefore depends on. -/
def dependency? : FieldKind → Option String
  | toOne target .. | manyToMany target _ => some target
  | _ => none

/-- A few words for a message. -/
def describe : FieldKind → String
  | scalar repr => repr.kind.name
  | collection repr => "collection of " ++ repr.kind.name
  | kind =>
    match kind.target? with
    | some target => kind.category ++ " " ++ target
    | none => kind.category

end FieldKind

/-- A trace of merging. -/
inductive MergeNote where
  /-- Missing from these source types, and therefore nullable. -/
  | nullIn (types : List String)
  /-- Present in these source types only. -/
  | onlyIn (types : List String)
  /-- Left out in these source types and declared in another. -/
  | replacesDropped (types : List String)
  /-- A tolerated difference: a source type and its form of the field. -/
  | mergeVariant (variant : List String)
  deriving DecidableEq, Repr, Inhabited

def MergeNote.text : MergeNote → String
  | nullIn types => "NULL in " ++ ",".intercalate types
  | onlyIn types => "Only in " ++ ",".intercalate types
  | replacesDropped types =>
    "The original is dropped in " ++ ",".intercalate types ++ " and replaced by an added one"
  | mergeVariant variant => "Variant: " ++ " ".intercalate variant

structure Field where
  name : String
  /-- Where the field comes from, relative to the owning type: `a.b`, `a.@b`. -/
  dottedPath : String
  kind : FieldKind
  nullable : Bool
  documentation : List String
  notes : List MergeNote
  /-- The choice of which the element is one branch. -/
  choiceGroup : Option Nat
  /-- How often the element may occur. -/
  maxOccurs : MaxOccurs
  /-- The name before it was made equal to that of other fields. -/
  coalescedFrom : Option String
  primaryKey : Bool
  unique : Bool
  dbIndex : Bool
  deriving BEq, Repr, Inhabited

namespace Field

/-- A required field that occurs once, without documentation and options. -/
def ofKind (name dottedPath : String) (kind : FieldKind) : Field :=
  ⟨name, dottedPath, kind, false, [], [], none, .one, none, false, false, false⟩

def isMaterialized (field : Field) : Bool := field.kind.isMaterialized

/-- Whether a rule left the element out. -/
def isDropped (field : Field) : Bool :=
  match field.kind with
  | .dropped => true
  | _ => false

/-- Adds a trace of merging. -/
def annotate (field : Field) (note : MergeNote) : Field :=
  { field with notes := field.notes ++ [note] }

end Field

end EntityGraph
