import EntityGraph.Proofs.Field
import EntityGraph.Proofs.Merge.Comparison

/-!
# Fields that are absorbed by others

A field that goes into a merge is absorbed by the outcome if nothing of it has changed but what
merging resolves: a dropped field gives way to a declared one, a single value to a list of the same
scalar, and a one-to-one reference to a plain one. Absorption is a preorder, so it goes through any
number of steps, and fields that are absorbed by one field agree with each other.
-/
namespace EntityGraph

/-! ## Scalars without the sign of zero -/

/-- The double with the sign of zero left out. -/
def Decimal.unsigned (value : Float) : Float := if value == 0 then 0 else value

/-- Doubles that compare as equal differ at most in the sign of zero. -/
theorem Decimal.unsigned_eq_of_beq {value other : Float} (same : (value == other) = true) :
    unsigned value = unsigned other := by
  obtain ⟨_, _, rfl | ⟨rfl, rfl⟩ | ⟨rfl, rfl⟩⟩ := Float.beq_iff_ne_nan_and_eq.mp same
  · rfl
  · rw [unsigned, unsigned, if_pos (by decide), if_pos (by decide)]
  · rw [unsigned, unsigned, if_pos (by decide), if_pos (by decide)]

def Literal.unsigned : Literal → Literal
  | float value => float (Decimal.unsigned value)
  | literal => literal

def Validator.unsigned : Validator → Validator
  | minValue value exclusive => minValue value.unsigned exclusive
  | maxValue value exclusive => maxValue value.unsigned exclusive
  | validator => validator

/-- The scalar with the sign of zero left out. -/
def ScalarRepr.unsigned (repr : ScalarRepr) : ScalarRepr :=
  { repr with
    validators := repr.validators.map Validator.unsigned
    defaultValue := repr.defaultValue.map Literal.unsigned }

theorem Literal.unsigned_eq_of_beq {literal other : Literal} (same : (literal == other) = true) :
    literal.unsigned = other.unsigned := by
  cases literal with
  | float value =>
    cases other with
    | float another => exact congrArg Literal.float (Decimal.unsigned_eq_of_beq same)
    | _ => exact absurd same Bool.false_ne_true
  | boolean value | integer value | decimal value | date value | dateTime value | text value =>
    cases other <;> first
      | exact absurd same Bool.false_ne_true
      | rw [eq_of_beq (a := value) same]

theorem Validator.unsigned_eq_of_beq {validator other : Validator}
    (same : (validator == other) = true) : validator.unsigned = other.unsigned := by
  cases validator with
  | minLength length =>
    cases other with
    | minLength another => rw [eq_of_beq (a := length) same]
    | _ => exact absurd same Bool.false_ne_true
  | regex pattern =>
    cases other with
    | regex another => rw [eq_of_beq (a := pattern) same]
    | _ => exact absurd same Bool.false_ne_true
  | minValue value exclusive =>
    cases other with
    | minValue another otherExclusive =>
      have parts : (value == another && exclusive == otherExclusive) = true := same
      rw [Bool.and_eq_true] at parts
      rw [unsigned, unsigned, Literal.unsigned_eq_of_beq parts.1, eq_of_beq parts.2]
    | _ => exact absurd same Bool.false_ne_true
  | maxValue value exclusive =>
    cases other with
    | maxValue another otherExclusive =>
      have parts : (value == another && exclusive == otherExclusive) = true := same
      rw [Bool.and_eq_true] at parts
      rw [unsigned, unsigned, Literal.unsigned_eq_of_beq parts.1, eq_of_beq parts.2]
    | _ => exact absurd same Bool.false_ne_true

section Parts

variable {α : Type} [BEq α] {change : α → α}

theorem map_eq_of_beq (respects : ∀ a b, (a == b) = true → change a = change b) :
    ∀ {items others : List α}, (items == others) = true → items.map change = others.map change
  | [], [], _ => rfl
  | [], _ :: _, same => absurd same Bool.false_ne_true
  | _ :: _, [], same => absurd same Bool.false_ne_true
  | a :: items, b :: others, same => by
    rw [List.cons_beq_cons, Bool.and_eq_true] at same
    rw [List.map_cons, List.map_cons, respects a b same.1, map_eq_of_beq respects same.2]

theorem optionMap_eq_of_beq (respects : ∀ a b, (a == b) = true → change a = change b)
    {value other : Option α} (same : (value == other) = true) :
    value.map change = other.map change := by
  cases value with
  | none =>
    cases other with
    | none => rfl
    | some b => exact absurd same Bool.false_ne_true
  | some a =>
    cases other with
    | none => exact absurd same Bool.false_ne_true
    | some b => exact congrArg some (respects a b same)

end Parts

theorem ScalarRepr.unsigned_eq_of_beq {repr other : ScalarRepr} (same : (repr == other) = true) :
    repr.unsigned = other.unsigned := by
  -- The derived comparison goes through the components one by one.
  have parts : (repr.kind == other.kind && (repr.sourceType == other.sourceType &&
      (repr.maxLength == other.maxLength && (repr.maxDigits == other.maxDigits &&
        (repr.decimalPlaces == other.decimalPlaces && (repr.choices == other.choices &&
          (repr.validators == other.validators && (repr.notBlank == other.notBlank &&
            repr.defaultValue == other.defaultValue)))))))) = true := same
  simp only [Bool.and_eq_true, beq_iff_eq] at parts
  obtain ⟨kind, sourceType, maxLength, maxDigits, decimalPlaces, choices, validators, notBlank,
    defaultValue⟩ := parts
  exact ScalarRepr.ext kind sourceType maxLength maxDigits decimalPlaces choices
    (map_eq_of_beq (fun _ _ => Validator.unsigned_eq_of_beq) validators) notBlank
    (optionMap_eq_of_beq (fun _ _ => Literal.unsigned_eq_of_beq) defaultValue)

/-! ## Outlines -/

namespace FieldKind

variable {kind : FieldKind}

@[simp] theorem outline_eq_dropped : kind.outline = dropped ↔ kind = dropped := by
  cases kind <;> simp [outline]

@[simp] theorem outline_eq_scalar {repr : ScalarRepr} :
    kind.outline = scalar repr ↔ kind = scalar repr := by
  cases kind <;> simp [outline]

@[simp] theorem outline_eq_collection {repr : ScalarRepr} :
    kind.outline = collection repr ↔ kind = collection repr := by
  cases kind <;> simp [outline]

@[simp] theorem outline_eq_toOne {target : String} {oneToOne : Bool} {onDelete : OnDelete} :
    kind.outline = toOne target oneToOne onDelete none ↔
      ∃ relatedName, kind = toOne target oneToOne onDelete relatedName := by
  cases kind <;> simp [outline]

end FieldKind

namespace Field

/-- The field has one value where the other has a list of the same scalar. -/
def IsItemOf (single list : Field) : Prop :=
  ∃ value array, single.kind = .scalar value ∧ list.kind = .collection array ∧
    value.unsigned = array.unsigned

/-- The field is a one-to-one reference where the other is a plain one to the same target. -/
def IsOneToOneOf (owned plain : Field) : Prop :=
  ∃ target onDelete otherOnDelete relatedName otherName,
    owned.kind = .toOne target true onDelete relatedName ∧
      plain.kind = .toOne target false otherOnDelete otherName

/-- Nothing but the outlines matters. -/
theorem IsItemOf.of_outline {single list other otherList : Field} (item : single.IsItemOf list)
    (kind : other.kind.outline = single.kind.outline)
    (listKind : otherList.kind.outline = list.kind.outline) : other.IsItemOf otherList := by
  obtain ⟨value, array, isSingle, isList, equal⟩ := item
  rw [isSingle] at kind
  rw [isList] at listKind
  exact ⟨value, array, FieldKind.outline_eq_scalar.mp kind,
    FieldKind.outline_eq_collection.mp listKind, equal⟩

theorem IsOneToOneOf.of_outline {owned plain other otherPlain : Field}
    (one : owned.IsOneToOneOf plain) (kind : other.kind.outline = owned.kind.outline)
    (plainKind : otherPlain.kind.outline = plain.kind.outline) :
    other.IsOneToOneOf otherPlain := by
  obtain ⟨target, onDelete, otherOnDelete, _, _, isOwned, isPlain⟩ := one
  rw [isOwned] at kind
  rw [isPlain] at plainKind
  obtain ⟨relatedName, reference⟩ := FieldKind.outline_eq_toOne.mp kind
  obtain ⟨otherName, plainReference⟩ := FieldKind.outline_eq_toOne.mp plainKind
  exact ⟨target, onDelete, otherOnDelete, relatedName, otherName, reference, plainReference⟩

/-- What holds of the fields that a build makes: the rows of a one-to-one reference go together,
and a bag is a single column without options. -/
structure IsRegular (field : Field) : Prop where
  cascades : ∀ target onDelete relatedName,
    field.kind = .toOne target true onDelete relatedName → onDelete = .cascade
  bag : ∀ entries, field.kind = .jsonBag entries →
    field.maxOccurs = .one ∧ field.flags = (false, false, false)

/-- A regular field whose literals are finite. -/
structure IsComparable (field : Field) : Prop extends field.IsRegular where
  finite : field.kind.IsFinite

/-! ## Absorption -/

/-- A field has gone into another one: nothing has changed but what merging resolves. -/
inductive Absorbed (field merged : Field) : Prop
  | dropped (mark : field.kind = .dropped)
  | same (kind : field.kind.outline = merged.kind.outline)
      (occurs : field.maxOccurs = merged.maxOccurs) (flags : field.flags = merged.flags)
  | widened (item : field.IsItemOf merged) (flags : field.flags = merged.flags)
  | relaxed (owned : field.IsOneToOneOf merged) (occurs : field.maxOccurs = merged.maxOccurs)
      (flags : field.flags = merged.flags)

namespace Absorbed

variable {field merged last : Field}

theorem refl (field : Field) : Absorbed field field := .same rfl rfl rfl

theorem trans (first : Absorbed field merged) (second : Absorbed merged last) :
    Absorbed field last := by
  cases first with
  | dropped mark => exact .dropped mark
  | same kind occurs flags =>
    cases second with
    | dropped mark =>
      rw [mark] at kind
      exact .dropped (FieldKind.outline_eq_dropped.mp kind)
    | same otherKind otherOccurs otherFlags =>
      exact .same (kind.trans otherKind) (occurs.trans otherOccurs) (flags.trans otherFlags)
    | widened item otherFlags =>
      exact .widened (item.of_outline kind rfl) (flags.trans otherFlags)
    | relaxed owned otherOccurs otherFlags =>
      exact .relaxed (owned.of_outline kind rfl) (occurs.trans otherOccurs) (flags.trans otherFlags)
  | widened item flags =>
    -- What has become a list is a list for good.
    have ⟨_, _, _, list, _⟩ := item
    cases second with
    | same kind _ otherFlags =>
      exact .widened (item.of_outline rfl kind.symm) (flags.trans otherFlags)
    | dropped mark => exact absurd (list.symm.trans mark) nofun
    | widened otherItem _ =>
      obtain ⟨_, _, single, _⟩ := otherItem
      exact absurd (list.symm.trans single) nofun
    | relaxed owned _ _ =>
      obtain ⟨_, _, _, _, _, reference, _⟩ := owned
      exact absurd (list.symm.trans reference) nofun
  | relaxed owned occurs flags =>
    -- What has become a plain reference is one for good.
    have ⟨_, _, _, _, _, _, plain⟩ := owned
    cases second with
    | same kind otherOccurs otherFlags =>
      exact .relaxed (owned.of_outline rfl kind.symm) (occurs.trans otherOccurs)
        (flags.trans otherFlags)
    | dropped mark => exact absurd (plain.symm.trans mark) nofun
    | widened item _ =>
      obtain ⟨_, _, single, _⟩ := item
      exact absurd (plain.symm.trans single) nofun
    | relaxed otherOwned _ _ =>
      obtain ⟨_, _, _, _, _, reference, _⟩ := otherOwned
      cases plain.symm.trans reference

end Absorbed

/-! ## Agreement -/

/-- Two fields agree, given whether there are lists of their name and path: they have the same kind
up to its outline, the same number of occurrences and the same flags, or they differ in one of the
ways that merging resolves. Single values that give way to a list are compared with the list and not
with each other, so they need not occur equally often, unless each occurs as often as a single value
does. -/
inductive Agrees (hasLists : Prop) (field other : Field) : Prop
  | dropped (mark : field.kind = .dropped ∨ other.kind = .dropped)
  | same (kind : field.kind.outline = other.kind.outline)
      (occurs : field.maxOccurs = other.maxOccurs) (flags : field.flags = other.flags)
  | listed (item : field.IsItemOf other ∨ other.IsItemOf field) (flags : field.flags = other.flags)
  | referred (owned : field.IsOneToOneOf other ∨ other.IsOneToOneOf field)
      (occurs : field.maxOccurs = other.maxOccurs) (flags : field.flags = other.flags)
  | besideList {value otherValue : ScalarRepr} (lists : hasLists)
      (kind : field.kind = .scalar value) (otherKind : other.kind = .scalar otherValue)
      (repr : value.unsigned = otherValue.unsigned)
      (occurs : field.IsConsistent → other.IsConsistent → field.maxOccurs = other.maxOccurs)
      (flags : field.flags = other.flags)

theorem Agrees.mono {hasLists hasMore : Prop} {field other : Field}
    (agrees : Agrees hasLists field other) (lists : hasLists → hasMore) :
    Agrees hasMore field other := by
  cases agrees with
  | dropped mark => exact .dropped mark
  | same kind occurs flags => exact .same kind occurs flags
  | listed item flags => exact .listed item flags
  | referred owned occurs flags => exact .referred owned occurs flags
  | besideList has kind otherKind repr occurs flags =>
    exact .besideList (lists has) kind otherKind repr occurs flags

/-- Two single values agree only if they are of the same scalar kind. -/
theorem Agrees.scalarKind_eq {hasLists : Prop} {field other : Field}
    (agrees : Agrees hasLists field other) {value otherValue : ScalarRepr}
    (kind : field.kind = .scalar value) (otherKind : other.kind = .scalar otherValue) :
    value.kind = otherValue.kind := by
  cases agrees with
  | dropped mark =>
    rcases mark with mark | mark
    · exact absurd (kind.symm.trans mark) nofun
    · exact absurd (otherKind.symm.trans mark) nofun
  | same same _ _ =>
    rw [kind, otherKind] at same
    rw [FieldKind.scalar.inj same]
  | listed item _ =>
    rcases item with ⟨_, _, _, list, _⟩ | ⟨_, _, _, list, _⟩
    · exact absurd (otherKind.symm.trans list) nofun
    · exact absurd (kind.symm.trans list) nofun
  | referred owned _ _ =>
    rcases owned with ⟨_, _, _, _, _, _, plain⟩ | ⟨_, _, _, _, _, _, plain⟩
    · exact absurd (otherKind.symm.trans plain) nofun
    · exact absurd (kind.symm.trans plain) nofun
  | besideList _ single otherSingle repr _ _ =>
    obtain rfl := FieldKind.scalar.inj (kind.symm.trans single)
    obtain rfl := FieldKind.scalar.inj (otherKind.symm.trans otherSingle)
    -- The sign of zero is no part of the scalar kind.
    have kinds : value.unsigned.kind = otherValue.unsigned.kind := congrArg ScalarRepr.kind repr
    exact kinds

/-- A single value that is consistent occurs once. -/
theorem maxOccurs_of_isConsistent {field : Field} {repr : ScalarRepr}
    (kind : field.kind = .scalar repr) (consistent : field.IsConsistent) :
    field.maxOccurs = .one := by
  rw [IsConsistent, kind] at consistent
  have single : (!field.maxOccurs.isOne) = false := consistent.symm
  exact Schema.MaxOccurs.isOne_iff.mp (by rwa [Bool.not_eq_false'] at single)

/-- Fields that have gone into one field agree. -/
theorem agrees_of_absorbed {hasLists : Prop} {field other merged : Field}
    (left : Absorbed field merged) (right : Absorbed other merged) (regular : field.IsRegular)
    (otherRegular : other.IsRegular)
    (lists : ∀ array, merged.kind = .collection array → hasLists) :
    Agrees hasLists field other := by
  cases left with
  | dropped mark => exact .dropped (.inl mark)
  | same kind occurs flags =>
    cases right with
    | dropped mark => exact .dropped (.inr mark)
    | same otherKind otherOccurs otherFlags =>
      exact .same (kind.trans otherKind.symm) (occurs.trans otherOccurs.symm)
        (flags.trans otherFlags.symm)
    | widened item otherFlags =>
      exact .listed (.inr (item.of_outline rfl kind)) (flags.trans otherFlags.symm)
    | relaxed owned otherOccurs otherFlags =>
      exact .referred (.inr (owned.of_outline rfl kind)) (occurs.trans otherOccurs.symm)
        (flags.trans otherFlags.symm)
  | widened item flags =>
    have ⟨value, array, single, list, equal⟩ := item
    cases right with
    | dropped mark => exact .dropped (.inr mark)
    | same kind _ otherFlags =>
      exact .listed (.inl (item.of_outline rfl kind)) (flags.trans otherFlags.symm)
    | widened otherItem otherFlags =>
      -- Both have been compared with the list only, so they may differ in their occurrences.
      obtain ⟨otherValue, otherArray, otherSingle, sameList, otherEqual⟩ := otherItem
      obtain rfl : array = otherArray := FieldKind.collection.inj (list.symm.trans sameList)
      exact .besideList (lists array list) single otherSingle (equal.trans otherEqual.symm)
        (fun consistent otherConsistent => (maxOccurs_of_isConsistent single consistent).trans
          (maxOccurs_of_isConsistent otherSingle otherConsistent).symm)
        (flags.trans otherFlags.symm)
    | relaxed owned _ _ =>
      obtain ⟨_, _, _, _, _, _, plain⟩ := owned
      exact absurd (list.symm.trans plain) nofun
  | relaxed owned occurs flags =>
    have ⟨_, _, _, _, _, single, plain⟩ := owned
    cases right with
    | dropped mark => exact .dropped (.inr mark)
    | same kind otherOccurs otherFlags =>
      exact .referred (.inl (owned.of_outline rfl kind)) (occurs.trans otherOccurs.symm)
        (flags.trans otherFlags.symm)
    | widened item _ =>
      obtain ⟨_, _, _, list, _⟩ := item
      exact absurd (plain.symm.trans list) nofun
    | relaxed otherOwned otherOccurs otherFlags =>
      -- Both are one-to-one references to the target, so both cascade.
      obtain ⟨_, _, _, _, _, otherSingle, otherPlain⟩ := otherOwned
      cases plain.symm.trans otherPlain
      refine .same ?_ (occurs.trans otherOccurs.symm) (flags.trans otherFlags.symm)
      rw [single, otherSingle, regular.cascades _ _ _ single,
        otherRegular.cascades _ _ _ otherSingle]
      rfl

end Field

end EntityGraph
