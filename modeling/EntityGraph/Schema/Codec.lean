import EntityGraph.Error
import EntityGraph.Json.Decode
import EntityGraph.Json.Reader
import EntityGraph.Schema.Document

/-!
# Schema documents as JSON

Every part of a document is written with all its keys, absent values as `null`; the enclosing
element of an anonymous type is not written. Reading accepts any subset of the keys that leaves out
only what has a default, and passes over the other members of a text. Particles and the items of
attribute lists are read whole before they are decoded, since their kind may come last. Types,
particles and elements contain each other, so their decoders recurse on a bound for the height of
the value, and `Document.ofJson` supplies the height itself.
-/
namespace EntityGraph.Schema

open Json (Record Outline)

/-- Reads an unsigned 32-bit number written in decimal digits, with an optional plus sign. -/
def readCount? (text : String) : Option Nat :=
  (Decimal.parseWord? text.toList).filter (· ≤ Decimal.maxCount)

namespace MaxOccurs

def toJson : MaxOccurs → Json
  | bounded count => .ofNat count
  | unbounded => .str "unbounded"

/-- A count, the word `unbounded`, or a count in a string. -/
def ofJson : Json → Decoded MaxOccurs
  | .str "unbounded" => .ok unbounded
  | .str text =>
    match readCount? text with
    | some count => .ok (bounded count)
    | none => .error (.unexpected "an occurrence bound")
  | value => (Json.asCount value).map bounded

end MaxOccurs

/-- The two entries of an occurrence range. -/
def Occurs.entries (occurs : Occurs) : List (String × Json) :=
  [("min_occurs", .ofNat occurs.least), ("max_occurs", occurs.most.toJson)]

/-- Reads an occurrence range from its two entries; both are one by default. -/
def Occurs.ofRecord (record : Record) : Decoded Occurs := do
  let least ← record.defaulted "min_occurs" 1 Json.asCount
  let most ← record.defaulted "max_occurs" .one MaxOccurs.ofJson
  return ⟨least, most⟩

namespace Enumeration

def toJson (enumeration : Enumeration) : Json :=
  .obj [
    ("value", .str enumeration.value),
    ("documentation", .ofOption .str enumeration.documentation)]

def outline : Outline := .ofKeys ["value", "documentation"]

def ofJson (value : Json) : Decoded Enumeration := do
  let record ← Record.ofJson outline.keys value
  return {
    value := ← record.required "value" Json.asString
    documentation := ← record.optional "documentation" Json.asString }

end Enumeration

namespace Facets

def toJson (facets : Facets) : Json :=
  .obj [
    ("length", .ofOption .ofNat facets.length),
    ("min_length", .ofOption .ofNat facets.minLength),
    ("max_length", .ofOption .ofNat facets.maxLength),
    ("patterns", .ofStrings facets.patterns),
    ("enumerations", .arr (facets.enumerations.map Enumeration.toJson)),
    ("total_digits", .ofOption .ofNat facets.totalDigits),
    ("fraction_digits", .ofOption .ofNat facets.fractionDigits),
    ("min_inclusive", .ofOption .str facets.minInclusive),
    ("max_inclusive", .ofOption .str facets.maxInclusive),
    ("min_exclusive", .ofOption .str facets.minExclusive),
    ("max_exclusive", .ofOption .str facets.maxExclusive)]

def outline : Outline :=
  .record [
    ("length", .whole),
    ("min_length", .whole),
    ("max_length", .whole),
    ("patterns", .whole),
    ("enumerations", .list Enumeration.outline),
    ("total_digits", .whole),
    ("fraction_digits", .whole),
    ("min_inclusive", .whole),
    ("max_inclusive", .whole),
    ("min_exclusive", .whole),
    ("max_exclusive", .whole)]

def ofJson (value : Json) : Decoded Facets := do
  let record ← Record.ofJson outline.keys value
  return {
    length := ← record.optional "length" Json.asCount
    minLength := ← record.optional "min_length" Json.asCount
    maxLength := ← record.optional "max_length" Json.asCount
    patterns := ← record.defaulted "patterns" [] (Json.asList Json.asString)
    enumerations := ← record.defaulted "enumerations" [] (Json.asList Enumeration.ofJson)
    totalDigits := ← record.optional "total_digits" Json.asCount
    fractionDigits := ← record.optional "fraction_digits" Json.asCount
    minInclusive := ← record.optional "min_inclusive" Json.asString
    maxInclusive := ← record.optional "max_inclusive" Json.asString
    minExclusive := ← record.optional "min_exclusive" Json.asString
    maxExclusive := ← record.optional "max_exclusive" Json.asString }

end Facets

namespace SimpleType

def toJson (type : SimpleType) : Json :=
  .obj [
    ("name", .ofOption .str type.name),
    ("documentation", .ofOption .str type.documentation),
    ("base", .str type.base),
    ("facets", type.facets.toJson)]

def outline : Outline :=
  .record [
    ("name", .whole), ("documentation", .whole), ("base", .whole), ("facets", Facets.outline)]

def ofJson (value : Json) : Decoded SimpleType := do
  let record ← Record.ofJson outline.keys value
  return {
    name := ← record.optional "name" Json.asString
    documentation := ← record.optional "documentation" Json.asString
    base := ← record.required "base" Json.asString
    facets := ← record.defaulted "facets" .none Facets.ofJson }

end SimpleType

namespace AttributeUse

def text : AttributeUse → String
  | optional => "optional"
  | required => "required"
  | prohibited => "prohibited"

def ofText? : String → Option AttributeUse
  | "optional" => some optional
  | "required" => some required
  | "prohibited" => some prohibited
  | _ => none

/-- A word, or an object that has the word as its only key and `null` under it. -/
def ofJson : Json → Decoded AttributeUse
  | .str word | .obj [(word, .null)] =>
    match ofText? word with
    | some usage => .ok usage
    | none => .error (.unexpected "an attribute use")
  | _ => .error (.unexpected "an attribute use")

end AttributeUse

namespace Attribute

/-- The entries of an attribute declaration. -/
def entries (self : Attribute) : List (String × Json) :=
  [("name", .ofOption .str self.name),
    ("ref", .ofOption .str self.reference),
    ("type", .ofOption .str self.typeName),
    ("simple_type", .ofOption SimpleType.toJson self.simpleType),
    ("use", .str self.usage.text),
    ("default", .ofOption .str self.defaultText),
    ("fixed", .ofOption .str self.fixedText),
    ("documentation", .ofOption .str self.documentation)]

def toJson (self : Attribute) : Json := .obj self.entries

def outline : Outline :=
  .record [
    ("name", .whole),
    ("ref", .whole),
    ("type", .whole),
    ("simple_type", SimpleType.outline),
    ("use", .whole),
    ("default", .whole),
    ("fixed", .whole),
    ("documentation", .whole)]

def ofJson (value : Json) : Decoded Attribute := do
  let record ← Record.ofJson outline.keys value
  return {
    name := ← record.optional "name" Json.asString
    reference := ← record.optional "ref" Json.asString
    typeName := ← record.optional "type" Json.asString
    simpleType := ← record.optional "simple_type" SimpleType.ofJson
    usage := ← record.defaulted "use" .optional AttributeUse.ofJson
    defaultText := ← record.optional "default" Json.asString
    fixedText := ← record.optional "fixed" Json.asString
    documentation := ← record.optional "documentation" Json.asString }

end Attribute

namespace AttributeItem

def toJson : AttributeItem → Json
  | single declaration => .obj (("kind", .str "attribute") :: declaration.entries)
  | group reference => .obj [("kind", .str "group"), ("ref", .str reference)]

def ofJson (value : Json) : Decoded AttributeItem := do
  let (kind, value) ← Json.variant "kind" value
  match kind with
  | "attribute" => return .single (← Attribute.ofJson value)
  | "group" =>
    let record ← Record.ofJson ["ref"] value
    return .group (← record.required "ref" Json.asString)
  | _ => throw (.unexpected "an attribute item")

end AttributeItem

namespace SimpleContent

def toJson (content : SimpleContent) : Json :=
  .obj [
    ("base", .str content.base),
    ("attributes", .arr (content.attributes.map AttributeItem.toJson))]

def outline : Outline := .ofKeys ["base", "attributes"]

def ofJson (value : Json) : Decoded SimpleContent := do
  let record ← Record.ofJson outline.keys value
  return {
    base := ← record.required "base" Json.asString
    attributes := ← record.defaulted "attributes" [] (Json.asList AttributeItem.ofJson) }

end SimpleContent

namespace Wildcard

def toJson (wildcard : Wildcard) : Json :=
  .obj ([
    ("kind", .str "any"),
    ("namespace", .ofOption .str wildcard.space),
    ("documentation", .ofOption .str wildcard.documentation)] ++ wildcard.occurs.entries)

def ofJson (value : Json) : Decoded Wildcard := do
  let record ← Record.ofJson ["namespace", "documentation", "min_occurs", "max_occurs"] value
  return {
    space := ← record.optional "namespace" Json.asString
    documentation := ← record.optional "documentation" Json.asString
    occurs := ← Occurs.ofRecord record }

end Wildcard

/-! ## Types, particles and elements -/

def Compositor.text : Compositor → String
  | .sequence => "sequence"
  | .choice => "choice"

mutual

def ComplexType.toJson : ComplexType → Json
  | ⟨name, isAbstract, documentation, attributes, content, extension, simpleContent, _⟩ =>
    .obj [
      ("name", .ofOption .str name),
      ("abstract", .bool isAbstract),
      ("documentation", .ofOption .str documentation),
      ("attributes", .arr (attributes.map AttributeItem.toJson)),
      ("content", contentToJson content),
      ("extension", extensionToJson extension),
      ("simple_content", .ofOption SimpleContent.toJson simpleContent)]

def contentToJson : Option Particle → Json
  | some particle => particle.toJson
  | none => .null

def extensionToJson : Option Extension → Json
  | some ⟨base, attributes, content⟩ =>
    .obj [
      ("base", .str base),
      ("attributes", .arr (attributes.map AttributeItem.toJson)),
      ("content", contentToJson content)]
  | none => .null

def Particle.toJson : Particle → Json
  | .element declaration => .obj (("kind", .str "element") :: declaration.entries)
  | .compositor kind occurs parts =>
    .obj (("kind", .str kind.text) :: occurs.entries ++ [("particles", .arr (partsToJson parts))])
  | .group reference occurs =>
    .obj ([("kind", .str "group"), ("ref", .str reference)] ++ occurs.entries)
  | .any wildcard => wildcard.toJson

def partsToJson : List Particle → List Json
  | [] => []
  | part :: rest => part.toJson :: partsToJson rest

/-- The entries of an element declaration. -/
def Element.entries : Element → List (String × Json)
  | ⟨name, reference, typeName, complexType, simpleType, occurs, defaultText, fixedText,
      documentation⟩ =>
    [("name", .ofOption .str name),
      ("ref", .ofOption .str reference),
      ("type", .ofOption .str typeName),
      ("complex_type", inlineToJson complexType),
      ("simple_type", .ofOption SimpleType.toJson simpleType)] ++ occurs.entries ++
    [("default", .ofOption .str defaultText),
      ("fixed", .ofOption .str fixedText),
      ("documentation", .ofOption .str documentation)]

def inlineToJson : Option ComplexType → Json
  | some type => type.toJson
  | none => .null

end

def Element.toJson (element : Element) : Json := .obj element.entries

def Extension.outline : Outline := .ofKeys ["base", "attributes", "content"]

def ComplexType.outline : Outline :=
  .record [
    ("name", .whole),
    ("abstract", .whole),
    ("documentation", .whole),
    ("attributes", .whole),
    ("content", .whole),
    ("extension", Extension.outline),
    ("simple_content", SimpleContent.outline)]

def Element.outline : Outline :=
  .record [
    ("name", .whole),
    ("ref", .whole),
    ("type", .whole),
    ("complex_type", ComplexType.outline),
    ("simple_type", SimpleType.outline),
    ("min_occurs", .whole),
    ("max_occurs", .whole),
    ("default", .whole),
    ("fixed", .whole),
    ("documentation", .whole)]

mutual

/-- Decodes a complex type in a value of at most the given height. -/
def ComplexType.ofJsonWithin : Nat → Json → Decoded ComplexType
  | 0, _ => .error (.unexpected "a shallower value")
  | bound + 1, value => do
    let record ← Record.ofJson ComplexType.outline.keys value
    return {
      name := ← record.optional "name" Json.asString
      isAbstract := ← record.defaulted "abstract" false Json.asBool
      documentation := ← record.optional "documentation" Json.asString
      attributes := ← record.defaulted "attributes" [] (Json.asList AttributeItem.ofJson)
      content := ← record.optional "content" (Particle.ofJsonWithin bound)
      extension := ← record.optional "extension" (Extension.ofJsonWithin bound)
      simpleContent := ← record.optional "simple_content" SimpleContent.ofJson
      container := none }

def Extension.ofJsonWithin : Nat → Json → Decoded Extension
  | 0, _ => .error (.unexpected "a shallower value")
  | bound + 1, value => do
    let record ← Record.ofJson Extension.outline.keys value
    return {
      base := ← record.required "base" Json.asString
      attributes := ← record.defaulted "attributes" [] (Json.asList AttributeItem.ofJson)
      content := ← record.optional "content" (Particle.ofJsonWithin bound) }

def Particle.ofJsonWithin : Nat → Json → Decoded Particle
  | 0, _ => .error (.unexpected "a shallower value")
  | bound + 1, value => do
    let (kind, value) ← Json.variant "kind" value
    match kind with
    | "element" => return .element (← Element.ofJsonWithin bound value)
    | "sequence" => compositorOfJsonWithin bound .sequence value
    | "choice" => compositorOfJsonWithin bound .choice value
    | "group" =>
      let record ← Record.ofJson ["ref", "min_occurs", "max_occurs"] value
      return .group (← record.required "ref" Json.asString) (← Occurs.ofRecord record)
    | "any" => return .any (← Wildcard.ofJson value)
    | _ => throw (.unexpected "a particle")

def compositorOfJsonWithin : Nat → Compositor → Json → Decoded Particle
  | 0, _, _ => .error (.unexpected "a shallower value")
  | bound + 1, kind, value => do
    let record ← Record.ofJson ["min_occurs", "max_occurs", "particles"] value
    let occurs ← Occurs.ofRecord record
    let parts ← record.defaulted "particles" [] (Json.asList (Particle.ofJsonWithin bound))
    return .compositor kind occurs parts

def Element.ofJsonWithin : Nat → Json → Decoded Element
  | 0, _ => .error (.unexpected "a shallower value")
  | bound + 1, value => do
    let record ← Record.ofJson Element.outline.keys value
    return {
      name := ← record.optional "name" Json.asString
      reference := ← record.optional "ref" Json.asString
      typeName := ← record.optional "type" Json.asString
      complexType := ← record.optional "complex_type" (ComplexType.ofJsonWithin bound)
      simpleType := ← record.optional "simple_type" SimpleType.ofJson
      occurs := ← Occurs.ofRecord record
      defaultText := ← record.optional "default" Json.asString
      fixedText := ← record.optional "fixed" Json.asString
      documentation := ← record.optional "documentation" Json.asString }

end

/-- Two decoding steps are taken at most for each level of a value. -/
def decodingBound (value : Json) : Nat := 2 * value.height + 2

def ComplexType.ofJson (value : Json) : Decoded ComplexType :=
  ComplexType.ofJsonWithin (decodingBound value) value

def Particle.ofJson (value : Json) : Decoded Particle :=
  Particle.ofJsonWithin (decodingBound value) value

def Element.ofJson (value : Json) : Decoded Element :=
  Element.ofJsonWithin (decodingBound value) value

namespace AttributeGroup

def toJson (group : AttributeGroup) : Json :=
  .obj [("name", .str group.name), ("attributes", .arr (group.attributes.map AttributeItem.toJson))]

def outline : Outline := .ofKeys ["name", "attributes"]

def ofJson (value : Json) : Decoded AttributeGroup := do
  let record ← Record.ofJson outline.keys value
  return {
    name := ← record.required "name" Json.asString
    attributes := ← record.defaulted "attributes" [] (Json.asList AttributeItem.ofJson) }

end AttributeGroup

namespace ModelGroup

def toJson (group : ModelGroup) : Json :=
  .obj [("name", .str group.name), ("particle", group.particle.toJson)]

def outline : Outline := .ofKeys ["name", "particle"]

def ofJson (value : Json) : Decoded ModelGroup := do
  let record ← Record.ofJson outline.keys value
  return {
    name := ← record.required "name" Json.asString
    particle := ← record.required "particle" Particle.ofJson }

end ModelGroup

namespace Import

def toJson (self : Import) : Json :=
  .obj [("namespace", .ofOption .str self.space), ("location", .str self.location)]

def outline : Outline := .ofKeys ["namespace", "location"]

def ofJson (value : Json) : Decoded Import := do
  let record ← Record.ofJson outline.keys value
  return {
    space := ← record.optional "namespace" Json.asString
    location := ← record.required "location" Json.asString }

end Import

namespace Document

def toJson (document : Document) : Json :=
  .obj [
    ("namespaces", .obj (document.namespaces.map fun (bound, uri) => (bound, .str uri))),
    ("imports", .arr (document.imports.map Import.toJson)),
    ("complex_types", .arr (document.complexTypes.map ComplexType.toJson)),
    ("simple_types", .arr (document.simpleTypes.map SimpleType.toJson)),
    ("elements", .arr (document.elements.map Element.toJson)),
    ("attributes", .arr (document.attributes.map Attribute.toJson)),
    ("attribute_groups", .arr (document.attributeGroups.map AttributeGroup.toJson)),
    ("groups", .arr (document.groups.map ModelGroup.toJson))]

def outline : Outline :=
  .record [
    ("namespaces", .whole),
    ("imports", .list Import.outline),
    ("complex_types", .list ComplexType.outline),
    ("simple_types", .list SimpleType.outline),
    ("elements", .list Element.outline),
    ("attributes", .list Attribute.outline),
    ("attribute_groups", .list AttributeGroup.outline),
    ("groups", .list ModelGroup.outline)]

def ofJson (value : Json) : Decoded Document := do
  let record ← Record.ofJson outline.keys value
  return {
    namespaces := ← record.defaulted "namespaces" [] Json.asStringMap
    imports := ← record.defaulted "imports" [] (Json.asList Import.ofJson)
    complexTypes := ← record.defaulted "complex_types" [] (Json.asList ComplexType.ofJson)
    simpleTypes := ← record.defaulted "simple_types" [] (Json.asList SimpleType.ofJson)
    elements := ← record.defaulted "elements" [] (Json.asList Element.ofJson)
    attributes := ← record.defaulted "attributes" [] (Json.asList Attribute.ofJson)
    attributeGroups := ← record.defaulted "attribute_groups" [] (Json.asList AttributeGroup.ofJson)
    groups := ← record.defaulted "groups" [] (Json.asList ModelGroup.ofJson) }

/-- Reads a document from its text. -/
def ofText (text : String) : Result Document :=
  match Json.parseAs? outline text with
  | none => .error .malformedJson
  | some value =>
    match ofJson value with
    | .ok document => .ok document
    | .error _ => .error .malformedJson

end Document

end EntityGraph.Schema
