import EntityGraph.Proofs.Build.LoggedRuns
import EntityGraph.Proofs.Graph.Inheritance
import EntityGraph.Proofs.Graph.Stems
import EntityGraph.Proofs.Schema.Types

/-!
# The logs behind entities

Every entity that has been built comes from one run for its type path, and what was added afterwards
refers back to owners. So its columns are those that come of a log: of the fields that the members
of its type unfold to, in their order, among others that come from no member.
-/
namespace EntityGraph

open Compile
open Schema (ComplexType Index)

namespace Compile

/-- What refers back may be added to what a run leaves. -/
def RunLog.grow {index : Index} {settings : Settings} {rules : FieldRules}
    {type : Option ComplexType} {fields later : List Field}
    (log : RunLog index settings rules type fields) (backs : List Offer)
    (refer : ∀ back ∈ backs, back.occurrence = none ∧ back.field.refersBack = true)
    (columns : columnsOf later = offeredColumns (log.offers ++ backs)) (kept : fields ⊆ later) :
    RunLog index settings rules type later where
  events := log.events
  offers := log.offers ++ backs
  unfolds := log.unfolds
  members := by
    have none : backs.filterMap (·.occurrence) = [] :=
      List.filterMap_eq_nil_iff.mpr fun back member => (refer back member).1
    rw [List.filterMap_append, none, List.append_nil, log.members]
  isField offer member occurrence has := by
    rcases List.mem_append.mp member with own | back
    · exact log.isField offer own occurrence has
    · rw [(refer offer back).1] at has
      cases has
  other offer member has := by
    rcases List.mem_append.mp member with own | back
    · exact log.other offer own has
    · exact .back (refer offer back).2
  columns := columns
  bag bag recorded wanted :=
    (log.bag bag recorded wanted).imp fun _ ⟨member, holds⟩ => ⟨kept member, holds⟩

theorem RunLog.exists_grown {index : Index} {settings : Settings} {rules : FieldRules}
    {type : Option ComplexType} {fields later : List Field}
    (log : RunLog index settings rules type fields) (adds : AddsBacks fields later)
    (distinct : (materializedNames later).Nodup) :
    Nonempty (RunLog index settings rules type later) := by
  obtain ⟨backs, refer, columns⟩ := OnlyBacks.offered ⟨adds, fun _ => distinct⟩ log.columns
  obtain ⟨_, rfl, _⟩ := adds
  refine ⟨log.grow (backs.map (⟨·, none⟩)) (fun offer member => ?_) columns
    (List.subset_append_left _ _)⟩
  obtain ⟨back, inBacks, rfl⟩ := List.mem_map.mp member
  exact ⟨rfl, refer back inBacks⟩

end Compile

/-- The type that a type path stands for is a known one. For a plain path it is the one that the
index has under it, or one that bears its name. -/
structure IsTypeAt (index : Index) (settings : Settings) (path : String) (type : ComplexType) :
    Prop where
  known : Reached index (IsRootType index settings) type
  declared : IsPlainPath index settings path →
    index.complexType? path = some type ∨ type.name = some path

theorem IsTypeAt.mem_types {index : Index} {settings : Settings} {path : String}
    {type : ComplexType} (isType : IsTypeAt index settings path type) : type ∈ index.types := by
  have reached := isType.known
  clear isType
  induction reached with
  | start root =>
    obtain ⟨selector, _, path, gives⟩ := root
    exact Index.mem_types_of_root gives
  | named found => exact Index.mem_types_of_complexType? found
  | inline _ has inside own known =>
    exact Index.HasElement.mem_types_of_inline ⟨_, known, _, has, inside⟩ own
  | lineage _ member known => exact Index.mem_types_of_lineage known member

/-- Where no other type bears the name, it is the type that the index has under the path. -/
theorem IsTypeAt.eq_declared {index : Index} {settings : Settings} {path : String}
    {type declared : ComplexType} (isType : IsTypeAt index settings path type)
    (plain : IsPlainPath index settings path) (found : index.complexType? path = some declared)
    (named : declared.name = some path) (distinct : (index.types.map (·.name)).Nodup) :
    type = declared := by
  rcases isType.declared plain with same | own
  · exact Option.some.inj (same.symm.trans found)
  · exact List.inj_on_of_nodup_map distinct isType.mem_types
      (Index.mem_types_of_complexType? found) (own.trans named.symm)

/-- Paths without dots are plain if no root is given by an element. -/
theorem isPlainPath_of_typeRoots {index : Index} {settings : Settings} {path : String}
    (plain : '.' ∉ path.toList)
    (roots : ∀ selector ∈ settings.compiler.roots, Text.dropStart? "/" selector = none) :
    IsPlainPath index settings path := by
  refine ⟨plain, fun selector inRoots name isElement => ?_⟩
  rw [roots selector inRoots] at isElement
  cases isElement

namespace Stages

variable {index : Index} {settings : Settings} {graph : Graph} {levels : Nat}

/-- The rules of a type path, and the type whose members become fields there. An entity whose fields
all come from the settings has none. -/
structure Reads (stages : Stages index settings graph levels) (entity path : String)
    (rules : FieldRules) (type : Option ComplexType) : Prop where
  read : stages.book.forType entity path = .ok rules
  walks : if rules.isCustom then type = none
    else ∃ own, type = some own ∧ IsTypeAt index settings path own

theorem Reads.mem_types {stages : Stages index settings graph levels} {entity path : String}
    {rules : FieldRules} {type : Option ComplexType} (reads : stages.Reads entity path rules type)
    (own : ComplexType) (has : type = some own) : own ∈ index.types := by
  have walks := reads.walks
  split at walks
  · exact absurd (walks.symm.trans has) nofun
  · obtain ⟨known, is_, isType⟩ := walks
    obtain rfl := Option.some.inj (is_.symm.trans has)
    exact isType.mem_types

theorem Reads.eq_declared {stages : Stages index settings graph levels} {entity path : String}
    {rules : FieldRules} {type : Option ComplexType} {declared : ComplexType}
    (reads : stages.Reads entity path rules type) (own : rules.isCustom = false)
    (plain : IsPlainPath index settings path) (found : index.complexType? path = some declared)
    (named : declared.name = some path) (distinct : (index.types.map (·.name)).Nodup) :
    type = some declared := by
  have walks := reads.walks
  rw [if_neg (by simp [own])] at walks
  obtain ⟨known, rfl, isType⟩ := walks
  exact congrArg some (isType.eq_declared plain found named distinct)

/-- Whatever has been built for a type path has a log. -/
theorem exists_log (stages : Stages index settings graph levels) {path : String} {built : Entity}
    (found : stages.state.entities.get? path = some built) :
    ∃ rules type, stages.Reads built.name path rules type ∧
      Nonempty (RunLog index settings rules type built.fields) := by
  obtain ⟨roots, names, stemming⟩ := build_stemming (.reached index (IsRootType index settings))
    (fun selector inRoots root gives => .start ⟨selector, inRoots, root.1, gives⟩) stages.built
  obtain ⟨construction⟩ := stages.construction
  have ofPath : (nameOf names path).entity = built.name :=
    (stemming.tracked.named ▸ stemming.tracked.wellFormed.named path built found).symm
  obtain ⟨given, stems⟩ :=
    (stemming.stems path (State.isBuilt_iff.mpr ⟨built, found⟩)).resolve_left List.not_mem_nil
  rw [State.fieldsAt_of_get? found] at stems
  obtain ⟨levels, before, after, run, _, unbagged, adds⟩ := stems.run
  obtain ⟨rules, type, read, walks, ⟨log⟩⟩ := run.exists_log unbagged
  refine ⟨rules, type, ⟨ofPath ▸ read, ?_⟩,
    log.exists_grown adds (construction.distinctFields path built found)⟩
  rw [FieldRules.Walks] at walks
  split at walks
  next custom => rwa [if_pos custom]
  next typed =>
    rw [if_neg typed]
    obtain ⟨own, rfl, defines⟩ := walks
    refine ⟨own, rfl, ?_⟩
    rcases defines with rfl | ⟨_, declared⟩
    · exact ⟨(stems.comes own rfl).1, (stems.comes own rfl).2⟩
    · exact ⟨.named declared, fun _ => .inl declared⟩

end Stages

end EntityGraph
