import EntityGraph.Proofs.Graph.Logs
import EntityGraph.Proofs.Graph.Repeats

/-!
# What bags record

The bag of a type path takes in the entries of everything that its rules keep there, one after the
other. No path of an entry is ever lost, but its documentation is that of the last entry: an earlier
one stays only as far as the last one repeats it.
-/
namespace EntityGraph

namespace Compile

open Schema (ComplexType Index)

/-! ## Recordings -/

/-- The entries that are recorded, in order. -/
def recordings (index : Index) (rules : FieldRules) (events : List Event) :
    List (String × String) :=
  (events.filterMap (Event.entries? index rules)).flatten

/-- The documentation of the last entry with the key. -/
def lastDoc? (entries : List (String × String)) (key : String) : Option String :=
  (entries.reverse.find? (·.1 == key)).map (·.2)

theorem lastDoc?_append (entries more : List (String × String)) (key : String) :
    lastDoc? (entries ++ more) key = (lastDoc? more key).or (lastDoc? entries key) := by
  rw [lastDoc?, List.reverse_append, List.find?_append, Option.map_or]
  rfl

theorem lastDoc?_isSome {entries : List (String × String)} {key : String} :
    (lastDoc? entries key).isSome = true ↔ key ∈ entries.map (·.1) := by
  simp [lastDoc?, List.find?_isSome]

/-- Entries that are put into a bag replace those that are there. -/
theorem get?_override (bag : Bag) (entries : List (String × String)) (key : String) :
    (Bag.override bag entries).get? key = (lastDoc? entries key).or (bag.get? key) := by
  induction entries using List.reverseRecOn with
  | nil => rfl
  | append_singleton entries entry ih =>
    obtain ⟨path, doc⟩ := entry
    have last : Bag.override bag (entries ++ [(path, doc)]) =
        (Bag.override bag entries).set path doc := by
      simp [Bag.override]
    rw [last, lastDoc?_append, Table.get?_set, ih]
    by_cases same : key = path
    · simp [lastDoc?, same]
    · have other : (path == key) = false := beq_false_of_ne fun eq => same eq.symm
      simp [lastDoc?, same, other]

theorem foldl_addEntries (bags : List Bag) (begun : Bag) :
    bags.foldl addEntries (some begun) = some (begun.override bags.flatten) := by
  induction bags generalizing begun with
  | nil => rfl
  | cons bag rest ih =>
    rw [List.foldl_cons, addEntries, Option.getD_some, ih, List.flatten_cons]
    simp [Bag.override]

/-- The bag of events that record anything: the documentation of a key is that of its last entry. -/
theorem exists_recordedBag {index : Index} {rules : FieldRules} {events : List Event}
    (recorded : recordings index rules events ≠ []) :
    ∃ bag, recordedBag index rules events = some bag ∧
      ∀ key, bag.get? key = lastDoc? (recordings index rules events) key := by
  rw [recordings] at recorded ⊢
  rw [recordedBag]
  cases bags : events.filterMap (Event.entries? index rules) with
  | nil =>
    rw [bags] at recorded
    exact absurd rfl recorded
  | cons bag rest =>
    refine ⟨_, foldl_addEntries rest (Bag.override [] bag), fun key => ?_⟩
    rw [get?_override, get?_override, List.flatten_cons, lastDoc?_append]
    simp [Table.get?]

/-- An entry that is recorded last of its key, or before others of it, is documented as the last
one. -/
theorem lastDoc?_of_split (before after : List (String × String)) (key doc : String) :
    lastDoc? (before ++ (key, doc) :: after) key = some ((lastDoc? after key).getD doc) := by
  rw [List.append_cons, lastDoc?_append, lastDoc?_append]
  cases lastDoc? after key with
  | none => simp [lastDoc?]
  | some last => rfl

/-- The bag that comes of a log has all that was recorded. -/
theorem RunLog.exists_bag {index : Index} {settings : Settings} {rules : FieldRules}
    {type : Option ComplexType} {fields : List Field}
    (log : RunLog index settings rules type fields)
    (kept : rules.dropAfterProcessing.contains settings.compiler.bagFieldName = false)
    (recorded : recordings index rules log.events ≠ []) :
    ∃ field ∈ fields, field.name = settings.compiler.bagFieldName ∧
      ∃ bag, field.kind = .jsonBag bag ∧
        ∀ key, bag.get? key = lastDoc? (recordings index rules log.events) key := by
  obtain ⟨bag, isBag, docs⟩ := exists_recordedBag recorded
  obtain ⟨field, member, name, kind⟩ := log.bag bag isBag kept
  exact ⟨field, member, name, bag, kind, docs⟩

end Compile

open Compile
open Schema (ComplexType Index Wildcard)

/-- Unless its field is left out, the bag of a type path has every key that was recorded, with the
documentation of its last entry. So what was recorded under a key is contained there exactly if no
later entry has the key, or the last one that has it contains it as well. -/
theorem recorded_doc_contained_iff {index : Index} {settings : Settings} {graph : Graph}
    {levels : Nat} (compiled : compile index settings levels = .ok graph) :
    ∃ stages : Stages index settings graph levels, ∀ path built,
      stages.state.entities.get? path = some built → ∃ rules type,
        stages.Reads built.name path rules type ∧
        ∃ log : RunLog index settings rules type built.fields,
          rules.dropAfterProcessing.contains settings.compiler.bagFieldName = false →
          ∀ before key doc after,
            recordings index rules log.events = before ++ (key, doc) :: after →
            ∃ field ∈ built.fields, field.name = settings.compiler.bagFieldName ∧
              ∃ bag final, field.kind = .jsonBag bag ∧ bag.get? key = some final ∧
                final = (lastDoc? after key).getD doc ∧
                (doc.toList <:+: final.toList ↔
                  ∀ last, lastDoc? after key = some last → doc.toList <:+: last.toList) := by
  obtain ⟨stages⟩ := exists_stages compiled
  refine ⟨stages, fun path built found => ?_⟩
  obtain ⟨rules, type, reads, ⟨log⟩⟩ := stages.exists_log found
  refine ⟨rules, type, reads, log, fun kept before key doc after split => ?_⟩
  obtain ⟨field, member, name, bag, kind, docs⟩ := log.exists_bag kept (by simp [split])
  refine ⟨field, member, name, bag, _, kind, ?_, rfl, ?_⟩
  · rw [docs, split, lastDoc?_of_split]
  · cases lastDoc? after key with
    | none => simp
    | some last => simp

/-- The entries of a bag. -/
def FieldKind.bag? : FieldKind → Option Bag
  | .jsonBag entries => some entries
  | _ => none

/-- The bags of a graph. -/
def Graph.bags (graph : Graph) : List Bag :=
  graph.entities.flatMap fun entity => entity.fields.filterMap (·.kind.bag?)

/-! ## Wildcards -/

def documentedWildcard (doc : String) : Wildcard := ⟨none, some doc, .once⟩

/-- Owners whose content may be anything, which is documented in two ways. -/
def wildcardOwners (first second : String) : Index :=
  { (default : Index) with
    complexTypes := [("Owner", ⟨some "Owner", false, none, [],
      some (.compositor .sequence .once
        [.any (documentedWildcard first), .any (documentedWildcard second)]),
      none, none, none⟩)] }

/-- What their content leads to. -/
def wildcardEvents (first second : String) : List Event :=
  let inside := Location.outermost.within (.compositor .sequence .once)
  [.wildcard inside (documentedWildcard first), .wildcard inside (documentedWildcard second)]

section

variable {first second : String}

theorem unfolds_wildcardOwners :
    Unfolds (wildcardOwners first second) .plain .outermost
      (FieldRules.plain.runParts (wildcardOwners first second)
        ((wildcardOwners first second).complexType? "Owner"))
      (wildcardEvents first second) := by
  have parts : FieldRules.plain.runParts (wildcardOwners first second)
      ((wildcardOwners first second).complexType? "Owner") =
        [.content (.compositor .sequence .once
          [.any (documentedWildcard first), .any (documentedWildcard second)])] := by rfl
  rw [parts]
  have inside (location : Location) : Unfolds (wildcardOwners first second) .plain location
      ([.any (documentedWildcard first), .any (documentedWildcard second)].map .content) _ :=
    .wildcard (.wildcard .nil)
  exact .compositor (inside _) .nil

/-- Both wildcards are recorded under one key. -/
theorem recordings_wildcardEvents :
    recordings (wildcardOwners first second) .plain (wildcardEvents first second) =
      [("*", Text.Documentation.normalize first), ("*", Text.Documentation.normalize second)] := by
  simp [recordings, wildcardEvents, Event.entries?, wildcardEntries, wildcardDoc,
    documentedWildcard, Location.within, Location.outermost]

theorem events_of_wildcardOwners {graph : Graph} {entity : String} {rules : FieldRules}
    {type : Option ComplexType} {fields : List Field}
    {stages : Stages (wildcardOwners first second) (settingsOf ["Owner"]) graph}
    (reads : stages.Reads entity "Owner" rules type)
    (log : RunLog (wildcardOwners first second) (settingsOf ["Owner"]) rules type fields) :
    rules = .plain ∧ log.events = wildcardEvents first second := by
  obtain rfl : rules = .plain :=
    Except.ok.inj (reads.read.symm.trans (forType_of_settingsOf stages.book_read entity "Owner"))
  obtain rfl := reads.eq_declared rfl (isPlainPath_of_typeRoots (by decide) (by decide)) rfl rfl
    (List.nodup_singleton (some "Owner"))
  exact ⟨rfl, log.unfolds.unique unfolds_wildcardOwners⟩

end

/-- Where the second documentation contains the first one, the bag has both. -/
theorem recorded_doc_contained_iff_of_wildcards :
    let index := wildcardOwners "known" "known and unknown"
    ∃ graph, compile index (settingsOf ["Owner"]) = .ok graph ∧
      ∃ (stages : Stages index (settingsOf ["Owner"]) graph) (built : Entity),
        stages.state.entities.get? "Owner" = some built ∧
        ∃ field ∈ built.fields, ∃ bag final, field.kind = .jsonBag bag ∧
          bag.get? "*" = some final ∧ "known".toList <:+: final.toList := by
  intro index
  have evaluated : (compile index (settingsOf ["Owner"])).toOption.map
      (·.entities.any (·.sourceTypes == ["Owner"])) = some true := by decide
  obtain ⟨graph, compiled, seen⟩ := Result.exists_ok_of_map evaluated
  obtain ⟨entity, inGraph, single⟩ := List.any_eq_true.mp seen
  obtain ⟨stages, all⟩ := recorded_doc_contained_iff compiled
  obtain ⟨built, found, _, _⟩ := stages.grownEntity_of_single inGraph (beq_iff_eq.mp single)
  obtain ⟨rules, type, reads, log, contained⟩ := all _ _ found
  obtain ⟨rfl, events⟩ := events_of_wildcardOwners reads log
  have texts : Text.Documentation.normalize "known" = "known" ∧
      Text.Documentation.normalize "known and unknown" = "known and unknown" := by decide
  have recorded := @recordings_wildcardEvents "known" "known and unknown"
  rw [texts.1, texts.2, ← events] at recorded
  obtain ⟨field, member, _, bag, final, kind, has, _, iff⟩ :=
    contained (by decide +kernel) [] _ _ _ recorded
  refine ⟨graph, compiled, stages, built, found, field, member, bag, final, kind, has,
    iff.mpr fun last isLast => ?_⟩
  obtain rfl : "known and unknown" = last := Option.some.inj isLast
  decide

/-- The documentation of the first wildcard is lost. -/
theorem first_wildcard_doc_lost :
    let index := wildcardOwners "first" "second"
    (∃ events, Unfolds index .plain .outermost
        (FieldRules.plain.runParts index (index.complexType? "Owner")) events ∧
      recordings index .plain events = [("*", "first"), ("*", "second")]) ∧
    ∃ graph, compile index (settingsOf ["Owner"]) = .ok graph ∧
      graph.bags = [[("*", "second")]] ∧
      ¬"first".toList <:+: "second".toList := by
  intro index
  refine ⟨⟨_, unfolds_wildcardOwners, ?_⟩, ?_⟩
  · have texts : Text.Documentation.normalize "first" = "first" ∧
        Text.Documentation.normalize "second" = "second" := by decide
    have recorded := @recordings_wildcardEvents "first" "second"
    rwa [texts.1, texts.2] at recorded
  · have evaluated : (compile index (settingsOf ["Owner"])).toOption.map Graph.bags =
        some [[("*", "second")]] := by decide
    obtain ⟨graph, compiled, bags⟩ := Result.exists_ok_of_map evaluated
    exact ⟨graph, compiled, bags, by decide⟩

end EntityGraph
