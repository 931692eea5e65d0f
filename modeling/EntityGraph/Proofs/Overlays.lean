import EntityGraph.Proofs.Json.Keys
import EntityGraph.Proofs.Lists
import EntityGraph.Proofs.Options

/-!
# Overlays

The patterns of the overlays are read once, for each name of an entity, and later paired by position
with the overlays of the record that is found under that name. The record is the first of its name,
the patterns are those of the last one. Where they agree, each overlay is tested by its own pattern,
and the rules of a type path are those of its record, of the overlays that apply to it, and of the
options of all entities. Earlier lookups do not change an answer.
-/
namespace EntityGraph

/-- Whether the pattern of an overlay matches all of a type path. -/
def TypeOverlay.applies (overlay : TypeOverlay) (typePath : String) : Bool :=
  match Pattern.whole overlay.pattern with
  | .ok pattern => pattern.isMatch typePath
  | .error _ => false

theorem TypeOverlay.applies_eq {overlay : TypeOverlay} {pattern : Pattern}
    (read : Pattern.whole overlay.pattern = .ok pattern) (typePath : String) :
    overlay.applies typePath = pattern.isMatch typePath := by
  rw [applies, read]

namespace EntityRules

def overlayTexts (rules : EntityRules) : List String := rules.overlays.map (·.pattern)

/-- The options of an entity under those of each overlay that applies to a type path, the later
ones above the earlier. -/
def optionsAt (rules : EntityRules) (typePath : String) : EntityOptions :=
  (rules.overlays.filter (·.applies typePath)).foldl
    (fun options overlay => .layered overlay.options options) rules.options

end EntityRules

namespace Settings

/-- The options of an entity at a type path, without those of all entities. -/
def optionsAt (settings : Settings) (entity typePath : String) : EntityOptions :=
  match settings.entityRules? entity with
  | some rules => rules.optionsAt typePath
  | none => .none

/-- The last record of an entity. -/
def lastRules? (settings : Settings) (entity : String) : Option EntityRules :=
  settings.entities.reverse.find? (·.name == entity)

/-- The patterns of the last record of an entity begin with those of the first one. That is so if
there is one record only. -/
def KeepsOverlays (settings : Settings) (entity : String) : Prop :=
  ∀ rules ∈ settings.entityRules? entity, ∀ last ∈ settings.lastRules? entity,
    rules.overlayTexts <+: last.overlayTexts

instance (settings : Settings) (entity : String) : Decidable (settings.KeepsOverlays entity) :=
  inferInstanceAs (Decidable (∀ rules ∈ settings.entityRules? entity,
    ∀ last ∈ settings.lastRules? entity, rules.overlayTexts <+: last.overlayTexts))

theorem exists_lastRules? {settings : Settings} {entity : String} {rules : EntityRules}
    (found : settings.entityRules? entity = some rules) :
    ∃ last, settings.lastRules? entity = some last := by
  have member : rules ∈ settings.entities.reverse :=
    List.mem_reverse.mpr (List.mem_of_find?_eq_some found)
  have named := @List.find?_some _ (fun (rules : EntityRules) => rules.name == entity) _ _ found
  exact Option.isSome_iff_exists.mp (List.find?_isSome.mpr ⟨rules, member, named⟩)

end Settings

namespace Compile

/-! ## The patterns that are kept -/

theorem overlayPattern_whole {overlay : TypeOverlay} {pattern : Pattern}
    (read : RuleBook.overlayPattern overlay = .ok pattern) :
    Pattern.whole overlay.pattern = .ok pattern := by
  obtain ⟨_, _, read⟩ := Result.bind_eq_ok.mp read
  exact read

/-- The name of a record, with its patterns in the order of its overlays. -/
theorem entityPatterns_spec {rules : EntityRules} {entry : String × List Pattern}
    (read : RuleBook.entityPatterns rules = .ok entry) :
    entry.1 = rules.name ∧
      List.Forall₂ (fun text pattern => Pattern.whole text = .ok pattern) rules.overlayTexts
        entry.2 := by
  obtain ⟨_, _, read⟩ := Result.bind_eq_ok.mp read
  obtain ⟨patterns, mapped, read⟩ := Result.bind_eq_ok.mp read
  obtain rfl := Result.pure_eq_ok.mp read
  refine ⟨rfl, ?_⟩
  rw [EntityRules.overlayTexts, List.forall₂_map_left_iff]
  exact (Result.forall₂_of_mapM mapped).imp fun _ _ => overlayPattern_whole

/-- The patterns kept under a name are those of the last record of that name. -/
theorem overlays_get? {settings : Settings} {book : RuleBook}
    (read : RuleBook.ofSettings settings = .ok book) {entity : String} {last : EntityRules}
    (found : settings.lastRules? entity = some last) :
    ∃ patterns, book.overlays.get? entity = some patterns ∧
      List.Forall₂ (fun text pattern => Pattern.whole text = .ok pattern) last.overlayTexts
        patterns := by
  obtain ⟨_, _, read⟩ := Result.bind_eq_ok.mp read
  obtain ⟨entries, mapped, read⟩ := Result.bind_eq_ok.mp read
  obtain rfl := Result.pure_eq_ok.mp read
  have records := (Result.forall₂_of_mapM mapped).imp fun _ _ => entityPatterns_spec
  have sameName (rules : EntityRules) (entry : String × List Pattern)
      (same : entry.1 = rules.name ∧ List.Forall₂
        (fun text pattern => Pattern.whole text = .ok pattern) rules.overlayTexts entry.2) :
      (entry.1 == entity) = (rules.name == entity) := by rw [same.1]
  obtain ⟨entry, entryFound, _, patterns⟩ :=
    Pointwise.find?_right sameName (List.forall₂_reverse_iff.mpr records) found
  exact ⟨entry.2, by rw [Json.get?_ofList, Json.lastOf, entryFound]; rfl, patterns⟩

/-! ## Laying overlays over the options -/

/-- Overlays that are tested by their own patterns. -/
theorem overlaid_eq {texts : List String} {patterns : List Pattern}
    (read : List.Forall₂ (fun text pattern => Pattern.whole text = .ok pattern) texts patterns)
    {overlays : List TypeOverlay} (own : overlays.map (·.pattern) <+: texts) (typePath : String)
    (options : EntityOptions) :
    (overlays.zip patterns).foldl
        (fun options (overlay, pattern) =>
          if pattern.isMatch typePath then .layered overlay.options options else options)
        options =
      (overlays.filter (·.applies typePath)).foldl
        (fun options overlay => .layered overlay.options options) options := by
  induction overlays generalizing texts patterns options with
  | nil => rfl
  | cons overlay rest ih =>
    rw [List.map_cons] at own
    -- There is a pattern for the overlay, as its text is the next one that has been read.
    cases read with
    | nil => exact absurd (List.prefix_nil.mp own) (List.cons_ne_nil _ _)
    | @cons text pattern texts patterns first others =>
      obtain ⟨rfl, ownRest⟩ := List.cons_prefix_cons.mp own
      rw [List.zip_cons_cons, List.foldl_cons, ih others ownRest, List.filter_cons,
        TypeOverlay.applies_eq first]
      by_cases applies : pattern.isMatch typePath = true
      · simp only [applies, if_true, List.foldl_cons]
      · simp only [applies, Bool.false_eq_true, if_false]

theorem entityOptions_eq {settings : Settings} {book : RuleBook}
    (read : RuleBook.ofSettings settings = .ok book) {entity : String}
    (kept : settings.KeepsOverlays entity) (typePath : String) :
    book.entityOptions entity typePath = settings.optionsAt entity typePath := by
  rw [RuleBook.entityOptions, Settings.optionsAt, ofSettings_settings read]
  cases found : settings.entityRules? entity with
  | none => rfl
  | some rules =>
    obtain ⟨last, lastFound⟩ := Settings.exists_lastRules? found
    obtain ⟨patterns, stored, readTexts⟩ := overlays_get? read lastFound
    simp only [stored, Option.getD_some]
    exact overlaid_eq readTexts (kept rules found last lastFound) typePath rules.options

theorem forType_eq {settings : Settings} {book : RuleBook}
    (read : RuleBook.ofSettings settings = .ok book) {entity : String}
    (kept : settings.KeepsOverlays entity) (typePath : String) :
    book.forType entity typePath =
      FieldRules.ofOptions (.layered (settings.optionsAt entity typePath) settings.global) := by
  rw [RuleBook.forType, entityOptions_eq read kept, ofSettings_settings read]

/-! ## Nothing fails late -/

/-- Every text is a pattern. -/
def ReadsAll (texts : List String) : Prop :=
  ∀ text ∈ texts, ∃ pattern, Pattern.whole text = .ok pattern

/-- The lists of texts that options give as patterns. -/
def patternTexts (options : EntityOptions) : List (List String) :=
  [options.dropFields, options.dropAfterProcessingFields, options.flattenFields,
    options.arrayFields, options.manyToManyFields, options.oneToManyFields, options.oneToOneFields,
    options.jsonFields, options.referenceExtensionFields, options.nullFields, options.uniqueFields,
    options.indexFields, options.ignoreMergeMismatchFields, options.rename.map (·.pattern),
    options.coalesceFields.map (·.pattern)]

def Readable (options : EntityOptions) : Prop := ∀ texts ∈ patternTexts options, ReadsAll texts

theorem readsAll_iff {texts : List String} :
    ReadsAll texts ↔ ∃ set, PatternSet.ofTexts texts = .ok set := by
  constructor
  · intro each
    obtain ⟨patterns, mapped⟩ := Result.exists_mapM_eq_ok each
    exact ⟨⟨patterns⟩, by rw [PatternSet.ofTexts, mapped]; rfl⟩
  · rintro ⟨set, read⟩ text member
    obtain ⟨patterns, mapped, _⟩ := Result.bind_eq_ok.mp read
    obtain ⟨pattern, _, read⟩ := Pointwise.exists_right (Result.forall₂_of_mapM mapped) member
    exact ⟨pattern, read⟩

theorem readsAll_patterns_iff {substitutions : List Substitution} :
    ReadsAll (substitutions.map (·.pattern)) ↔
      ∃ list, SubstitutionList.ofSubstitutions substitutions = .ok list := by
  constructor
  · intro each
    obtain ⟨rules, mapped⟩ := @Result.exists_mapM_eq_ok _ _
      (fun substitution => do
        return (⟨← Pattern.whole substitution.pattern, substitution.replacement⟩ :
          SubstitutionRule)) substitutions (by
      intro substitution member
      obtain ⟨pattern, read⟩ := each _ (List.mem_map_of_mem member)
      exact ⟨⟨pattern, substitution.replacement⟩, by rw [read]; rfl⟩)
    exact ⟨⟨rules⟩, by rw [SubstitutionList.ofSubstitutions, mapped]; rfl⟩
  · rintro ⟨list, read⟩ text member
    obtain ⟨rules, mapped, _⟩ := Result.bind_eq_ok.mp read
    obtain ⟨substitution, inList, rfl⟩ := List.mem_map.mp member
    obtain ⟨_, _, read⟩ := Pointwise.exists_right (Result.forall₂_of_mapM mapped) inList
    obtain ⟨pattern, read, _⟩ := Result.bind_eq_ok.mp read
    exact ⟨pattern, read⟩

/-- Options become rules exactly if all their patterns can be read. -/
theorem readable_iff {options : EntityOptions} :
    Readable options ↔ ∃ rules, FieldRules.ofOptions options = .ok rules := by
  simp only [Readable, patternTexts, List.forall_mem_cons, readsAll_patterns_iff]
  simp only [readsAll_iff, List.not_mem_nil, false_imp_iff, implies_true, and_true,
    FieldRules.ofOptions, Result.exists_bind_eq_ok, Result.pure_eq_ok, exists_eq', exists_and_right]

theorem ReadsAll.union {α : Type} [BEq α] {text : α → String} {primary fallback : List α}
    (upper : ReadsAll (primary.map text)) (lower : ReadsAll (fallback.map text)) :
    ReadsAll ((EntityOptions.union primary fallback).map text) := by
  intro given member
  obtain ⟨item, inUnion, rfl⟩ := List.mem_map.mp member
  rcases EntityOptions.mem_union inUnion with own | other
  · exact upper _ (List.mem_map_of_mem own)
  · exact lower _ (List.mem_map_of_mem other)

/-- Options that can be read are still so when they are laid over each other. -/
theorem readable_layers : Layers Readable where
  none := readable_iff.mpr ⟨_, rfl⟩
  layered {primary fallback} upper lower := by
    have texts {first second : List String} (own : ReadsAll first) (other : ReadsAll second) :
        ReadsAll (EntityOptions.union first second) := by
      intro given member
      exact (EntityOptions.mem_union member).elim (own given) (other given)
    simp only [Readable, patternTexts, List.forall_mem_cons] at upper lower ⊢
    simp [EntityOptions.layered, texts, ReadsAll.union, upper, lower]

/-- Reading a rule book reads all options of the settings. -/
theorem everyOptions_readable {settings : Settings} {book : RuleBook}
    (read : RuleBook.ofSettings settings = .ok book) : settings.EveryOptions Readable := by
  obtain ⟨_, global, read⟩ := Result.bind_eq_ok.mp read
  obtain ⟨entries, mapped, _⟩ := Result.bind_eq_ok.mp read
  refine ⟨readable_iff.mpr ⟨_, global⟩, fun rules member => ?_⟩
  obtain ⟨entry, _, read⟩ := Pointwise.exists_right (Result.forall₂_of_mapM mapped) member
  obtain ⟨_, own, read⟩ := Result.bind_eq_ok.mp read
  obtain ⟨patterns, mapped, _⟩ := Result.bind_eq_ok.mp read
  refine ⟨readable_iff.mpr ⟨_, own⟩, fun overlay member => ?_⟩
  obtain ⟨_, _, read⟩ := Pointwise.exists_right (Result.forall₂_of_mapM mapped) member
  obtain ⟨_, options, _⟩ := Result.bind_eq_ok.mp read
  exact readable_iff.mpr ⟨_, options⟩

/-- A lookup in a rule book that could be read does not fail. -/
theorem exists_forType_eq_ok {settings : Settings} {book : RuleBook}
    (read : RuleBook.ofSettings settings = .ok book) (entity typePath : String) :
    ∃ rules, book.forType entity typePath = .ok rules := by
  have every : book.settings.EveryOptions Readable :=
    ofSettings_settings read ▸ everyOptions_readable read
  exact readable_iff.mp
    (readable_layers.layered (entityOptions_of_layers readable_layers every _ _) every.1)

/-! ## Lookups one after the other -/

namespace RuleLookups

/-- What is remembered is what the book says. -/
def Faithful (lookups : RuleLookups) : Prop :=
  ∀ entry ∈ lookups.known, lookups.book.forType entry.1.1 entry.1.2 = .ok entry.2

theorem ofBook_faithful (book : RuleBook) : (ofBook book).Faithful := by
  intro entry member
  cases member

/-- A lookup gives what the book says, remembers nothing else, and stays with the book. -/
theorem forType_spec {lookups : RuleLookups} (faithful : lookups.Faithful)
    (entity typePath : String) :
    (lookups.forType entity typePath).1 = lookups.book.forType entity typePath ∧
      (lookups.forType entity typePath).2.book = lookups.book ∧
      (lookups.forType entity typePath).2.Faithful := by
  -- The rules are known, or they are asked for and can be read, or they cannot be read.
  unfold forType
  split
  next rules known =>
    obtain ⟨before, after, split, _⟩ := List.lookup_eq_some_iff.mp known
    have member : ((entity, typePath), rules) ∈ lookups.known := split ▸ by simp
    exact ⟨(faithful _ member).symm, rfl, faithful⟩
  next =>
    split
    next rules given =>
      refine ⟨given.symm, rfl, fun entry member => ?_⟩
      rcases List.mem_cons.mp member with rfl | old
      · exact given
      · exact faithful entry old
    next failure given => exact ⟨given.symm, rfl, faithful⟩

theorem answers_eq {lookups : RuleLookups} (faithful : lookups.Faithful)
    (pairs : List (String × String)) :
    lookups.answers pairs =
      pairs.map fun (entity, typePath) => lookups.book.forType entity typePath := by
  induction pairs generalizing lookups with
  | nil => rfl
  | cons pair rest ih =>
    obtain ⟨entity, typePath⟩ := pair
    obtain ⟨answer, sameBook, after⟩ := forType_spec faithful entity typePath
    simp only [answers, List.map_cons]
    rw [answer, ih after, sameBook]

end RuleLookups

/-- However many lookups there are in a rule book, none fails, and each answer for an entity whose
overlays are kept is made of the options of the record that is found for the entity, of those of its
overlays whose own patterns match the type path, one above the other, and of the options of all
entities below them. -/
theorem answers_layered {settings : Settings} {book : RuleBook}
    (read : RuleBook.ofSettings settings = .ok book) (lookups : List (String × String)) :
    ∃ answers : List FieldRules,
      (RuleLookups.ofBook book).answers lookups = answers.map .ok ∧
      List.Forall₂ (fun lookup rules => settings.KeepsOverlays lookup.1 →
          FieldRules.ofOptions
            (.layered (settings.optionsAt lookup.1 lookup.2) settings.global) = .ok rules)
        lookups answers := by
  rw [RuleLookups.answers_eq (RuleLookups.ofBook_faithful book)]
  choose rules given using exists_forType_eq_ok read
  refine ⟨lookups.map fun lookup => rules lookup.1 lookup.2, ?_, ?_⟩
  · rw [List.map_map]
    exact List.map_congr_left fun lookup _ => given lookup.1 lookup.2
  · rw [List.forall₂_map_right_iff, List.forall₂_same]
    exact fun lookup _ kept =>
      (forType_eq read kept lookup.2).symm.trans (given lookup.1 lookup.2)

/-! ## Shapes with overlays -/

/-- The record of shapes, with overlays that drop a field of the types that match. -/
def shapeRules (overlays : List (String × String)) : EntityRules :=
  { name := "Shape"
    options := .none
    overlays := overlays.map fun (pattern, field) =>
      ⟨pattern, { EntityOptions.none with dropFields := [field] }⟩ }

def shapeSettings (records : List EntityRules) : Settings :=
  { Settings.standard with
    global := { EntityOptions.none with dropFields := ["signature"] }
    entities := records }

/-- Whether a field is dropped, in each of the answers. -/
def dropped (answers : List (Result FieldRules)) (field : String) : List (Option Bool) :=
  answers.map fun answer => (answer.map (·.drop.contains field)).toOption

/-- Two records of one name, and the second one has the overlay patterns of the first and more. -/
def squareSettings : Settings :=
  shapeSettings [shapeRules [("Square.*", "radius"), (".*Type", "area")],
    shapeRules [("Square.*", "side"), (".*Type", "side"), (".*", "side")]]

theorem answers_layered_of_squares :
    ∃ book, RuleBook.ofSettings squareSettings = .ok book ∧
      squareSettings.KeepsOverlays "Shape" ∧
      ∃ square circle again : FieldRules,
        (RuleLookups.ofBook book).answers
          [("Shape", "SquareType"), ("Shape", "Circle"), ("Shape", "SquareType")] =
            [.ok square, .ok circle, .ok again] ∧
        FieldRules.ofOptions (.layered (squareSettings.optionsAt "Shape" "SquareType")
          squareSettings.global) = .ok square ∧
        square.options.dropFields = ["area", "radius", "signature"] := by
  have reads : (RuleBook.ofSettings squareSettings).toOption.isSome = true := by decide
  obtain ⟨book, read⟩ := Result.isSome_toOption.mp reads
  have kept : squareSettings.KeepsOverlays "Shape" := by decide +kernel
  have laid : (squareSettings.optionsAt "Shape" "SquareType").dropFields = ["area", "radius"] := by
    decide +kernel
  obtain ⟨answers, given, related⟩ := answers_layered read
    [("Shape", "SquareType"), ("Shape", "Circle"), ("Shape", "SquareType")]
  obtain _ | ⟨square, _ | ⟨circle, _ | ⟨again, _ | _⟩⟩⟩ := related
  refine ⟨book, read, kept, _, _, _, given, square kept, ?_⟩
  rw [ofOptions_options (square kept), EntityOptions.layered, laid]
  decide

/-- Two records of one name, and only the first one has an overlay. -/
def repeatedSettings : Settings :=
  shapeSettings [shapeRules [("Square.*", "radius")], shapeRules []]

/-- The last record of a name brings the patterns, the first one the overlays, and an overlay for
which there is no pattern is not applied. -/
theorem overlay_lost_by_repetition :
    ∃ book, RuleBook.ofSettings repeatedSettings = .ok book ∧
      (RuleLookups.ofBook book).answers [("Shape", "SquareType")] ≠
        [FieldRules.ofOptions (.layered (repeatedSettings.optionsAt "Shape" "SquareType")
          repeatedSettings.global)] ∧
      dropped ((RuleLookups.ofBook book).answers [("Shape", "SquareType")]) "radius" =
        [some false] := by
  have evaluated : (RuleBook.ofSettings repeatedSettings).toOption.map (fun book =>
      dropped ((RuleLookups.ofBook book).answers [("Shape", "SquareType")]) "radius") =
      some [some false] := by
    decide +kernel
  have laid : dropped [FieldRules.ofOptions (.layered
      (repeatedSettings.optionsAt "Shape" "SquareType") repeatedSettings.global)] "radius" =
      [some true] := by
    decide +kernel
  obtain ⟨book, read, lost⟩ := Result.exists_ok_of_map evaluated
  refine ⟨book, read, fun same => ?_, lost⟩
  rw [same, laid] at lost
  cases lost

end Compile

end EntityGraph
