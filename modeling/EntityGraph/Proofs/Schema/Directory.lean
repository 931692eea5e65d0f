import EntityGraph.Json.Printer
import EntityGraph.Proofs.Lists
import EntityGraph.Proofs.Schema.Loading

/-!
# Documents of a directory

A directory is loaded from its entries, the documents that no other one there imports, each with
what its imports lead to. So a document is kept if it is an entry or an import that is not passed
over leads to it, and only then. Imports are seen from the directory of the entry; where all entries
see them alike and none of them has a rival for its prefix, what is kept is what some entry meets.
Documents that import each other, or themselves, are no entries: if no entry leads to them, they are
lost.
-/
namespace EntityGraph.Schema

variable {tree : FileTree} {directory : String}

/-! ## Entries -/

/-- A document below a directory. -/
def Listed (tree : FileTree) (directory path : String) : Prop :=
  path ∈ tree.listing directory ∧ Path.extension? path = some "json"

/-- A document of the directory imports a place, seen from the directory that the document is in. -/
def IsImported (tree : FileTree) (directory place : String) : Prop :=
  ∃ path document, Listed tree directory path ∧ tree.document path = .ok document ∧
    ∃ entry ∈ document.imports, target? tree path entry = some place

/-- A document that no document of the directory imports. -/
structure IsEntry (tree : FileTree) (directory path place : String) : Prop where
  listed : Listed tree directory path
  found : tree.place? path = some place
  free : ¬IsImported tree directory place

theorem mem_documentPaths {path : String} :
    path ∈ Id.run (documentPaths tree.access directory) ↔ Listed tree directory path := by
  change path ∈ ((tree.listing directory).filter fun path =>
    Path.extension? path == some "json").mergeSort Path.le ↔ _
  simp [Listed]

theorem documentPaths_eq {paths : List String} (sorted : paths.Pairwise (Path.le · · = true))
    (filtered : ((tree.listing directory).filter fun path =>
      Path.extension? path == some "json") = paths) :
    Id.run (documentPaths tree.access directory) = paths := by
  change ((tree.listing directory).filter fun path =>
    Path.extension? path == some "json").mergeSort Path.le = paths
  rw [filtered, List.mergeSort_of_pairwise sorted]

theorem loadDirectory_eq {paths : List String} (sorted : paths.Pairwise (Path.le · · = true))
    (filtered : ((tree.listing directory).filter fun path =>
      Path.extension? path == some "json") = paths) :
    tree.loadDirectory directory = Id.run (loadPaths tree.access paths).run := by
  rw [← documentPaths_eq sorted filtered]
  rfl

/-- The places that a document imports, seen from its own directory. -/
theorem importedPlaces_spec {path : String} {places : List String}
    (ran : Id.run (importedPlaces tree.access path).run = .ok places) :
    ∃ document, tree.document path = .ok document ∧ ∀ place,
      place ∈ places ↔ ∃ entry ∈ document.imports, target? tree path entry = some place := by
  obtain ⟨document, read, ran⟩ := Loading.bind_eq_ok.mp ran
  obtain ⟨found, mapped, ran⟩ := Loading.bind_eq_ok.mp ran
  obtain rfl := Loading.pure_eq_ok.mp ran
  have related : List.Forall₂ (fun entry place => target? tree path entry = place)
      document.imports found :=
    (Loading.forall₂_of_mapM mapped).imp fun _ _ => Loading.lift_eq_ok.mp
  refine ⟨document, read, fun place => ⟨fun member => ?_, fun ⟨entry, imports, leads⟩ => ?_⟩⟩
  · obtain ⟨_, inFound, rfl⟩ := List.mem_filterMap.mp member
    exact Pointwise.exists_left related inFound
  · obtain ⟨other, inFound, same⟩ := Pointwise.exists_right related imports
    exact List.mem_filterMap.mpr ⟨other, inFound, same.symm.trans leads⟩

/-! ## Readings in turn -/

/-- Documents are read one after the other, each after the places of those before. -/
def InTurn (tree : FileTree) : List String → List Reading → Prop
  | _, [] => True
  | old, reading :: rest =>
    reading.IsComplete tree old ∧ InTurn tree (reading.places.reverse ++ old) rest

/-- The document of a place has been taken in. -/
def Keeps (readings : List Reading) (place : String) (document : Document) : Prop :=
  ∃ reading ∈ readings, ∃ space, ⟨place, space, document⟩ ∈ reading.parts

namespace InTurn

/-- Each reading is complete after places that others have read before. -/
theorem exists_isComplete {old : List String} {readings : List Reading}
    (inTurn : InTurn tree old readings) {reading : Reading} (member : reading ∈ readings) :
    ∃ before, reading.IsComplete tree before ∧ ∀ place ∈ before,
      place ∈ old ∨ ∃ other ∈ readings, place ∈ other.places := by
  induction readings generalizing old with
  | nil => cases member
  | cons first rest ih =>
    rcases List.mem_cons.mp member with rfl | later
    · exact ⟨old, inTurn.1, fun place known => .inl known⟩
    · obtain ⟨before, complete, known⟩ := ih inTurn.2 later
      refine ⟨before, complete, fun place read => ?_⟩
      rcases known place read with inFirst | ⟨other, inRest, read⟩
      · rcases List.mem_append.mp inFirst with inFirst | known
        · exact .inr ⟨first, List.mem_cons_self, List.mem_reverse.mp inFirst⟩
        · exact .inl known
      · exact .inr ⟨other, List.mem_cons_of_mem _ inRest, read⟩

variable {readings : List Reading} {place : String}

/-- No place is taken in twice, and none that has been read before. -/
theorem nodup {old : List String} (inTurn : InTurn tree old readings) :
    ((readings.flatMap (·.parts)).map (·.place)).Nodup ∧
      ∀ reading ∈ readings, ∀ place ∈ reading.places, place ∉ old := by
  induction readings generalizing old with
  | nil => exact ⟨List.nodup_nil, nofun⟩
  | cons first rest ih =>
    obtain ⟨complete, later⟩ := inTurn
    obtain ⟨nodup, new⟩ := ih later
    refine ⟨?_, List.forall_mem_cons.mpr ⟨fun place taken =>
      (complete.inlines.mem_places_iff.mp taken).2, fun reading member place taken known =>
        new reading member place taken (List.mem_append_right _ known)⟩⟩
    rw [List.flatMap_cons, List.map_append]
    -- What a later reading takes in is new to it, and the first one has been read before.
    refine List.nodup_append.mpr ⟨complete.inlines.nodup, nodup, ?_⟩
    rintro _ inFirst _ inRest rfl
    obtain ⟨part, member, rfl⟩ := List.mem_map.mp inRest
    obtain ⟨reading, inReadings, inParts⟩ := List.mem_flatMap.mp member
    exact new reading inReadings part.place (List.mem_map_of_mem inParts)
      (List.mem_append_left _ (List.mem_reverse.mpr inFirst))

/-- What has been taken in are the root documents and those to which imports lead. -/
theorem exists_mem_places_iff (inTurn : InTurn tree [] readings) :
    (∃ reading ∈ readings, place ∈ reading.places) ↔ ∃ reading ∈ readings,
      tree.place? reading.root = some place ∨
        LeadsTo tree reading.root reading.requests place := by
  constructor
  · rintro ⟨reading, member, taken⟩
    obtain ⟨_, complete, _⟩ := inTurn.exists_isComplete member
    exact ⟨reading, member, (complete.inlines.mem_places_iff.mp taken).1⟩
  · rintro ⟨reading, member, leads⟩
    obtain ⟨before, complete, known⟩ := inTurn.exists_isComplete member
    by_cases read : place ∈ before
    · exact (known place read).resolve_left List.not_mem_nil
    · exact ⟨reading, member, complete.inlines.mem_places_iff.mpr ⟨leads, read⟩⟩

theorem keeps_iff (inTurn : InTurn tree [] readings) {document : Document}
    (at_ : DocumentAt tree place document) :
    Keeps readings place document ↔ ∃ reading ∈ readings, place ∈ reading.places := by
  constructor
  · rintro ⟨reading, member, space, inParts⟩
    exact ⟨reading, member, List.mem_map_of_mem inParts⟩
  · rintro ⟨reading, member, taken⟩
    obtain ⟨part, inParts, rfl⟩ := List.mem_map.mp taken
    obtain ⟨_, complete, _⟩ := inTurn.exists_isComplete member
    obtain rfl := (complete.inlines.meets part inParts).2.unique at_
    exact ⟨reading, member, part.space, inParts⟩

end InTurn

/-! ## Adding entries -/

/-- A document is passed over if its place is imported or has been read; otherwise it is read. -/
theorem addEntry_cases {imported : List String} {merged next : Document × List String}
    {path : String}
    (ran : Id.run (addEntry tree.access imported merged path).run = .ok next) :
    (next = merged ∧ ∃ place, tree.place? path = some place ∧
      (place ∈ imported ∨ place ∈ merged.2)) ∨
    ∃ reading : Reading, reading.root = path ∧ reading.IsComplete tree merged.2 ∧
      (∃ place, tree.place? path = some place ∧ place ∉ imported) ∧
      next = (merged.1.merge (joined reading.parts), reading.places.reverse ++ merged.2) := by
  obtain ⟨found, place?, ran⟩ := Loading.bind_eq_ok.mp ran
  have target : tree.place? path = found := Loading.lift_eq_ok.mp place?
  split at ran
  next skipped =>
    obtain rfl := Loading.pure_eq_ok.mp ran
    obtain ⟨place, rfl, known⟩ := (Option.any_eq_true _ _).mp skipped
    exact .inl ⟨rfl, place, target, by simpa using known⟩
  next unread =>
    obtain ⟨loaded, below, ran⟩ := Loading.bind_eq_ok.mp ran
    obtain rfl := Loading.pure_eq_ok.mp ran
    obtain ⟨document, read, _⟩ := Loading.bind_eq_ok.mp below
    obtain ⟨place, placed, _⟩ := exists_documentAt read
    obtain rfl := target.symm.trans placed
    have outside : place ∉ imported ∧ place ∉ merged.2 := by simpa using unread
    obtain ⟨reading, rfl, complete, joins, places⟩ := loadBelow_reads placed outside.2 below
    exact .inr ⟨reading, rfl, complete, ⟨place, placed, outside.1⟩, by rw [joins, places]⟩

/-- What readings of some paths add to a document, after some places have been read: those paths are
read whose places no document imports, unless they have been read before. -/
structure Adds (tree : FileTree) (imported paths : List String)
    (merged : Document × List String) (final : Document) (readings : List Reading) : Prop where
  inTurn : InTurn tree merged.2 readings
  ordered : (readings.map (·.root)).Sublist paths
  free : ∀ reading ∈ readings, ∃ place,
    tree.place? reading.root = some place ∧ place ∉ imported
  joins : ∀ parts, merged.1.Joins parts → final.Joins (parts ++ readings.flatMap (·.parts))
  imports : final.imports = merged.1.imports
  entered : ∀ path ∈ paths, ∀ place, tree.place? path = some place → place ∉ imported →
    place ∈ merged.2 ∨ ∃ reading ∈ readings, place ∈ reading.places

theorem addEntries_adds {imported paths : List String} {merged final : Document × List String}
    (ran : Id.run (paths.foldlM (addEntry tree.access imported) merged).run = .ok final) :
    ∃ readings, Adds tree imported paths merged final.1 readings := by
  induction paths generalizing merged with
  | nil =>
    obtain rfl := Loading.pure_eq_ok.mp ran
    exact ⟨[], trivial, List.Sublist.refl _, nofun, by simp, rfl, nofun⟩
  | cons path paths ih =>
    rw [List.foldlM_cons, Loading.bind_eq_ok] at ran
    obtain ⟨next, added, ran⟩ := ran
    obtain ⟨readings, adds⟩ := ih ran
    rcases addEntry_cases added with ⟨rfl, place, placed, known⟩ |
      ⟨reading, rfl, complete, free, rfl⟩
    -- The place of the path is imported or has been read, so nothing is added for it.
    · refine ⟨readings, { adds with
        ordered := adds.ordered.cons _
        entered := fun other member there leads new => ?_ }⟩
      rcases List.mem_cons.mp member with rfl | later
      · obtain rfl := Option.some.inj (placed.symm.trans leads)
        exact .inl (known.resolve_left new)
      · exact adds.entered other later there leads new
    · refine ⟨reading :: readings, ⟨complete, adds.inTurn⟩, adds.ordered.cons_cons _, ?_, ?_,
        adds.imports, ?_⟩
      · exact List.forall_mem_cons.mpr ⟨free, adds.free⟩
      · intro parts joins
        rw [List.flatMap_cons, ← List.append_assoc]
        exact adds.joins _ (joins.merge (joined_joins _))
      · intro other member place leads new
        have inThis (read : place ∈ reading.places) :
            ∃ another ∈ reading :: readings, place ∈ another.places :=
          ⟨reading, List.mem_cons_self, read⟩
        rcases List.mem_cons.mp member with rfl | later
        -- A root document is taken in by its own reading, unless one before has taken it in.
        · by_cases known : place ∈ merged.2
          · exact .inl known
          · exact .inr (inThis (complete.inlines.mem_places_iff.mpr ⟨.inl leads, known⟩))
        · rcases adds.entered other later place leads new with read | ⟨another, inRest, read⟩
          · exact (List.mem_append.mp read).symm.imp_right
              fun own => inThis (List.mem_reverse.mp own)
          · exact .inr ⟨another, List.mem_cons_of_mem _ inRest, read⟩

/-! ## The whole directory -/

/-- How a directory is loaded: its entries are read in path order, unless one before has taken them
in, and the parts that have been taken in are put one after the other. No import is left. -/
structure LoadedBy (tree : FileTree) (directory : String) (whole : Document)
    (readings : List Reading) : Prop where
  inTurn : InTurn tree [] readings
  ordered : (readings.map (·.root)).Sublist (Id.run (documentPaths tree.access directory))
  entries : ∀ reading ∈ readings, ∃ place, IsEntry tree directory reading.root place
  joins : whole.Joins (readings.flatMap (·.parts))
  imports : whole.imports = []

theorem loadDirectory_loadedBy {whole : Document}
    (loaded : tree.loadDirectory directory = .ok whole) :
    ∃ readings, LoadedBy tree directory whole readings ∧
      (∀ path place, IsEntry tree directory path place →
        ∃ reading ∈ readings, place ∈ reading.places) ∧
      ∀ path, Listed tree directory path → ∃ document, tree.document path = .ok document := by
  obtain ⟨paths, listing, ran⟩ := Loading.bind_eq_ok.mp loaded
  obtain rfl := Loading.lift_eq_ok.mp listing
  obtain ⟨imported, mapped, ran⟩ := Loading.bind_eq_ok.mp ran
  obtain ⟨⟨final, places⟩, folded, ran⟩ := Loading.bind_eq_ok.mp ran
  obtain rfl := Loading.pure_eq_ok.mp ran
  have related := Loading.forall₂_of_mapM mapped
  -- The first pass over the paths finds out what is imported, and the second one skips that.
  have is (place : String) : place ∈ imported.flatten ↔ IsImported tree directory place := by
    constructor
    · intro member
      obtain ⟨found, inImported, member⟩ := List.mem_flatten.mp member
      obtain ⟨path, inPaths, ran⟩ := Pointwise.exists_left related inImported
      obtain ⟨document, read, spec⟩ := importedPlaces_spec ran
      exact ⟨path, document, mem_documentPaths.mp inPaths, read, (spec place).mp member⟩
    · rintro ⟨path, document, listed, read, imports⟩
      obtain ⟨found, inImported, ran⟩ :=
        Pointwise.exists_right related (mem_documentPaths.mpr listed)
      obtain ⟨other, otherRead, spec⟩ := importedPlaces_spec ran
      obtain rfl := Except.ok.inj (read.symm.trans otherRead)
      exact List.mem_flatten.mpr ⟨found, inImported, (spec place).mpr imports⟩
  obtain ⟨readings, adds⟩ := addEntries_adds folded
  have nothing : (default : Document).Joins [] := by constructor <;> rfl
  refine ⟨readings, ⟨adds.inTurn, adds.ordered, fun reading member => ?_, adds.joins [] nothing,
    adds.imports⟩, fun path place entry => ?_, fun path listed => ?_⟩
  · obtain ⟨place, placed, free⟩ := adds.free reading member
    have inPaths := adds.ordered.subset (List.mem_map_of_mem member)
    exact ⟨place, mem_documentPaths.mp inPaths, placed,
      fun imports => free ((is place).mpr imports)⟩
  · exact (adds.entered path (mem_documentPaths.mpr entry.listed) place entry.found
      fun member => entry.free ((is place).mp member)).resolve_left List.not_mem_nil
  · obtain ⟨_, _, ran⟩ := Pointwise.exists_right related (mem_documentPaths.mpr listed)
    obtain ⟨document, read, _⟩ := importedPlaces_spec ran
    exact ⟨document, read⟩

/-- No import depends on where a reading began, or on which imports have been looked at before:
entries that meet a document see its imports lead to the same places, and imports of one namespace
that has a prefix lead to the same place. -/
structure IsClear (tree : FileTree) (directory : String) : Prop where
  alike : ∀ root rootPlace other otherPlace, IsEntry tree directory root rootPlace →
    IsEntry tree directory other otherPlace → ∀ place document, Meets tree root place →
    Meets tree other place → DocumentAt tree place document → ∀ entry ∈ document.imports,
    target? tree root entry = target? tree other entry
  unrivalled : ∀ root rootPlace, IsEntry tree directory root rootPlace → ∀ entry other,
    MeetsImport tree root entry → MeetsImport tree root other →
    SharesSpace tree root entry other → target? tree root entry = target? tree root other

/-- In a clear directory all that an entry meets is read. -/
theorem LoadedBy.exists_of_meets {whole : Document} {readings : List Reading}
    (by_ : LoadedBy tree directory whole readings)
    (entered : ∀ path place, IsEntry tree directory path place →
      ∃ reading ∈ readings, place ∈ reading.places)
    (clear : IsClear tree directory) {root rootPlace place : String}
    (isEntry : IsEntry tree directory root rootPlace) (met : Meets tree root place) :
    ∃ reading ∈ readings, place ∈ reading.places := by
  induction met with
  | root found =>
    obtain rfl := Option.some.inj (found.symm.trans isEntry.found)
    exact entered root _ isEntry
  | @imported importer place document entry met at_ imports leads ih =>
    obtain ⟨reading, member, taken⟩ := ih
    obtain ⟨otherPlace, otherEntry⟩ := by_.entries reading member
    obtain ⟨_, complete, _⟩ := by_.inTurn.exists_isComplete member
    obtain ⟨part, inParts, rfl⟩ := List.mem_map.mp taken
    obtain ⟨otherMet, otherAt⟩ := complete.inlines.meets part inParts
    obtain rfl := at_.unique otherAt
    -- The reading has looked at the import, or has followed one with its prefix.
    have looked : (part.place, entry) ∈ reading.requests.map (·.item) :=
      complete.queue ▸ mem_importsOf.mpr ⟨part, inParts, rfl, imports⟩
    obtain ⟨request, inRequests, item⟩ := List.mem_map.mp looked
    obtain rfl : request.entry = entry := congrArg Prod.snd item
    obtain ⟨other, followed, same⟩ := Request.exists_isFollowed inRequests
    have here : target? tree reading.root request.entry = some place :=
      (clear.alike _ _ _ _ otherEntry isEntry _ _ otherMet met at_ _ imports).trans leads
    refine by_.inTurn.exists_mem_places_iff.mpr
      ⟨reading, member, .inr ⟨other, followed, ?_⟩⟩
    rcases same with rfl | ⟨otherIn, space, has, otherHas⟩
    · exact here
    · have shares := complete.inlines.sharesSpace inRequests otherIn has otherHas
      exact (clear.unrivalled _ _ otherEntry _ _ (complete.meetsImport inRequests)
        (complete.meetsImport otherIn) shares).symm.trans here

/-- The declarations of the document of a place are in a whole, as they are or under the prefix of
an import that leads to it. -/
def Includes (tree : FileTree) (readings : List Reading) (whole : Document) (place : String)
    (document : Document) : Prop :=
  ∃ space, whole.Holds (document.under space) ∧ (space = none ∨ ∃ reading ∈ readings,
    ∃ request ∈ reading.requests, request.space = space ∧
      target? tree reading.root request.entry = some place)

theorem LoadedBy.includes {whole : Document} {readings : List Reading}
    (by_ : LoadedBy tree directory whole readings) {place : String} {document : Document}
    (keeps : Keeps readings place document) : Includes tree readings whole place document := by
  obtain ⟨reading, member, space, inParts⟩ := keeps
  obtain ⟨_, complete, _⟩ := by_.inTurn.exists_isComplete member
  refine ⟨space, by_.joins.holds (List.mem_flatMap.mpr ⟨reading, member, inParts⟩), ?_⟩
  exact (complete.inlines.space_cases _ inParts).imp_right fun leads => ⟨reading, member, leads⟩

/-- When a directory is loaded, every document below it is read, and the result is put together of
the parts that entries take in. A document is among them if and only if it is an entry, or an import
that has been looked at for an entry, while its prefix was free, leads to it. Its declarations are
then in the result. In a clear directory these are the documents that some entry meets. -/
theorem loadDirectory_keeps_iff {whole : Document}
    (loaded : tree.loadDirectory directory = .ok whole) :
    ∃ readings, LoadedBy tree directory whole readings ∧
      ∀ path, Listed tree directory path → ∃ place document,
        tree.place? path = some place ∧ tree.document path = .ok document ∧
        (Keeps readings place document ↔ IsEntry tree directory path place ∨
          ∃ reading ∈ readings, LeadsTo tree reading.root reading.requests place) ∧
        (Keeps readings place document → Includes tree readings whole place document) ∧
        (IsClear tree directory → (Keeps readings place document ↔
          ∃ root rootPlace, IsEntry tree directory root rootPlace ∧ Meets tree root place)) := by
  obtain ⟨readings, by_, entered, reads⟩ := loadDirectory_loadedBy loaded
  refine ⟨readings, by_, fun path listed => ?_⟩
  obtain ⟨document, read⟩ := reads path listed
  obtain ⟨place, found, at_⟩ := exists_documentAt read
  refine ⟨place, document, found, read, ?_, by_.includes, fun clear => ?_⟩
  · rw [by_.inTurn.keeps_iff at_]
    constructor
    · intro taken
      obtain ⟨reading, member, root | leads⟩ := by_.inTurn.exists_mem_places_iff.mp taken
      · obtain ⟨rootPlace, entry⟩ := by_.entries reading member
        obtain rfl := Option.some.inj (root.symm.trans entry.found)
        exact .inl ⟨listed, found, entry.free⟩
      · exact .inr ⟨reading, member, leads⟩
    · rintro (entry | ⟨reading, member, leads⟩)
      · exact entered path place entry
      · exact by_.inTurn.exists_mem_places_iff.mpr ⟨reading, member, .inr leads⟩
  · rw [by_.inTurn.keeps_iff at_]
    constructor
    · rintro ⟨reading, member, taken⟩
      obtain ⟨rootPlace, entry⟩ := by_.entries reading member
      obtain ⟨_, complete, _⟩ := by_.inTurn.exists_isComplete member
      obtain ⟨part, inParts, rfl⟩ := List.mem_map.mp taken
      exact ⟨reading.root, rootPlace, entry, (complete.inlines.meets part inParts).1⟩
    · rintro ⟨root, rootPlace, entry, met⟩
      exact by_.exists_of_meets entered clear entry met

/-! ## Orders of parts -/

/-- A document with one complex type, as JSON. -/
def documentJson (type : String) (namespaces : List (String × String)) (imports : List Import) :
    Json :=
  let spaces := namespaces.map fun (space, uri) => (space, Json.str uri)
  .obj <|
    (if spaces.isEmpty then [] else [("namespaces", .obj spaces)]) ++
      (if imports.isEmpty then [] else [("imports", .arr (imports.map Import.toJson))]) ++
        [("complex_types", .arr [.obj [("name", .str type)]])]

def treeOf (files : List (String × Json)) : FileTree :=
  .ofList (files.map fun (path, document) => (path, document.compact))

def typeNames (document : Document) : List (Option String) := document.complexTypes.map (·.name)

def statedTypes (tree : FileTree) (path : String) : Option (List (Option String)) :=
  (tree.document path).toOption.map typeNames

def loadedTypes (tree : FileTree) (paths : List String) : Option (List (Option String)) :=
  (Id.run (loadPaths tree.access paths).run).toOption.map typeNames

/-- The files below a directory, in order, where all of them are schema documents. -/
def IsListing (tree : FileTree) (directory : String) (paths : List String) : Prop :=
  tree.listing directory = paths ∧ paths.Pairwise (Path.le · · = true) ∧
    ∀ path ∈ paths, Path.extension? path = some "json"

instance (tree : FileTree) (directory : String) (paths : List String) :
    Decidable (IsListing tree directory paths) :=
  inferInstanceAs (Decidable (_ ∧ _ ∧ _))

section Listings

variable {paths : List String} (is : IsListing tree directory paths)
include is

theorem IsListing.listed_iff {path : String} : Listed tree directory path ↔ path ∈ paths := by
  rw [Listed, is.1]
  exact and_iff_left_of_imp (is.2.2 path)

theorem IsListing.exists_loadDirectory {names : List (Option String)}
    (evaluated : loadedTypes tree paths = some names) :
    ∃ whole, tree.loadDirectory directory = .ok whole ∧ typeNames whole = names := by
  have filtered : ((tree.listing directory).filter fun path =>
      Path.extension? path == some "json") = paths := by
    rw [is.1, List.filter_eq_self]
    exact fun path member => beq_iff_eq.mpr (is.2.2 path member)
  rw [loadDirectory_eq is.2.1 filtered]
  exact Result.exists_ok_of_map evaluated

end Listings

def partImport : Import := ⟨some "urn:p", "b.json"⟩

/-- An order imports a part under a prefix. Besides them, two units import each other. -/
def partTree : FileTree :=
  treeOf [
    ("s/a.json", documentJson "Order" [("p", "urn:p")] [partImport]),
    ("s/b.json", documentJson "Part" [] []),
    ("s/c.json", documentJson "Metre" [] [⟨none, "d.json"⟩]),
    ("s/d.json", documentJson "Inch" [] [⟨none, "c.json"⟩])]

def partPaths : List String := ["s/a.json", "s/b.json", "s/c.json", "s/d.json"]

/-- The imports of each file, with the places that they lead to. -/
def partImports : List (String × List (Import × String)) := [
  ("s/a.json", [(partImport, "s/b.json")]),
  ("s/b.json", []),
  ("s/c.json", [(⟨none, "d.json"⟩, "s/d.json")]),
  ("s/d.json", [(⟨none, "c.json"⟩, "s/c.json")])]

/-- Each path is its own place. All documents are in one directory, so it does not matter for which
of them a location is looked up. -/
theorem partTree_places :
    IsListing partTree "s" partPaths ∧
      (∀ path ∈ partPaths, partTree.place? path = some path ∧ Path.parent path = "s") ∧
      (∀ file ∈ partTree.files, ∃ entry ∈ partImports, entry.1 = "/".intercalate file.1 ∧
        partTree.place? entry.1 = some entry.1) ∧
      ∀ file ∈ partImports, ∀ item ∈ file.2,
        partTree.place? (Path.join "s" item.1.location) = some item.2 := by
  decide +kernel

theorem listed_partTree {path : String} : Listed partTree "s" path ↔ path ∈ partPaths :=
  partTree_places.1.listed_iff

/-- What the files state, and what is loaded from them. -/
theorem partTree_evaluated :
    (∀ file ∈ partImports,
      (partTree.document file.1).toOption.map (·.imports) = some (file.2.map (·.1))) ∧
    loadedTypes partTree partPaths = some [some "Order", some "p:Part"] := by
  decide +kernel

theorem partTree_document : ∀ file ∈ partImports, ∃ document,
    partTree.document file.1 = .ok document ∧ document.imports = file.2.map (·.1) :=
  fun file member => Result.exists_ok_of_map (partTree_evaluated.1 file member)

theorem partTree_imports {place : String} {document : Document}
    (at_ : DocumentAt partTree place document) :
    ∃ items, (place, items) ∈ partImports ∧ document.imports = items.map (·.1) := by
  obtain ⟨file, member, rfl, _⟩ := id at_.exists_file
  obtain ⟨⟨_, items⟩, inImports, rfl, found⟩ := partTree_places.2.2.1 file member
  obtain ⟨other, read, imports⟩ := partTree_document _ inImports
  obtain rfl := at_.unique ⟨_, found, read⟩
  exact ⟨items, inImports, imports⟩

theorem partTree_target {root : String} (inPaths : root ∈ partPaths) :
    ∀ file ∈ partImports, ∀ item ∈ file.2, target? partTree root item.1 = some item.2 := by
  simp only [target?, (partTree_places.2.1 root inPaths).2]
  exact partTree_places.2.2.2

/-- An import of a document, with the place that it leads to. -/
theorem partTree_leads {root importer place : String} {document : Document} {entry : Import}
    (inPaths : root ∈ partPaths) (at_ : DocumentAt partTree importer document)
    (imports : entry ∈ document.imports) (leads : target? partTree root entry = some place) :
    ∃ items, (importer, items) ∈ partImports ∧ (entry, place) ∈ items := by
  obtain ⟨items, inImports, same⟩ := partTree_imports at_
  rw [same] at imports
  obtain ⟨⟨_, there⟩, member, rfl⟩ := List.mem_map.mp imports
  obtain rfl := Option.some.inj ((partTree_target inPaths _ inImports _ member).symm.trans leads)
  exact ⟨items, inImports, member⟩

theorem partTree_isImported {place : String} :
    IsImported partTree "s" place ↔ place ∈ ["s/b.json", "s/c.json", "s/d.json"] := by
  constructor
  · rintro ⟨path, document, listed, read, entry, imports, leads⟩
    obtain ⟨_, _, at_⟩ := exists_documentAt read
    obtain ⟨items, inImports, member⟩ :=
      partTree_leads (listed_partTree.mp listed) at_ imports leads
    have targets : ∀ file ∈ partImports, ∀ item ∈ file.2,
        item.2 ∈ ["s/b.json", "s/c.json", "s/d.json"] := by
      decide
    exact targets _ inImports _ member
  · intro member
    have imported : ∀ place ∈ ["s/b.json", "s/c.json", "s/d.json"],
        ∃ file ∈ partImports, file.1 ∈ partPaths ∧ ∃ item ∈ file.2, item.2 = place := by
      decide
    obtain ⟨file, inImports, inPaths, item, inFile, rfl⟩ := imported place member
    obtain ⟨document, read, imports⟩ := partTree_document file inImports
    exact ⟨file.1, document, listed_partTree.mpr inPaths, read, item.1,
      imports ▸ List.mem_map_of_mem inFile, partTree_target inPaths _ inImports _ inFile⟩

/-- The order is the only entry. -/
theorem partTree_isEntry {path place : String} :
    IsEntry partTree "s" path place ↔ path = "s/a.json" ∧ place = "s/a.json" := by
  constructor
  · intro is
    have inPaths : path ∈ partPaths := listed_partTree.mp is.listed
    obtain rfl := Option.some.inj ((partTree_places.2.1 path inPaths).1.symm.trans is.found)
    have free := mt partTree_isImported.mpr is.free
    simp_all [partPaths]
  · rintro ⟨rfl, rfl⟩
    exact ⟨listed_partTree.mpr (by decide), (partTree_places.2.1 _ (by decide)).1,
      fun imported => absurd (partTree_isImported.mp imported) (by decide)⟩

/-- The order meets itself and the part. -/
theorem partTree_meets {place : String} :
    Meets partTree "s/a.json" place ↔ place ∈ ["s/a.json", "s/b.json"] := by
  have inPaths : "s/a.json" ∈ partPaths := by decide
  have found := (partTree_places.2.1 "s/a.json" inPaths).1
  constructor
  · intro met
    induction met with
    | root found' => exact Option.some.inj (found.symm.trans found') ▸ by decide
    | imported _ at_ imports leads ih =>
      obtain ⟨items, inImports, member⟩ := partTree_leads inPaths at_ imports leads
      have onwards : ∀ file ∈ partImports, file.1 ∈ ["s/a.json", "s/b.json"] →
          ∀ item ∈ file.2, item.2 ∈ ["s/a.json", "s/b.json"] := by
        decide
      exact onwards _ inImports ih _ member
  · intro member
    have start : Meets partTree "s/a.json" "s/a.json" := .root found
    rcases List.mem_pair.mp member with rfl | rfl
    · exact start
    · obtain ⟨order, read, imports⟩ :=
        partTree_document ("s/a.json", [(partImport, "s/b.json")]) (by decide)
      exact .imported start ⟨_, found, read⟩ (imports ▸ List.mem_singleton_self _)
        (partTree_target inPaths ("s/a.json", [(partImport, "s/b.json")]) (by decide)
          (partImport, "s/b.json") (List.mem_singleton_self _))

theorem partTree_isClear : IsClear partTree "s" where
  alike root _ other _ entry otherEntry _ _ _ _ _ _ _ := by
    rw [(partTree_isEntry.mp entry).1, (partTree_isEntry.mp otherEntry).1]
  unrivalled root _ isEntry := by
    obtain ⟨rfl, _⟩ := partTree_isEntry.mp isEntry
    have only {entry : Import} (imports : MeetsImport partTree "s/a.json" entry) :
        entry = partImport := by
      obtain ⟨place, document, met, at_, imports⟩ := imports
      obtain ⟨items, inImports, same⟩ := partTree_imports at_
      have one : ∀ file ∈ partImports, file.1 ∈ ["s/a.json", "s/b.json"] →
          ∀ item ∈ file.2, item.1 = partImport := by
        decide
      obtain ⟨item, member, rfl⟩ := List.mem_map.mp (same ▸ imports)
      exact one _ inImports (partTree_meets.mp met) item member
    intro entry other met otherMet _
    rw [only met, only otherMet]

theorem loadDirectory_keeps_iff_of_parts :
    ∃ whole readings, partTree.loadDirectory "s" = .ok whole ∧
      typeNames whole = [some "Order", some "p:Part"] ∧
      LoadedBy partTree "s" whole readings ∧ IsClear partTree "s" ∧
      (∃ part, partTree.document "s/b.json" = .ok part ∧ Keeps readings "s/b.json" part ∧
        Includes partTree readings whole "s/b.json" part) ∧
      ∃ metre, partTree.document "s/c.json" = .ok metre ∧ ¬Keeps readings "s/c.json" metre := by
  obtain ⟨whole, loaded, names⟩ := partTree_places.1.exists_loadDirectory partTree_evaluated.2
  obtain ⟨readings, by_, listed⟩ := loadDirectory_keeps_iff loaded
  have keeps_iff (path : String) (inPaths : path ∈ partPaths) :
      ∃ document, partTree.document path = .ok document ∧
        (Keeps readings path document ↔ path ∈ ["s/a.json", "s/b.json"]) ∧
        (Keeps readings path document → Includes partTree readings whole path document) := by
    obtain ⟨place, document, found, read, _, includes, clear⟩ :=
      listed path (listed_partTree.mpr inPaths)
    obtain rfl := Option.some.inj ((partTree_places.2.1 path inPaths).1.symm.trans found)
    refine ⟨document, read, ?_, includes⟩
    simp only [clear partTree_isClear, partTree_isEntry, and_assoc, exists_and_left,
      exists_eq_left, partTree_meets]
  obtain ⟨part, partRead, partKept, included⟩ := keeps_iff "s/b.json" (by decide)
  obtain ⟨metre, metreRead, metreKept, _⟩ := keeps_iff "s/c.json" (by decide)
  have kept := partKept.mpr (by decide)
  exact ⟨whole, readings, loaded, names, by_, partTree_isClear,
    ⟨part, partRead, kept, included kept⟩,
    ⟨metre, metreRead, fun kept => absurd (metreKept.mp kept) (by decide)⟩⟩

/-- A document below a directory declares a type. -/
def Declares (tree : FileTree) (directory path type : String) : Prop :=
  Listed tree directory path ∧
    ∃ document, tree.document path = .ok document ∧ typeNames document = [some type]

/-- Two documents import each other. -/
def mutualTree : FileTree :=
  treeOf [
    ("s/a.json", documentJson "Metre" [] [⟨none, "b.json"⟩]),
    ("s/b.json", documentJson "Inch" [] [⟨none, "a.json"⟩])]

/-- A document imports itself. -/
def selfTree : FileTree := treeOf [("s/a.json", documentJson "Metre" [] [⟨none, "a.json"⟩])]

/-- An order imports two parts for one namespace. -/
def rivalTree : FileTree :=
  treeOf [
    ("s/a.json", documentJson "Order" [("p", "urn:p")] [partImport, ⟨some "urn:p", "c.json"⟩]),
    ("s/b.json", documentJson "Part" [] []),
    ("s/c.json", documentJson "Unit" [] [])]

theorem lostTrees_evaluated :
    (IsListing mutualTree "s" ["s/a.json", "s/b.json"] ∧
      statedTypes mutualTree "s/a.json" = some [some "Metre"] ∧
      statedTypes mutualTree "s/b.json" = some [some "Inch"] ∧
      loadedTypes mutualTree ["s/a.json", "s/b.json"] = some []) ∧
    (IsListing selfTree "s" ["s/a.json"] ∧
      statedTypes selfTree "s/a.json" = some [some "Metre"] ∧
      loadedTypes selfTree ["s/a.json"] = some []) ∧
    IsListing rivalTree "s" ["s/a.json", "s/b.json", "s/c.json"] ∧
      statedTypes rivalTree "s/c.json" = some [some "Unit"] ∧
      loadedTypes rivalTree ["s/a.json", "s/b.json", "s/c.json"] =
        some [some "Order", some "p:Part"] := by
  decide +kernel

/-- Documents that import each other are imported, each by the other, and a document that imports
itself is imported as well, so none of them is an entry. The second import of a namespace is passed
over, and its document does not stand for itself either. All of them are lost. -/
theorem imported_documents_lost :
    (Declares mutualTree "s" "s/a.json" "Metre" ∧ Declares mutualTree "s" "s/b.json" "Inch" ∧
      ∃ whole, mutualTree.loadDirectory "s" = .ok whole ∧ typeNames whole = []) ∧
    (Declares selfTree "s" "s/a.json" "Metre" ∧
      ∃ whole, selfTree.loadDirectory "s" = .ok whole ∧ typeNames whole = []) ∧
    Declares rivalTree "s" "s/c.json" "Unit" ∧
      ∃ whole, rivalTree.loadDirectory "s" = .ok whole ∧
        typeNames whole = [some "Order", some "p:Part"] := by
  obtain ⟨⟨inMutual, metre, inch, mutual_⟩, ⟨inSelf, own, self⟩, inRival, unit, rival⟩ :=
    lostTrees_evaluated
  have declares {tree : FileTree} {paths : List String} {path type : String}
      (is : IsListing tree "s" paths) (member : path ∈ paths)
      (stated : statedTypes tree path = some [some type]) : Declares tree "s" path type :=
    ⟨is.listed_iff.mpr member, Result.exists_ok_of_map stated⟩
  exact ⟨⟨declares inMutual (by simp) metre, declares inMutual (by simp) inch,
      inMutual.exists_loadDirectory mutual_⟩,
    ⟨declares inSelf (by simp) own, inSelf.exists_loadDirectory self⟩,
    declares inRival (by simp) unit, inRival.exists_loadDirectory rival⟩

end EntityGraph.Schema
