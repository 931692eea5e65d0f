import EntityGraph.Proofs.Files
import EntityGraph.Proofs.Result
import EntityGraph.Proofs.Table
import EntityGraph.Schema.Load

/-!
# Documents and their imports

Loading a document follows its imports, and those of every document that it takes in, one after the
other. All that has been taken in is in the loaded document, as it is or under a prefix. An import
is passed over only if its prefix is taken; then an import of the same namespace, of another
document or further up in the same one, has been followed.
-/
namespace EntityGraph

/-! ## Reading -/

namespace Loading

variable {α β : Type}

theorem run_bind {first : ExceptT Error Id α} {next : α → ExceptT Error Id β} :
    Id.run (first >>= next).run = Id.run first.run >>= fun value => Id.run (next value).run := by
  rw [ExceptT.run_bind, Id.run_bind]
  cases Id.run first.run <;> rfl

theorem bind_eq_ok {first : ExceptT Error Id α} {next : α → ExceptT Error Id β} {value : β} :
    Id.run (first >>= next).run = .ok value ↔
      ∃ middle, Id.run first.run = .ok middle ∧ Id.run (next middle).run = .ok value := by
  rw [run_bind, Result.bind_eq_ok]

theorem pure_eq_ok {value other : α} :
    Id.run (pure value : ExceptT Error Id α).run = .ok other ↔ value = other := by
  rw [ExceptT.run_pure, Id.run_pure, Except.ok.injEq]

theorem lift_eq_ok {value : Id α} {other : α} :
    Id.run (ExceptT.lift value : ExceptT Error Id α).run = .ok other ↔ Id.run value = other := by
  have lifted : Id.run (ExceptT.lift value : ExceptT Error Id α).run = .ok (Id.run value) := rfl
  rw [lifted, Except.ok.injEq]

theorem forall₂_of_mapM {step : α → ExceptT Error Id β} {items : List α} {values : List β}
    (ran : Id.run (items.mapM step).run = .ok values) :
    List.Forall₂ (fun item value => Id.run (step item).run = .ok value) items values := by
  induction items generalizing values with
  | nil =>
    rw [List.mapM_nil, pure_eq_ok] at ran
    exact ran ▸ .nil
  | cons item rest ih =>
    rw [List.mapM_cons] at ran
    obtain ⟨value, stepped, ran⟩ := bind_eq_ok.mp ran
    obtain ⟨others, mapped, ran⟩ := bind_eq_ok.mp ran
    exact pure_eq_ok.mp ran ▸ .cons stepped (ih mapped)

end Loading

/-- The document at a path. -/
def FileTree.document (tree : FileTree) (path : String) : Result Schema.Document :=
  Id.run (Schema.readDocument tree.access path).run

namespace Schema

variable {tree : FileTree}

theorem document_eq_ok {path : String} {document : Document} :
    tree.document path = .ok document ↔
      ∃ text, tree.read path = .ok text ∧ Document.ofText text = .ok document := by
  rw [FileTree.document, readDocument, Loading.bind_eq_ok]
  constructor
  · rintro ⟨given, read, parsed⟩
    have same : tree.read path = given := Loading.lift_eq_ok.mp read
    cases given with
    | error failure => cases parsed
    | ok text => exact ⟨text, same, parsed⟩
  · rintro ⟨text, read, parsed⟩
    exact ⟨.ok text, Loading.lift_eq_ok.mpr read, parsed⟩

/-- A document of the tree, and its place. -/
def DocumentAt (tree : FileTree) (place : String) (document : Document) : Prop :=
  ∃ path, tree.place? path = some place ∧ tree.document path = .ok document

theorem DocumentAt.unique {place : String} {document other : Document}
    (first : DocumentAt tree place document) (second : DocumentAt tree place other) :
    document = other := by
  obtain ⟨path, found, loaded⟩ := first
  obtain ⟨otherPath, otherFound, otherLoaded⟩ := second
  obtain ⟨text, read, parsed⟩ := document_eq_ok.mp loaded
  obtain ⟨otherText, otherRead, otherParsed⟩ := document_eq_ok.mp otherLoaded
  obtain rfl := FileTree.read_unique read otherRead (found.trans otherFound.symm)
  exact Except.ok.inj (parsed.symm.trans otherParsed)

theorem exists_documentAt {path : String} {document : Document}
    (loaded : tree.document path = .ok document) :
    ∃ place, tree.place? path = some place ∧ DocumentAt tree place document := by
  obtain ⟨text, read, _⟩ := document_eq_ok.mp loaded
  obtain ⟨names, _, _, _, place⟩ := FileTree.exists_place_of_read read
  exact ⟨_, place, path, place, loaded⟩

/-- A document is the text of a file. -/
theorem DocumentAt.exists_file {place : String} {document : Document}
    (at_ : DocumentAt tree place document) :
    ∃ file ∈ tree.files,
      place = "/".intercalate file.1 ∧ Document.ofText file.2 = .ok document := by
  obtain ⟨path, found, read⟩ := at_
  obtain ⟨text, read, parsed⟩ := document_eq_ok.mp read
  obtain ⟨names, _, _, has, placed⟩ := FileTree.exists_place_of_read read
  obtain ⟨file, first, rfl⟩ := Option.map_eq_some_iff.mp has
  obtain rfl : file.1 = names := by simpa using List.find?_some first
  exact ⟨file, List.mem_of_find?_eq_some first, Option.some.inj (found.symm.trans placed), parsed⟩

/-! ## Merged documents -/

namespace Document

/-- A document under a prefix, if there is one. -/
def under (space : Option String) (document : Document) : Document :=
  match space with
  | some space => document.qualify space
  | none => document

/-- The declarations of a document are in another one, side by side as they are written. -/
structure Holds (whole part : Document) : Prop where
  complexTypes : part.complexTypes <:+: whole.complexTypes
  simpleTypes : part.simpleTypes <:+: whole.simpleTypes
  elements : part.elements <:+: whole.elements
  attributes : part.attributes <:+: whole.attributes
  attributeGroups : part.attributeGroups <:+: whole.attributeGroups
  groups : part.groups <:+: whole.groups

theorem bindSpace_sorted {table : Namespaces} (sorted : Table.Sorted table)
    (entry : String × String) : Table.Sorted (bindSpace table entry) := by
  unfold bindSpace
  split
  · exact sorted
  · exact Table.sorted_set sorted entry.1 entry.2

theorem subset_bindSpace (table : Namespaces) (entry : String × String) :
    table ⊆ bindSpace table entry := by
  intro known member
  unfold bindSpace
  split
  · exact member
  next fresh =>
    rw [Table.has_iff_mem_names] at fresh
    exact (Table.set_perm fresh entry.2).mem_iff.mpr (List.mem_cons_of_mem _ member)

theorem mem_of_mem_bindSpace {table : Namespaces} {entry known : String × String}
    (member : known ∈ bindSpace table entry) : known = entry ∨ known ∈ table := by
  unfold bindSpace at member
  split at member
  · exact .inr member
  · exact Table.mem_of_mem_set member

theorem merge_sorted {document : Document} (sorted : Table.Sorted document.namespaces)
    (other : Document) : Table.Sorted (document.merge other).namespaces :=
  List.foldlRecOn other.namespaces bindSpace sorted fun _ sorted entry _ =>
    bindSpace_sorted sorted entry

/-- A prefix keeps its namespace. -/
theorem namespaces_subset_merge (document other : Document) :
    document.namespaces ⊆ (document.merge other).namespaces :=
  List.foldlRecOn other.namespaces bindSpace (List.Subset.refl _) fun _ subset entry _ =>
    List.Subset.trans subset (subset_bindSpace _ entry)

theorem mem_merge_namespaces {document other : Document} {entry : String × String}
    (member : entry ∈ (document.merge other).namespaces) :
    entry ∈ document.namespaces ∨ entry ∈ other.namespaces := by
  refine List.foldlRecOn (motive := fun (table : Namespaces) => ∀ entry ∈ table,
    entry ∈ document.namespaces ∨ entry ∈ other.namespaces) other.namespaces bindSpace
    (fun _ => .inl) (fun _ known added inOther entry member => ?_) entry member
  exact (mem_of_mem_bindSpace member).elim (fun same => .inr (same ▸ inOther)) (known entry)

theorem spaceOf?_eq_some {document : Document} {uri space : String}
    (found : document.spaceOf? uri = some space) :
    space ≠ "" ∧ (space, uri) ∈ document.namespaces := by
  obtain ⟨entry, first, rfl⟩ := Option.map_eq_some_iff.mp found
  obtain ⟨named, rfl⟩ : entry.1 ≠ "" ∧ entry.2 = uri := by simpa using List.find?_some first
  exact ⟨named, List.mem_of_find?_eq_some first⟩

/-- The prefixes of a document that has been read are in order. -/
theorem ofText_sorted {text : String} {document : Document}
    (read : ofText text = .ok document) : Table.Sorted document.namespaces := by
  unfold ofText at read
  split at read
  · cases read
  next value _ =>
    split at read
    next document decoded =>
      cases read
      obtain ⟨record, _, decoded⟩ := Result.bind_eq_ok.mp decoded
      obtain ⟨namespaces, given, decoded⟩ := Result.bind_eq_ok.mp decoded
      iterate 7 obtain ⟨_, _, decoded⟩ := Result.bind_eq_ok.mp decoded
      cases decoded
      unfold Json.Record.defaulted at given
      split at given
      next members _ =>
        cases members with
        | obj members =>
          obtain ⟨entries, _, given⟩ := Result.bind_eq_ok.mp given
          cases given
          exact Table.sorted_ofList entries
        | _ => cases given
      next =>
        cases given
        exact Table.sorted_nil
    next => cases read

end Document

/-! ## Parts -/

/-- What a file contributes: its document, under a prefix if there is one. -/
structure Part where
  place : String
  space : Option String
  document : Document

def Part.content (part : Part) : Document := part.document.under part.space

theorem Part.content_namespaces (part : Part) :
    part.content.namespaces = part.document.namespaces := by
  unfold Part.content
  cases part.space <;> rfl

/-- The declarations of a document are those of some parts, one after the other. -/
structure Document.Joins (whole : Document) (parts : List Part) : Prop where
  complexTypes : whole.complexTypes = parts.flatMap (·.content.complexTypes)
  simpleTypes : whole.simpleTypes = parts.flatMap (·.content.simpleTypes)
  elements : whole.elements = parts.flatMap (·.content.elements)
  attributes : whole.attributes = parts.flatMap (·.content.attributes)
  attributeGroups : whole.attributeGroups = parts.flatMap (·.content.attributeGroups)
  groups : whole.groups = parts.flatMap (·.content.groups)

theorem Document.Joins.merge {whole other : Document} {parts more : List Part}
    (joins : whole.Joins parts) (others : other.Joins more) :
    (whole.merge other).Joins (parts ++ more) where
  complexTypes := by
    rw [Document.merge, List.flatMap_append, joins.complexTypes, others.complexTypes]
  simpleTypes := by rw [Document.merge, List.flatMap_append, joins.simpleTypes, others.simpleTypes]
  elements := by rw [Document.merge, List.flatMap_append, joins.elements, others.elements]
  attributes := by rw [Document.merge, List.flatMap_append, joins.attributes, others.attributes]
  attributeGroups := by
    rw [Document.merge, List.flatMap_append, joins.attributeGroups, others.attributeGroups]
  groups := by rw [Document.merge, List.flatMap_append, joins.groups, others.groups]

theorem Part.joins (part : Part) : part.content.Joins [part] := by
  constructor <;> exact (List.flatMap_singleton _ _).symm

theorem Document.Joins.holds {whole : Document} {parts : List Part} (joins : whole.Joins parts)
    {part : Part} (member : part ∈ parts) : whole.Holds part.content := by
  have infix_ {α : Type} (declared : Part → List α) : declared part <:+: parts.flatMap declared :=
    List.infix_of_mem_flatten (List.mem_map_of_mem member)
  exact
    { complexTypes := joins.complexTypes ▸ infix_ (·.content.complexTypes)
      simpleTypes := joins.simpleTypes ▸ infix_ (·.content.simpleTypes)
      elements := joins.elements ▸ infix_ (·.content.elements)
      attributes := joins.attributes ▸ infix_ (·.content.attributes)
      attributeGroups := joins.attributeGroups ▸ infix_ (·.content.attributeGroups)
      groups := joins.groups ▸ infix_ (·.content.groups) }

/-- Parts as one document without imports: the first one, to which the others are added. -/
def joined : List Part → Document
  | [] => default
  | first :: rest =>
    rest.foldl (fun whole part => whole.merge part.content) { first.content with imports := [] }

theorem joined_concat {parts : List Part} (nonempty : parts ≠ []) (part : Part) :
    joined (parts ++ [part]) = (joined parts).merge part.content := by
  cases parts with
  | nil => exact absurd rfl nonempty
  | cons first rest => rw [List.cons_append, joined, List.foldl_append]; rfl

theorem joined_joins (parts : List Part) : (joined parts).Joins parts := by
  induction parts using List.reverseRecOn with
  | nil => constructor <;> rfl
  | append_singleton parts part ih =>
    by_cases only : parts = []
    · subst only
      exact { part.joins with }
    · rw [joined_concat only]
      exact ih.merge part.joins

theorem joined_imports (parts : List Part) : (joined parts).imports = [] := by
  induction parts using List.reverseRecOn with
  | nil => rfl
  | append_singleton parts part ih =>
    by_cases only : parts = []
    · subst only
      rfl
    · rw [joined_concat only]
      exact ih

/-- The imports of some parts, each with the place of its document. -/
def importsOf (parts : List Part) : List (String × Import) :=
  parts.flatMap fun part => part.document.imports.map (part.place, ·)

theorem importsOf_append (first second : List Part) :
    importsOf (first ++ second) = importsOf first ++ importsOf second := List.flatMap_append

theorem mem_importsOf {parts : List Part} {item : String × Import} :
    item ∈ importsOf parts ↔
      ∃ part ∈ parts, part.place = item.1 ∧ item.2 ∈ part.document.imports := by
  obtain ⟨place, entry⟩ := item
  simp only [importsOf, List.mem_flatMap, List.mem_map, Prod.mk.injEq, exists_eq_right_right]
  exact exists_congr fun part => and_congr_right fun _ => and_comm

/-! ## Readings -/

/-- The place that an import leads to, seen from the directory of a root document. -/
def target? (tree : FileTree) (root : String) (entry : Import) : Option String :=
  tree.place? (Path.join (Path.parent root) entry.location)

/-- An import of a part, and the prefix that its namespace has when it is looked at. -/
structure Request where
  importer : String
  entry : Import
  space : Option String

namespace Request

def item (request : Request) : String × Import := (request.importer, request.entry)

/-- An import is passed over if one before it has the same prefix. -/
def PassedOver (request : Request) (before : List Request) : Prop :=
  ∃ space, request.space = some space ∧ ∃ other ∈ before, other.space = some space

/-- The request for the first import of some parts that has not been looked at. -/
structure IsNext (request : Request) (parts : List Part) (requests : List Request) : Prop where
  queue : requests.map item ++ [request.item] <+: importsOf parts
  space : request.space = request.entry.space.bind (joined parts).spaceOf?

end Request

/-- How a root document is read, after some `old` places have been: the parts that are taken in and
the imports of these that are looked at, one after the other. -/
inductive Inlines (tree : FileTree) (root : String) (old : List String) :
    List Part → List Request → Prop
  /-- The root document comes first. -/
  | opens {place : String} {document : Document} (found : tree.place? root = some place)
      (new : place ∉ old) (at_ : DocumentAt tree place document) :
      Inlines tree root old [⟨place, none, document⟩] []
  | passes {parts : List Part} {requests : List Request} {request : Request}
      (inlines : Inlines tree root old parts requests) (next : request.IsNext parts requests)
      (passed : request.PassedOver requests) :
      Inlines tree root old parts (requests ++ [request])
  /-- An import that is not passed over may lead to a place that has been read. -/
  | revisits {parts : List Part} {requests : List Request} {request : Request} {place : String}
      (inlines : Inlines tree root old parts requests) (next : request.IsNext parts requests)
      (followed : ¬request.PassedOver requests)
      (leads : target? tree root request.entry = some place)
      (known : place ∈ parts.map (·.place) ∨ place ∈ old) :
      Inlines tree root old parts (requests ++ [request])
  /-- Otherwise the document there is taken in, under the prefix of the import. -/
  | takesIn {parts : List Part} {requests : List Request} {request : Request} {place : String}
      {document : Document} (inlines : Inlines tree root old parts requests)
      (next : request.IsNext parts requests) (followed : ¬request.PassedOver requests)
      (leads : target? tree root request.entry = some place)
      (new : ¬(place ∈ parts.map (·.place) ∨ place ∈ old))
      (at_ : DocumentAt tree place document) :
      Inlines tree root old (parts ++ [⟨place, request.space, document⟩]) (requests ++ [request])

/-- An import that has been looked at without being passed over. -/
def Request.IsFollowed (request : Request) (requests : List Request) : Prop :=
  ∃ before after, requests = before ++ request :: after ∧ ¬request.PassedOver before

/-- An import that is followed leads to a place. -/
def LeadsTo (tree : FileTree) (root : String) (requests : List Request) (place : String) : Prop :=
  ∃ request : Request, request.IsFollowed requests ∧
    target? tree root request.entry = some place

theorem isFollowed_concat {requests : List Request} {request last : Request} :
    request.IsFollowed (requests ++ [last]) ↔
      request.IsFollowed requests ∨ request = last ∧ ¬last.PassedOver requests := by
  constructor
  · rintro ⟨before, after, split, followed⟩
    -- The import is the last one, or it has been looked at before that.
    rcases List.eq_nil_or_concat after with rfl | ⟨others, final, rfl⟩
    · obtain ⟨rfl, same⟩ := List.append_inj' split rfl
      obtain rfl := List.head_eq_of_cons_eq same
      exact .inr ⟨rfl, followed⟩
    · rw [List.concat_eq_append, ← List.cons_append, ← List.append_assoc] at split
      exact .inl ⟨before, others, (List.append_inj' split rfl).1, followed⟩
  · rintro (⟨before, after, rfl, followed⟩ | ⟨rfl, followed⟩)
    · exact ⟨before, after ++ [last], by simp, followed⟩
    · exact ⟨requests, [], rfl, followed⟩

theorem leadsTo_concat {root place : String} {requests : List Request} {last : Request} :
    LeadsTo tree root (requests ++ [last]) place ↔ LeadsTo tree root requests place ∨
      ¬last.PassedOver requests ∧ target? tree root last.entry = some place := by
  simp only [LeadsTo, isFollowed_concat, or_and_right, exists_or, and_assoc, exists_eq_left]

/-- For an import that is passed over, one of its prefix has been followed. -/
theorem Request.exists_isFollowed {requests : List Request} {request : Request}
    (member : request ∈ requests) :
    ∃ other, other.IsFollowed requests ∧ (other = request ∨
      other ∈ requests ∧ ∃ space, request.space = some space ∧ other.space = some space) := by
  obtain ⟨before, after, split⟩ := List.append_of_mem member
  by_cases passed : request.PassedOver before
  · obtain ⟨space, has, other, inBefore, otherHas⟩ := passed
    have known : other ∈ requests := split ▸ List.mem_append_left _ inBefore
    -- The first import with the prefix has none before it that could have taken it.
    have some_ : (requests.find? (·.space == some space)).isSome = true :=
      List.find?_isSome.mpr ⟨other, known, beq_iff_eq.mpr otherHas⟩
    obtain ⟨first, found⟩ := Option.isSome_iff_exists.mp some_
    obtain ⟨firstHas, earlier, later, splitFirst, none⟩ :=
      List.find?_eq_some_iff_append.mp found
    refine ⟨first, ⟨earlier, later, splitFirst, ?_⟩,
      .inr ⟨List.mem_of_find?_eq_some found, space, has, beq_iff_eq.mp firstHas⟩⟩
    rintro ⟨taken, takes, rival, inEarlier, rivalTakes⟩
    have same : rival.space = some space :=
      rivalTakes.trans (takes.symm.trans (beq_iff_eq.mp firstHas))
    simpa [same] using none rival inEarlier
  · exact ⟨request, ⟨before, after, split, passed⟩, .inl rfl⟩

namespace Inlines

variable {root : String} {old : List String} {parts : List Part} {requests : List Request}

theorem nonempty (inlines : Inlines tree root old parts requests) : parts ≠ [] := by
  induction inlines with
  | opens => exact List.cons_ne_nil _ _
  | passes _ _ _ ih => exact ih
  | revisits _ _ _ _ _ ih => exact ih
  | takesIn => exact List.append_ne_nil_of_right_ne_nil _ (List.cons_ne_nil _ _)

/-- No place is taken in twice. -/
theorem nodup (inlines : Inlines tree root old parts requests) :
    (parts.map (·.place)).Nodup := by
  induction inlines with
  | opens => exact List.nodup_singleton _
  | passes _ _ _ ih => exact ih
  | revisits _ _ _ _ _ ih => exact ih
  | takesIn _ _ _ _ new _ ih =>
    rw [List.map_append, List.map_singleton, ← List.concat_eq_append]
    exact ih.concat fun known => new (.inl known)

/-- What is taken in is the root document and that to which an import leads, unless it was there
before. -/
theorem mem_places_iff (inlines : Inlines tree root old parts requests) {place : String} :
    place ∈ parts.map (·.place) ↔
      (tree.place? root = some place ∨ LeadsTo tree root requests place) ∧ place ∉ old := by
  induction inlines with
  | opens found new _ =>
    have nowhere : ¬LeadsTo tree root [] place := fun ⟨_, ⟨_, _, split, _⟩, _⟩ => by
      simp at split
    rw [List.map_singleton, List.mem_singleton, found, Option.some.injEq, or_iff_left nowhere]
    exact ⟨fun same => ⟨same.symm, same ▸ new⟩, fun same => same.1.symm⟩
  | passes _ _ passed ih =>
    rw [ih, leadsTo_concat]
    tauto
  | revisits _ _ followed leads known ih =>
    rw [leadsTo_concat, leads, Option.some.injEq]
    refine ⟨fun member => ⟨(ih.mp member).1.imp_right .inl, (ih.mp member).2⟩, ?_⟩
    rintro ⟨root | before | ⟨_, rfl⟩, new⟩
    · exact ih.mpr ⟨.inl root, new⟩
    · exact ih.mpr ⟨.inr before, new⟩
    · exact known.resolve_right new
  | takesIn _ _ followed leads new _ ih =>
    rw [leadsTo_concat, leads, Option.some.injEq, List.map_append, List.mem_append,
      List.map_singleton, List.mem_singleton, ih]
    constructor
    · rintro (⟨root | before, fresh⟩ | rfl)
      · exact ⟨.inl root, fresh⟩
      · exact ⟨.inr (.inl before), fresh⟩
      · exact ⟨.inr (.inr ⟨followed, rfl⟩), fun known => new (.inr known)⟩
    · rintro ⟨root | before | ⟨_, same⟩, fresh⟩
      · exact .inl ⟨.inl root, fresh⟩
      · exact .inl ⟨.inr before, fresh⟩
      · exact .inr same.symm

end Inlines

/-! ## What a document meets -/

/-- The places of a root document and of all that it imports, directly or not. -/
inductive Meets (tree : FileTree) (root : String) : String → Prop
  | root {place : String} : tree.place? root = some place → Meets tree root place
  | imported {importer place : String} {document : Document} {entry : Import} :
    Meets tree root importer → DocumentAt tree importer document → entry ∈ document.imports →
    target? tree root entry = some place → Meets tree root place

/-- A document that is met imports something. -/
def MeetsImport (tree : FileTree) (root : String) (entry : Import) : Prop :=
  ∃ place document, Meets tree root place ∧ DocumentAt tree place document ∧
    entry ∈ document.imports

/-- A document that is met binds a prefix to a namespace. -/
def Binds (tree : FileTree) (root space uri : String) : Prop :=
  space ≠ "" ∧ ∃ place document, Meets tree root place ∧ DocumentAt tree place document ∧
    (space, uri) ∈ document.namespaces

/-- Two imports of one namespace that has a prefix. -/
def SharesSpace (tree : FileTree) (root : String) (entry other : Import) : Prop :=
  ∃ uri space, entry.space = some uri ∧ other.space = some uri ∧ Binds tree root space uri

theorem mem_joined_namespaces {parts : List Part} {entry : String × String}
    (member : entry ∈ (joined parts).namespaces) :
    ∃ part ∈ parts, entry ∈ part.document.namespaces := by
  induction parts using List.reverseRecOn with
  | nil => cases member
  | append_singleton parts part ih =>
    by_cases only : parts = []
    · subst only
      exact ⟨part, List.mem_singleton_self part, part.content_namespaces ▸ member⟩
    · rw [joined_concat only] at member
      rcases Document.mem_merge_namespaces member with old | new
      · obtain ⟨other, inParts, bound⟩ := ih old
        exact ⟨other, List.mem_append_left _ inParts, bound⟩
      · exact ⟨part, List.mem_append_right _ (List.mem_singleton_self part),
          part.content_namespaces ▸ new⟩

namespace Request

/-- The prefix of a request stands for the namespace of its import. -/
def IsBound (request : Request) (namespaces : Namespaces) : Prop :=
  ∀ space, request.space = some space →
    ∃ uri, request.entry.space = some uri ∧ space ≠ "" ∧ (space, uri) ∈ namespaces

theorem IsBound.mono {request : Request} {namespaces more : Namespaces}
    (bound : request.IsBound namespaces) (subset : namespaces ⊆ more) : request.IsBound more :=
  fun space has => (bound space has).imp fun _ => And.imp_right (And.imp_right (subset ·))

theorem IsNext.isBound {request : Request} {parts : List Part} {requests : List Request}
    (next : request.IsNext parts requests) : request.IsBound (joined parts).namespaces := by
  intro space has
  obtain ⟨uri, given, found⟩ := Option.bind_eq_some_iff.mp (next.space.symm.trans has)
  obtain ⟨named, bound⟩ := Document.spaceOf?_eq_some found
  exact ⟨uri, given, named, bound⟩

end Request

namespace Inlines

variable {root : String} {old : List String} {parts : List Part} {requests : List Request}

/-- What is taken in is met. -/
theorem meets (inlines : Inlines tree root old parts requests) :
    ∀ part ∈ parts, Meets tree root part.place ∧ DocumentAt tree part.place part.document := by
  induction inlines with
  | opens found _ at_ =>
    intro part member
    obtain rfl := List.mem_singleton.mp member
    exact ⟨.root found, at_⟩
  | passes _ _ _ ih => exact ih
  | revisits _ _ _ _ _ ih => exact ih
  | takesIn _ next _ leads _ at_ ih =>
    intro part member
    rcases List.mem_append.mp member with old | new
    · exact ih part old
    · obtain rfl := List.mem_singleton.mp new
      obtain ⟨importing, inParts, same, imports⟩ := mem_importsOf.mp
        (next.queue.subset (List.mem_append_right _ (List.mem_singleton_self _)))
      obtain ⟨met, importer⟩ := ih importing inParts
      exact ⟨.imported met importer imports leads, at_⟩

theorem sorted (inlines : Inlines tree root old parts requests) :
    Table.Sorted (joined parts).namespaces := by
  induction inlines with
  | opens _ _ at_ =>
    obtain ⟨file, _, _, parsed⟩ := at_.exists_file
    exact (Document.ofText_sorted parsed : Table.Sorted _)
  | passes _ _ _ ih => exact ih
  | revisits _ _ _ _ _ ih => exact ih
  | takesIn inlines _ _ _ _ _ ih =>
    rw [joined_concat inlines.nonempty]
    exact Document.merge_sorted ih _

/-- The prefix of an import stands for its namespace from then on. -/
theorem bound (inlines : Inlines tree root old parts requests) :
    ∀ request ∈ requests, request.IsBound (joined parts).namespaces := by
  have concat {parts : List Part} {requests : List Request} {request : Request}
      (next : request.IsNext parts requests)
      (before : ∀ other ∈ requests, other.IsBound (joined parts).namespaces) :
      ∀ other ∈ requests ++ [request], other.IsBound (joined parts).namespaces :=
    List.forall_mem_append.mpr ⟨before, List.forall_mem_singleton.mpr next.isBound⟩
  induction inlines with
  | opens => exact fun _ member => nomatch member
  | passes _ next _ ih => exact concat next ih
  | revisits _ next _ _ _ ih => exact concat next ih
  | takesIn inlines next _ _ _ _ ih =>
    rw [joined_concat inlines.nonempty]
    exact fun other member =>
      (concat next ih other member).mono (Document.namespaces_subset_merge _ _)

/-- A part has the prefix of an import that leads to it, or none. -/
theorem space_cases (inlines : Inlines tree root old parts requests) :
    ∀ part ∈ parts, part.space = none ∨ ∃ request ∈ requests,
      request.space = part.space ∧ target? tree root request.entry = some part.place := by
  have more {requests : List Request} {last : Request} {part : Part}
      (before : part.space = none ∨ ∃ request ∈ requests,
        request.space = part.space ∧ target? tree root request.entry = some part.place) :
      part.space = none ∨ ∃ request ∈ requests ++ [last],
        request.space = part.space ∧ target? tree root request.entry = some part.place :=
    before.imp_right fun ⟨request, member, leads⟩ =>
      ⟨request, List.mem_append_left _ member, leads⟩
  induction inlines with
  | opens =>
    intro part member
    obtain rfl := List.mem_singleton.mp member
    exact .inl rfl
  | passes _ _ _ ih => exact fun part member => more (ih part member)
  | revisits _ _ _ _ _ ih => exact fun part member => more (ih part member)
  | @takesIn _ requests request _ _ _ _ _ leads _ _ ih =>
    intro part member
    rcases List.mem_append.mp member with old | new
    · exact more (ih part old)
    · obtain rfl := List.mem_singleton.mp new
      exact .inr ⟨request, List.mem_append_right _ (List.mem_singleton_self _), rfl, leads⟩

/-- Imports with one prefix are of one namespace. -/
theorem sharesSpace (inlines : Inlines tree root old parts requests) {request other : Request}
    (member : request ∈ requests) (otherMember : other ∈ requests) {space : String}
    (has : request.space = some space) (otherHas : other.space = some space) :
    SharesSpace tree root request.entry other.entry := by
  obtain ⟨uri, given, named, bound⟩ := inlines.bound request member space has
  obtain ⟨otherUri, otherGiven, _, otherBound⟩ := inlines.bound other otherMember space otherHas
  have nodup := inlines.sorted.nodup
  obtain rfl : uri = otherUri := Option.some.inj
    ((Table.get?_of_mem nodup bound).symm.trans (Table.get?_of_mem nodup otherBound))
  obtain ⟨part, inParts, inDocument⟩ := mem_joined_namespaces bound
  obtain ⟨met, at_⟩ := inlines.meets part inParts
  exact ⟨uri, space, given, otherGiven, named, part.place, part.document, met, at_, inDocument⟩

end Inlines

/-! ## Loading -/

/-- What following an import does: it is passed over, leads to a place that has been read, or takes
in a document. -/
theorem inlineImport_cases {root : String} {state next : Inlining} {entry : Import}
    (ran : Id.run (inlineImport tree.access (Path.parent root) state entry).run = .ok next) :
    ((∃ space ∈ state.spaces, entry.space.bind state.document.spaceOf? = some space) ∧
        next = state) ∨
      (∀ space, entry.space.bind state.document.spaceOf? = some space → space ∉ state.spaces) ∧
      ∃ place, target? tree root entry = some place ∧
        ((place ∈ state.places ∧
            next = { state with
              spaces := (entry.space.bind state.document.spaceOf?).toList ++ state.spaces }) ∨
          place ∉ state.places ∧ ∃ sub, DocumentAt tree place sub ∧
            next =
              { document := state.document.merge
                  (sub.under (entry.space.bind state.document.spaceOf?))
                spaces := (entry.space.bind state.document.spaceOf?).toList ++ state.spaces
                places := place :: state.places
                pending := state.pending ++ sub.imports }) := by
  unfold inlineImport at ran
  dsimp only at ran
  split at ran
  next taken =>
    obtain rfl := Loading.pure_eq_ok.mp ran
    obtain ⟨space, found, known⟩ := (Option.any_eq_true _ _).mp taken
    exact .inl ⟨⟨space, List.contains_iff_mem.mp known, found⟩, rfl⟩
  next free =>
    refine .inr ⟨fun space found known => free ((Option.any_eq_true _ _).mpr
      ⟨space, found, List.contains_iff_mem.mpr known⟩), ?_⟩
    rw [Loading.bind_eq_ok] at ran
    obtain ⟨place, found, ran⟩ := ran
    have target : target? tree root entry = place := Loading.lift_eq_ok.mp found
    split at ran
    next known =>
      obtain rfl := Loading.pure_eq_ok.mp ran
      obtain ⟨there, same, known⟩ := (Option.any_eq_true _ _).mp known
      exact ⟨there, target.trans same, .inl ⟨List.contains_iff_mem.mp known, rfl⟩⟩
    next new =>
      rw [Loading.bind_eq_ok] at ran
      obtain ⟨sub, read, ran⟩ := ran
      obtain rfl := Loading.pure_eq_ok.mp ran
      obtain ⟨there, found, sub⟩ := exists_documentAt read
      obtain rfl : place = some there := target.symm.trans found
      refine ⟨there, target, .inr ⟨fun known => new ?_, _, sub, ?_⟩⟩
      · simpa using known
      · cases entry.space.bind state.document.spaceOf? <;> rfl

/-- When nothing is pending, no import waits. -/
theorem eq_nil_of_pending {waiting : List (String × Import)} {pending : List Import}
    (queued : waiting.map (·.2) = pending) (none : pending.isEmpty = true) : waiting = [] := by
  rw [List.isEmpty_iff.mp none] at queued
  exact List.map_eq_nil_iff.mp queued

/-- How far the loading of a root document has come: what has been read, and the imports that
wait. -/
structure Trace (tree : FileTree) (root : String) (old : List String) (parts : List Part)
    (requests : List Request) (waiting : List (String × Import)) (state : Inlining) : Prop where
  inlines : Inlines tree root old parts requests
  queue : importsOf parts = requests.map (·.item) ++ waiting
  document : state.document = joined parts
  spaces : ∀ space, space ∈ state.spaces ↔ ∃ request ∈ requests, request.space = some space
  places : state.places = (parts.map (·.place)).reverse ++ old

namespace Trace

variable {root : String} {old : List String} {parts : List Part} {requests : List Request}
  {waiting : List (String × Import)} {item : String × Import} {state : Inlining}

theorem mem_places (trace : Trace tree root old parts requests waiting state) {place : String} :
    place ∈ state.places ↔ place ∈ parts.map (·.place) ∨ place ∈ old := by
  rw [trace.places, List.mem_append, List.mem_reverse]

/-- The request for an import that comes next. -/
def request (item : String × Import) (state : Inlining) : Request :=
  ⟨item.1, item.2, item.2.space.bind state.document.spaceOf?⟩

theorem isNext (trace : Trace tree root old parts requests (item :: waiting) state) :
    (request item state).IsNext parts requests where
  queue := ⟨waiting, by rw [trace.queue, List.append_assoc]; rfl⟩
  space := by rw [request, trace.document]

theorem passedOver_iff (trace : Trace tree root old parts requests (item :: waiting) state) :
    (request item state).PassedOver requests ↔
      ∃ space ∈ state.spaces, item.2.space.bind state.document.spaceOf? = some space := by
  simp only [Request.PassedOver, request, trace.spaces]
  exact exists_congr fun _ => and_comm

theorem queue_concat (trace : Trace tree root old parts requests (item :: waiting) state) :
    importsOf parts = (requests ++ [request item state]).map (·.item) ++ waiting := by
  rw [trace.queue, List.map_append, List.append_assoc]
  rfl

/-- The prefixes that are taken when an import is followed. -/
theorem spaces_concat (trace : Trace tree root old parts requests (item :: waiting) state)
    (space : String) :
    space ∈ (item.2.space.bind state.document.spaceOf?).toList ++ state.spaces ↔
      ∃ other ∈ requests ++ [request item state], other.space = some space := by
  simp only [List.mem_append, trace.spaces, Option.mem_toList, List.mem_singleton, or_and_right,
    exists_or, exists_eq_left, request]
  exact or_comm

/-- Looking at one import. The imports of a document that is taken in wait behind all others. -/
theorem step (trace : Trace tree root old parts requests (item :: waiting) state)
    {next : Inlining}
    (ran : Id.run (inlineImport tree.access (Path.parent root) state item.2).run = .ok next) :
    ∃ more, Trace tree root old (parts ++ more) (requests ++ [request item state])
        (waiting ++ importsOf more) next ∧
      next.pending = state.pending ++ (importsOf more).map (·.2) := by
  rcases inlineImport_cases ran with ⟨taken, rfl⟩ | ⟨free, place, leads, read⟩
  -- Passed over: its prefix is among those that are taken, so these stay the same.
  · refine ⟨[], ?_, by simp [importsOf]⟩
    simp only [importsOf, List.append_nil, List.flatMap_nil]
    refine
      { trace with
        inlines := .passes trace.inlines trace.isNext (trace.passedOver_iff.mpr taken)
        queue := trace.queue_concat
        spaces := fun space => ?_ }
    obtain ⟨known, isTaken, found⟩ := taken
    rw [← trace.spaces_concat, found, List.mem_append, Option.mem_toList, Option.some.injEq]
    exact ⟨.inr, fun member => member.elim (fun same => same ▸ isTaken) id⟩
  · have followed : ¬(request item state).PassedOver requests := fun passed => by
      obtain ⟨space, taken, found⟩ := trace.passedOver_iff.mp passed
      exact free space found taken
    rcases read with ⟨known, rfl⟩ | ⟨new, sub, at_, rfl⟩
    -- The prefix is taken even if there is nothing new to read.
    · refine ⟨[], ?_, by simp [importsOf]⟩
      simp only [importsOf, List.append_nil, List.flatMap_nil]
      exact
        { trace with
          inlines := .revisits trace.inlines trace.isNext followed leads
            (trace.mem_places.mp known)
          queue := trace.queue_concat
          spaces := trace.spaces_concat }
    · refine ⟨[⟨place, (request item state).space, sub⟩], ?_, by
        simp [importsOf, Function.comp_def]⟩
      exact
        { inlines := .takesIn trace.inlines trace.isNext followed leads
            (fun known => new (trace.mem_places.mpr known)) at_
          queue := by rw [importsOf_append, trace.queue_concat, List.append_assoc]
          document := by
            rw [joined_concat trace.inlines.nonempty, ← trace.document]
            rfl
          spaces := trace.spaces_concat
          places := by simp [trace.places] }

/-- One round looks at all imports that wait at its start. -/
theorem round {todo : List Import} (trace : Trace tree root old parts requests waiting state)
    (queued : waiting.map (·.2) = todo ++ state.pending) {next : Inlining}
    (ran : Id.run (todo.foldlM (inlineImport tree.access (Path.parent root)) state).run =
      .ok next) :
    ∃ parts requests waiting, Trace tree root old parts requests waiting next ∧
      waiting.map (·.2) = next.pending := by
  induction todo generalizing parts requests waiting state with
  | nil =>
    obtain rfl := Loading.pure_eq_ok.mp ran
    exact ⟨parts, requests, waiting, trace, queued⟩
  | cons entry todo ih =>
    rw [List.foldlM_cons, Loading.bind_eq_ok] at ran
    obtain ⟨middle, first, ran⟩ := ran
    -- What is left of the round stands before what is pending, so its first import waits first.
    obtain _ | ⟨item, waiting⟩ := waiting
    · cases queued
    · obtain ⟨rfl, _⟩ := List.cons.inj queued
      have behind : waiting.map (·.2) = todo ++ state.pending := (List.cons.inj queued).2
      obtain ⟨more, trace, pending⟩ := trace.step first
      exact ih trace (by rw [List.map_append, behind, pending, List.append_assoc]) ran

theorem rounds {count : Nat} (trace : Trace tree root old parts requests waiting state)
    (queued : waiting.map (·.2) = state.pending) {final : Inlining}
    (ran : Id.run (inlineRounds tree.access (Path.parent root) count state).run = .ok final) :
    ∃ parts requests, Trace tree root old parts requests [] final := by
  induction count generalizing parts requests waiting state with
  | zero =>
    unfold inlineRounds at ran
    split at ran
    next none =>
      obtain rfl := Loading.pure_eq_ok.mp ran
      exact ⟨parts, requests, eq_nil_of_pending queued none ▸ trace⟩
    next => cases ran
  | succ count ih =>
    unfold inlineRounds at ran
    split at ran
    next none =>
      obtain rfl := Loading.pure_eq_ok.mp ran
      exact ⟨parts, requests, eq_nil_of_pending queued none ▸ trace⟩
    next =>
      rw [Loading.bind_eq_ok] at ran
      obtain ⟨next, round, ran⟩ := ran
      -- A round starts with nothing pending, and the trace does not speak of what is pending.
      have started : Trace tree root old parts requests waiting { state with pending := [] } :=
        { trace with }
      obtain ⟨parts, requests, waiting, trace, queued⟩ :=
        started.round (queued.trans (List.append_nil _).symm) round
      exact ih trace queued ran

end Trace

/-- What is read for an entry. -/
structure Reading where
  root : String
  parts : List Part
  requests : List Request

namespace Reading

def places (reading : Reading) : List String := reading.parts.map (·.place)

/-- All imports have been looked at. -/
structure IsComplete (tree : FileTree) (old : List String) (reading : Reading) : Prop where
  inlines : Inlines tree reading.root old reading.parts reading.requests
  queue : reading.requests.map (·.item) = importsOf reading.parts

theorem IsComplete.meetsImport {old : List String} {reading : Reading}
    (complete : reading.IsComplete tree old) {request : Request}
    (member : request ∈ reading.requests) : MeetsImport tree reading.root request.entry := by
  have imported : request.item ∈ importsOf reading.parts :=
    complete.queue ▸ List.mem_map_of_mem member
  obtain ⟨part, inParts, _, imports⟩ := mem_importsOf.mp imported
  obtain ⟨met, at_⟩ := complete.inlines.meets part inParts
  exact ⟨part.place, part.document, met, at_, imports⟩

end Reading

/-- A root document is read until no import waits. -/
theorem loadBelow_reads {path place : String} {old : List String} {loaded : Inlining}
    (found : tree.place? path = some place) (new : place ∉ old)
    (ran : Id.run (loadBelow tree.access path (place :: old)).run = .ok loaded) :
    ∃ reading : Reading, reading.root = path ∧ reading.IsComplete tree old ∧
      loaded.document = joined reading.parts ∧ loaded.places = reading.places.reverse ++ old := by
  obtain ⟨document, read, ran⟩ := Loading.bind_eq_ok.mp ran
  have start : Trace tree path old [⟨place, none, document⟩] []
      (importsOf [⟨place, none, document⟩]) (.start document (place :: old)) :=
    { inlines := .opens found new ⟨path, found, read⟩
      queue := rfl
      document := rfl
      spaces := by simp [Inlining.start]
      places := rfl }
  obtain ⟨parts, requests, trace⟩ :=
    start.rounds (by simp [importsOf, Inlining.start, Function.comp_def]) ran
  exact ⟨⟨path, parts, requests⟩, rfl,
    ⟨trace.inlines, (trace.queue.trans (List.append_nil _)).symm⟩, trace.document, trace.places⟩

end Schema

end EntityGraph
