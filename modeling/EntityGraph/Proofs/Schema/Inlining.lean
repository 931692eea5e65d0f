import EntityGraph.Proofs.Faults
import EntityGraph.Proofs.Rank
import EntityGraph.Proofs.Schema.Directory

/-!
# Every file once

Loading follows imports for as long as they lead to files that have not been read. There are only so
many files, so it comes to an end, whatever the documents import. What is loaded is put together of
the declarations of different files, one after the other, and has no imports of its own.
-/
namespace EntityGraph

/-! ## Computations that load -/

namespace Loading

variable {α β : Type} {fault : Fault}

theorem bind_congr {first : ExceptT Error Id α} {next other : α → ExceptT Error Id β}
    (same : ∀ value, Id.run first.run = .ok value → next value = other value) :
    first >>= next = first >>= other := by
  refine ExceptT.ext ?_
  change Id.run (first >>= next).run = Id.run (first >>= other).run
  rw [run_bind, run_bind]
  cases ran : Id.run first.run with
  | error failure => rfl
  | ok value => exact congrArg (fun loading => Id.run loading.run) (same value ran)

/-- Loading gives a value, or an error of another kind. -/
def Avoids (fault : Fault) (loading : ExceptT Error Id α) : Prop :=
  Result.Avoids fault (Id.run loading.run)

theorem Avoids.returns (value : α) : Avoids fault (pure value) := Result.avoids_ok value

theorem Avoids.lifts (value : Id α) : Avoids fault (ExceptT.lift value) := Result.avoids_ok _

theorem Avoids.bind {first : ExceptT Error Id α} {next : α → ExceptT Error Id β}
    (avoids : Avoids fault first)
    (continues : ∀ value, Id.run first.run = .ok value → Avoids fault (next value)) :
    Avoids fault (first >>= next) := by
  rw [Avoids, run_bind]
  exact avoids.bind_of_ok continues

theorem Avoids.mapM {step : α → ExceptT Error Id β} (each : ∀ item, Avoids fault (step item))
    (items : List α) : Avoids fault (items.mapM step) := by
  induction items with
  | nil => exact .returns []
  | cons item rest ih =>
    rw [List.mapM_cons]
    exact (each item).bind fun _ _ => ih.bind fun _ _ => .returns _

theorem Avoids.foldlM {step : β → α → ExceptT Error Id β}
    (each : ∀ state item, Avoids fault (step state item)) (items : List α) (start : β) :
    Avoids fault (items.foldlM step start) := by
  induction items generalizing start with
  | nil => exact .returns start
  | cons item rest ih =>
    rw [List.foldlM_cons]
    exact (each start item).bind fun next _ => ih next

/-- What holds at the start of a fold, and after every step that had it before, holds at the end. -/
theorem foldlM_induction {step : β → α → ExceptT Error Id β} (Holds : β → Prop) (items : List α)
    {start final : β} (folded : Id.run (items.foldlM step start).run = .ok final)
    (init : Holds start)
    (keeps : ∀ item ∈ items, ∀ before after, Id.run (step before item).run = .ok after →
      Holds before → Holds after) : Holds final := by
  induction items generalizing start with
  | nil => exact pure_eq_ok.mp folded ▸ init
  | cons item rest ih =>
    rw [List.foldlM_cons, bind_eq_ok] at folded
    obtain ⟨middle, stepped, folded⟩ := folded
    exact ih folded (keeps item List.mem_cons_self start middle stepped init)
      fun other member => keeps other (List.mem_cons_of_mem _ member)

end Loading

namespace Schema

variable {tree : FileTree}

/-! ## Files that have not been read -/

def placeOf (file : List String × String) : String := "/".intercalate file.1

/-- The number of files whose places are not among those that have been read. -/
def unread (tree : FileTree) (places : List String) : Nat :=
  remaining tree.files fun file => places.contains (placeOf file)

theorem unread_le_length (places : List String) : unread tree places ≤ tree.files.length :=
  remaining_le_length

theorem unread_cons_lt {places : List String} {place : String} {document : Document}
    (at_ : DocumentAt tree place document) (new : place ∉ places) :
    unread tree (place :: places) < unread tree places := by
  obtain ⟨file, member, rfl, _⟩ := at_.exists_file
  have opened : places.contains (placeOf file) = false := by simpa [placeOf] using new
  refine remaining_lt (fun other read => ?_) member opened (by simp [placeOf])
  simp only [List.contains_iff_mem] at read ⊢
  exact List.mem_cons_of_mem _ read

/-- Going from one state to another nothing becomes unread, and nothing is added to what is pending
unless a file has been read. -/
structure Consumes (tree : FileTree) (state next : Inlining) : Prop where
  le : unread tree next.places ≤ unread tree state.places
  pending : next.pending = state.pending ∨
    unread tree next.places < unread tree state.places

theorem Consumes.refl (state : Inlining) : Consumes tree state state := ⟨Nat.le_refl _, .inl rfl⟩

theorem Consumes.trans {state middle next : Inlining} (first : Consumes tree state middle)
    (second : Consumes tree middle next) : Consumes tree state next := by
  refine ⟨Nat.le_trans second.le first.le, ?_⟩
  rcases first.pending with same | fewer
  · rcases second.pending with alike | fewer
    · exact .inl (alike.trans same)
    · exact .inr (Nat.lt_of_lt_of_le fewer first.le)
  · exact .inr (Nat.lt_of_le_of_lt second.le fewer)

theorem inlineImport_consumes {root : String} {state next : Inlining} {entry : Import}
    (ran : Id.run (inlineImport tree.access (Path.parent root) state entry).run = .ok next) :
    Consumes tree state next := by
  rcases inlineImport_cases ran with ⟨_, rfl⟩ | ⟨_, place, _, ⟨_, rfl⟩ | ⟨new, sub, at_, rfl⟩⟩
  · exact .refl _
  · exact ⟨Nat.le_refl _, .inl rfl⟩
  · have fewer := unread_cons_lt at_ new
    exact ⟨Nat.le_of_lt fewer, .inr fewer⟩

/-! ## Rounds of imports -/

theorem inlineRounds_of_isEmpty {base : String} {rounds : Nat} {state : Inlining}
    (none : state.pending.isEmpty = true) :
    inlineRounds tree.access base rounds state = pure state := by
  cases rounds <;> rw [inlineRounds, if_pos none]

theorem inlineRounds_succ {base : String} {rounds : Nat} {state : Inlining}
    (some_ : state.pending.isEmpty = false) :
    inlineRounds tree.access base (rounds + 1) state =
      state.pending.foldlM (inlineImport tree.access base) { state with pending := [] } >>=
        inlineRounds tree.access base rounds := by
  rw [inlineRounds, if_neg (by simp [some_])]

/-- More rounds than there are unread files are enough for what is pending. -/
def Enough (tree : FileTree) (state : Inlining) (rounds : Nat) : Prop :=
  state.pending.isEmpty = true ∨ unread tree state.places < rounds

/-- A round after which something is pending has read a file, so one round less is enough. -/
theorem Enough.next {root : String} {state next : Inlining} {rounds : Nat}
    (enough : Enough tree state (rounds + 1)) (some_ : state.pending.isEmpty = false)
    (ran : Id.run (state.pending.foldlM (inlineImport tree.access (Path.parent root))
      { state with pending := [] }).run = .ok next) : Enough tree next rounds := by
  have consumes : Consumes tree { state with pending := [] } next :=
    Loading.foldlM_induction (Consumes tree { state with pending := [] }) _ ran (.refl _)
      fun entry _ before after stepped consumed => consumed.trans (inlineImport_consumes stepped)
  rcases consumes.pending with same | fewer
  · exact .inl (List.isEmpty_iff.mpr same)
  · have bound := enough.resolve_left (by simp [some_])
    exact .inr (Nat.lt_of_lt_of_le fewer (Nat.le_of_lt_succ bound))

/-- With enough rounds, more of them change nothing. -/
theorem inlineRounds_of_enough {root : String} {state : Inlining} {rounds other : Nat}
    (enough : Enough tree state rounds) (enoughOther : Enough tree state other) :
    inlineRounds tree.access (Path.parent root) rounds state =
      inlineRounds tree.access (Path.parent root) other state := by
  induction rounds generalizing state other with
  | zero =>
    have none : state.pending.isEmpty = true := enough.resolve_right (Nat.not_lt_zero _)
    rw [inlineRounds_of_isEmpty none, inlineRounds_of_isEmpty none]
  | succ rounds ih =>
    cases none : state.pending.isEmpty with
    | true => rw [inlineRounds_of_isEmpty none, inlineRounds_of_isEmpty none]
    | false =>
      cases other with
      | zero => simp [Enough, none] at enoughOther
      | succ other =>
        rw [inlineRounds_succ none, inlineRounds_succ none]
        exact Loading.bind_congr fun next ran =>
          ih (enough.next none ran) (enoughOther.next none ran)

/-! ## Loading comes to an end -/

theorem readDocument_avoids (path : String) :
    Loading.Avoids .imports (readDocument tree.access path) := by
  refine (Loading.Avoids.lifts (tree.read path)).bind fun given _ => ?_
  cases given with
  | error failure => exact Result.avoids_error rfl
  | ok text =>
    have parses : (Document.ofText text).Avoids .imports := by
      unfold Document.ofText
      split
      · exact Result.avoids_error rfl
      · split
        · exact Result.avoids_ok _
        · exact Result.avoids_error rfl
    exact parses

theorem inlineImport_avoids (base : String) (state : Inlining) (entry : Import) :
    Loading.Avoids .imports (inlineImport tree.access base state entry) := by
  unfold inlineImport
  extract_lets space
  split
  · exact .returns _
  · refine Loading.Avoids.bind (.lifts _) fun place _ => ?_
    split
    · exact .returns _
    · exact (readDocument_avoids _).bind fun _ _ => .returns _

theorem inlineRounds_avoids {root : String} {state : Inlining} {rounds : Nat}
    (enough : Enough tree state rounds) :
    Loading.Avoids .imports (inlineRounds tree.access (Path.parent root) rounds state) := by
  induction rounds generalizing state with
  | zero =>
    rw [inlineRounds_of_isEmpty (enough.resolve_right (Nat.not_lt_zero _))]
    exact .returns _
  | succ rounds ih =>
    cases none : state.pending.isEmpty with
    | true =>
      rw [inlineRounds_of_isEmpty none]
      exact .returns _
    | false =>
      rw [inlineRounds_succ none]
      exact (Loading.Avoids.foldlM (inlineImport_avoids _) _ _).bind fun next ran =>
        ih (enough.next none ran)

theorem loadBelow_avoids (path : String) (places : List String) :
    Loading.Avoids .imports (loadBelow tree.access path places) := by
  refine (readDocument_avoids path).bind fun document _ => inlineRounds_avoids ?_
  exact .inr (Nat.lt_succ_of_le (unread_le_length _))

theorem loadFile_avoids (path : String) : (tree.loadFile path).Avoids .imports := by
  refine Loading.Avoids.bind (.lifts (tree.place? path)) fun place _ => ?_
  exact (loadBelow_avoids path _).bind fun _ _ => .returns _

theorem addEntry_avoids (imported : List String) (merged : Document × List String)
    (path : String) : Loading.Avoids .imports (addEntry tree.access imported merged path) := by
  refine Loading.Avoids.bind (.lifts (tree.place? path)) fun place _ => ?_
  split
  · exact .returns _
  · exact (loadBelow_avoids path _).bind fun _ _ => .returns _

theorem importedPlaces_avoids (path : String) :
    Loading.Avoids .imports (importedPlaces tree.access path) := by
  refine (readDocument_avoids path).bind fun document _ => ?_
  exact (Loading.Avoids.mapM (fun _ => .lifts _) _).bind fun _ _ => .returns _

theorem loadDirectory_avoids (directory : String) :
    (tree.loadDirectory directory).Avoids .imports := by
  refine Loading.Avoids.bind (.lifts (documentPaths tree.access directory)) fun paths _ => ?_
  refine (Loading.Avoids.mapM importedPlaces_avoids paths).bind fun imported _ => ?_
  exact (Loading.Avoids.foldlM (addEntry_avoids _) _ _).bind fun _ _ => .returns _

/-! ## Parts -/

/-- A document is put together of the documents of different files. -/
structure Assembled (tree : FileTree) (whole : Document) (parts : List Part) : Prop
    extends whole.Joins parts where
  files : ∀ part ∈ parts, ∃ file ∈ tree.files,
    part.place = placeOf file ∧ Document.ofText file.2 = .ok part.document
  once : (parts.map (·.place)).Nodup

/-- What is read in turn is put together of different files. -/
theorem InTurn.assembled {readings : List Reading} (inTurn : InTurn tree [] readings)
    {whole : Document} (joins : whole.Joins (readings.flatMap (·.parts))) :
    Assembled tree whole (readings.flatMap (·.parts)) where
  toJoins := joins
  files part member := by
    obtain ⟨reading, inReadings, inParts⟩ := List.mem_flatMap.mp member
    obtain ⟨_, complete, _⟩ := inTurn.exists_isComplete inReadings
    exact (complete.inlines.meets part inParts).2.exists_file
  once := inTurn.nodup.1

theorem loadFile_assembled {path : String} {whole : Document}
    (loaded : tree.loadFile path = .ok whole) :
    whole.imports = [] ∧ ∃ parts, Assembled tree whole parts := by
  obtain ⟨found, place?, ran⟩ := Loading.bind_eq_ok.mp loaded
  obtain ⟨final, below, ran⟩ := Loading.bind_eq_ok.mp ran
  obtain rfl := Loading.pure_eq_ok.mp ran
  obtain ⟨document, read, _⟩ := Loading.bind_eq_ok.mp below
  obtain ⟨place, placed, _⟩ := exists_documentAt read
  obtain rfl : some place = found := placed.symm.trans (Loading.lift_eq_ok.mp place?)
  obtain ⟨reading, _, complete, joins, _⟩ := loadBelow_reads placed List.not_mem_nil below
  rw [joins]
  have inTurn : InTurn tree [] [reading] := ⟨complete, trivial⟩
  refine ⟨joined_imports _, _, inTurn.assembled ?_⟩
  rw [List.flatMap_singleton]
  exact joined_joins _

theorem loadDirectory_assembled {directory : String} {whole : Document}
    (loaded : tree.loadDirectory directory = .ok whole) :
    whole.imports = [] ∧ ∃ parts, Assembled tree whole parts := by
  obtain ⟨readings, by_, _⟩ := loadDirectory_loadedBy loaded
  exact ⟨by_.imports, _, by_.inTurn.assembled by_.joins⟩

/-- Whatever the files of a tree import, loading one of them or a directory comes to an end: it is
never cut off, and more rounds than there are files change nothing. What is loaded is put together
of the declarations of different files, and imports nothing more. -/
theorem loading_reads_every_file_once (tree : FileTree) (path : String) :
    (∀ location, tree.loadFile path ≠ .error (.endlessImports location) ∧
      tree.loadDirectory path ≠ .error (.endlessImports location)) ∧
    (∀ root document places, ∀ rounds > tree.files.length,
      inlineRounds tree.access (Path.parent root) rounds (.start document places) =
        inlineRounds tree.access (Path.parent root) (tree.files.length + 1)
          (.start document places)) ∧
    ∀ whole, tree.loadFile path = .ok whole ∨ tree.loadDirectory path = .ok whole →
      whole.imports = [] ∧ ∃ parts, Assembled tree whole parts := by
  refine ⟨fun location => ⟨fun endless => ?_, fun endless => ?_⟩,
    fun root document places rounds enough => ?_, fun whole loaded => ?_⟩
  · cases loadFile_avoids path _ endless
  · cases loadDirectory_avoids path _ endless
  · have most : unread tree places ≤ tree.files.length := unread_le_length places
    exact inlineRounds_of_enough (.inr (Nat.lt_of_le_of_lt most enough))
      (.inr (Nat.lt_succ_of_le most))
  · exact loaded.elim loadFile_assembled loadDirectory_assembled

/-- A document imports itself, two import each other, and one of these is imported in two ways. -/
def tangledTree : FileTree :=
  treeOf [
    ("s/a.json", documentJson "A" [] [⟨none, "a.json"⟩, ⟨none, "b.json"⟩]),
    ("s/b.json", documentJson "B" [] [⟨none, "../s/a.json"⟩]),
    ("s/e.json", documentJson "E" [] [⟨none, "b.json"⟩, ⟨none, "./a.json"⟩])]

def tangledPaths : List String := ["s/a.json", "s/b.json", "s/e.json"]

theorem loading_reads_every_file_once_of_tangle :
    (∃ whole parts, tangledTree.loadFile "s/a.json" = .ok whole ∧
      typeNames whole = [some "A", some "B"] ∧ whole.imports = [] ∧
      Assembled tangledTree whole parts) ∧
    ∃ whole parts, tangledTree.loadDirectory "s" = .ok whole ∧
      typeNames whole = [some "E", some "B", some "A"] ∧ whole.imports = [] ∧
      Assembled tangledTree whole parts := by
  have ⟨file, listing, directory⟩ :
      (tangledTree.loadFile "s/a.json").toOption.map typeNames = some [some "A", some "B"] ∧
        IsListing tangledTree "s" tangledPaths ∧
        loadedTypes tangledTree tangledPaths = some [some "E", some "B", some "A"] := by
    decide +kernel
  obtain ⟨_, _, whole⟩ := loading_reads_every_file_once tangledTree "s/a.json"
  obtain ⟨_, _, wholeDirectory⟩ := loading_reads_every_file_once tangledTree "s"
  obtain ⟨loaded, loads, names⟩ := Result.exists_ok_of_map file
  obtain ⟨none, parts, assembled⟩ := whole loaded (.inl loads)
  obtain ⟨all, loadsAll, allNames⟩ := listing.exists_loadDirectory directory
  obtain ⟨allNone, allParts, allAssembled⟩ := wholeDirectory all (.inr loadsAll)
  exact ⟨⟨loaded, parts, loads, names, none, assembled⟩,
    ⟨all, allParts, loadsAll, allNames, allNone, allAssembled⟩⟩

end Schema

end EntityGraph
