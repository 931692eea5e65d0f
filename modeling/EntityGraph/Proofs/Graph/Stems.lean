import EntityGraph.Proofs.Build.Flattening
import EntityGraph.Proofs.Build.Histories
import EntityGraph.Proofs.Graph.Definitions
import EntityGraph.Proofs.Scalar.Recall

/-!
# What entities stem from

The fields of an entity are those that one run has left at its type path, and behind them some that
refer back to the owners of relations: no other field is ever added from outside. The run has begun
with an honest memory of scalars and without a bag for the path, so that nothing of what it leaves
is owed to what was built before it.
-/
namespace EntityGraph

namespace Compile

open Schema (ComplexType Index)

/-! ## Stems -/

/-- A type that a path comes with is a known one. A plain path comes with the type that the index has
under it, or with one that bears its name. -/
def ComesWith {index : Index} (words : Vocabulary index) (settings : Settings) (path : String)
    (given : Option ComplexType) : Prop :=
  ∀ type, given = some type → words.type type ∧
    (IsPlainPath index settings path → index.complexType? path = some type ∨ type.name = some path)

theorem comesWith_of_request {index : Index} {words : Vocabulary index} {settings : Settings}
    {scope : Scope} {path : String} {given : Option ComplexType}
    (request : Request words scope path given) : ComesWith words settings path given := by
  intro type has
  refine ⟨request.known type has, fun plain => ?_⟩
  cases request with
  | declared _ _ own =>
    cases has
    exact .inr own
  | placed name _ _ => exact absurd (mem_memberPath scope name) plain.1
  | named _ _ found =>
    cases has
    exact .inl found
  | content _ _ isType =>
    cases has
    exact .inl isType
  | base | selected | configured => cases has

theorem comesWith_of_resolveRoot {index : Index} {words : Vocabulary index} {settings : Settings}
    {selector : String} (member : selector ∈ settings.compiler.roots) {root : String × ComplexType}
    (selected : index.resolveRoot selector = .ok root) (known : words.type root.2) :
    ComesWith words settings root.1 (some root.2) := by
  rintro _ ⟨⟩
  exact ⟨known, fun plain => (name_eq_or_found_of_resolveRoot member selected plain).symm⟩

/-- One run has left the fields at a type path, but for some that refer back to owners. -/
structure Stems (context : Context) (names : List NameRule) (words : Vocabulary context.index)
    (path : String) (given : Option ComplexType) (fields : List Field) : Prop where
  comes : ComesWith words context.settings path given
  run : ∃ levels before after, BuildRun context names path given levels before after ∧
    before.scalars.IsHonest ⟨context.index, context.settings⟩ ∧ path ∉ before.bags.names ∧
    AddsBacks (after.fieldsAt path) fields

theorem Stems.mono {context : Context} {names : List NameRule} {words : Vocabulary context.index}
    {path : String} {given : Option ComplexType} {fields later : List Field}
    (stems : Stems context names words path given fields) (adds : AddsBacks fields later) :
    Stems context names words path given later := by
  obtain ⟨levels, before, after, run, honest, unbagged, since⟩ := stems.run
  exact ⟨stems.comes, levels, before, after, run, honest, unbagged, since.trans adds⟩

variable {context : Context} {names : List NameRule} {words : Vocabulary context.index}
  {pending : List String} {state later : State} {path : String} {entity : Entity}

/-- What holds of every state of a build: the fields of all type paths but those under construction
stem from runs that have ended, the memory of scalars is honest, and only paths that are built have
bags. -/
structure Stemming (context : Context) (names : List NameRule)
    (words : Vocabulary context.index) (pending : List String) (state : State) : Prop where
  tracked : Tracked context names words pending state
  honest : state.scalars.IsHonest ⟨context.index, context.settings⟩
  bagged : ∀ path ∈ state.bags.names, state.isBuilt path = true
  begun : ∀ path ∈ pending, state.isBuilt path = true
  stems : ∀ path, state.isBuilt path = true → path ∈ pending ∨
    ∃ given, Stems context names words path given (state.fieldsAt path)

namespace Stemming

theorem start {resolver : NameResolver} (fresh : resolver.known = []) :
    Stemming context resolver.rules meets [] (.start resolver) where
  tracked := .start fresh
  honest := .empty
  bagged _ member := by cases member
  begun _ member := by cases member
  stems _ built := by cases built

/-- The entities do not change. -/
theorem of_same (stemming : Stemming context names words pending state)
    (tracked : Tracked context names words pending later)
    (entities : later.entities = state.entities)
    (honest : later.scalars.IsHonest ⟨context.index, context.settings⟩)
    (bagged : ∀ path ∈ later.bags.names, path ∈ state.bags.names ∨ path ∈ pending) :
    Stemming context names words pending later := by
  have built (path : String) : later.isBuilt path = state.isBuilt path := by
    rw [State.isBuilt, entities, State.isBuilt]
  refine ⟨tracked, honest, fun path member => ?_, fun path member => ?_, fun path isBuilt => ?_⟩
  · rw [built]
    exact (bagged path member).elim (stemming.bagged path) (stemming.begun path)
  · exact built path ▸ stemming.begun path member
  · rw [State.fieldsAt_of_same entities]
    exact stemming.stems path (built path ▸ isBuilt)

/-- The entity of a path gets another form. Unless the path is under construction, no more than
fields that refer back are new. -/
theorem set (stemming : Stemming context names words pending state)
    (found : state.entities.get? path = some entity) {last : Entity}
    (tracked : Tracked context names words pending
      { state with entities := state.entities.set path last })
    (adds : path ∉ pending → AddsBacks entity.fields last.fields) :
    Stemming context names words pending
      { state with entities := state.entities.set path last } where
  tracked := tracked
  honest := stemming.honest
  bagged other member := State.isBuilt_set.mpr (.inr (stemming.bagged other member))
  begun other member := State.isBuilt_set.mpr (.inr (stemming.begun other member))
  stems other built := by
    rw [State.fieldsAt_set]
    split
    next same =>
      subst same
      rw [or_iff_not_imp_left]
      intro free
      obtain ⟨given, stems⟩ :=
        (stemming.stems other (State.isBuilt_iff.mpr ⟨entity, found⟩)).resolve_left free
      exact ⟨given, stems.mono (State.fieldsAt_of_get? found ▸ adds free)⟩
    next different =>
      exact stemming.stems other ((State.isBuilt_set.mp built).resolve_left different)

/-- An empty entity is put in place, which makes its path one under construction. -/
theorem opened (stemming : Stemming context names words pending state)
    (fresh : state.isBuilt path = false) :
    Stemming context names words (path :: pending) { state with
      entities := state.entities.set path (.ofTypePath (nameOf names path).entity path) } where
  tracked := stemming.tracked.opened fresh
  honest := stemming.honest
  bagged other member := State.isBuilt_set.mpr (.inr (stemming.bagged other member))
  begun other member := State.isBuilt_set.mpr
    ((List.mem_cons.mp member).imp_right (stemming.begun other))
  stems other built := by
    rw [State.fieldsAt_set]
    split
    next same => exact .inl (same ▸ List.mem_cons_self)
    next different =>
      exact (stemming.stems other ((State.isBuilt_set.mp built).resolve_left different)).imp_left
        (List.mem_cons_of_mem path)

/-- A run has ended, which began with a fresh path. -/
theorem closed {type : Option ComplexType} {levels : Nat}
    (stemming : Stemming context names words pending state)
    (comes : ComesWith words context.settings path type)
    (run : BuildRun context names path type levels state later)
    (ended : Stemming context names words (path :: pending) later) :
    Stemming context names words pending later where
  tracked := ended.tracked.closed ⟨_, _, _, _, run, .of_same rfl⟩
  honest := ended.honest
  bagged := ended.bagged
  begun other member := ended.begun other (List.mem_cons_of_mem path member)
  stems other built := by
    rcases ended.stems other built with under | stems
    · rcases List.mem_cons.mp under with rfl | under
      · have unbagged : other ∉ state.bags.names := by
          intro member
          have fresh := run.fresh
          rw [stemming.bagged other member] at fresh
          cases fresh
        exact .inr ⟨type, comes, levels, state, later, run, stemming.honest, unbagged, .refl _⟩
      · exact .inl under
    · exact .inr stems

end Stemming

/-! ## The law -/

/-- Whatever way a scalar is derived in, the memory stays honest. -/
theorem Derives.keepsHonest {primitive : Option String} {derive : Scalar.State → Scalar.Derivation}
    {scalars later : Scalar.State} {repr : ScalarRepr} (derives : Derives context primitive derive)
    (honest : scalars.IsHonest ⟨context.index, context.settings⟩)
    (derived : derive scalars = (.ok repr, later)) :
    later.IsHonest ⟨context.index, context.settings⟩ := by
  cases derives with
  | named name => exact (@Scalar.Request.answer_honest _ _ _ _ (.byName name) honest derived).2
  | inline type => exact (@Scalar.Request.answer_honest _ _ _ _ (.inPlace type) honest derived).2
  | untyped member => exact (@Scalar.Request.answer_honest _ _ _ _ (.byName _) honest derived).2

/-- Only at places under construction do walks add fields, or begin bags. -/
def stemmingLaw (context : Context) (names : List NameRule)
    (words : Vocabulary context.index) (pending : List String) : WalkLaw context :=
  let tracking := trackingLaw context names words pending
  { Holds := Stemming context names words pending
    At := fun scope => scope.typePath ∈ pending ∧ tracking.At scope
    words := words
    Asks := ComesWith words context.settings
    Found := fun _ _ => True
    moved := fun place same => by
      refine ⟨?_, tracking.moved place.2 same⟩
      rw [(Prod.mk.inj same).1]
      exact place.1
    asks := fun _ request => comesWith_of_request request
    asks_named := fun _ _ _ _ has => by cases has
    frame := fun stemming entities resolver known bags => by
      refine stemming.of_same (tracking.frame stemming.tracked entities resolver known ?_) entities
        (stemming.honest.of_known known) fun path member => ?_
      · exact fun path => (bags path).imp_right fun ⟨scope, place, same⟩ => ⟨scope, place.2, same⟩
      · rcases bags path with same | ⟨scope, place, same⟩
        · obtain ⟨bag, found⟩ := Table.exists_get?_of_mem_names member
          exact .inl (Table.mem_names_of_get? (same ▸ found))
        · exact .inr (same ▸ place.1)
    naming := fun stemming asked =>
      stemming.of_same (tracking.naming stemming.tracked fun given has => (asked given has).1) rfl
        stemming.honest fun _ => .inl
    derives := fun stemming derives derived => by
      have honest := derives.keepsHonest stemming.honest derived
      exact ⟨stemming.of_same (tracking.derives stemming.tracked derives derived).1 rfl honest
        fun _ => .inl, trivial⟩
    added := fun stemming place found given inserted =>
      stemming.set found (tracking.added stemming.tracked place.2 found given inserted)
        fun free => absurd place.1 free
    referredBack := fun stemming found inserted =>
      stemming.set found (tracking.referredBack stemming.tracked found inserted)
        fun _ => .of_insertField inserted
    reshaped := fun stemming found same => by
      refine stemming.set found (tracking.reshaped stemming.tracked found same) fun _ => ?_
      obtain ⟨_, _, _, fields⟩ := by simpa using same
      exact fields ▸ .refl _ }

/-- Runs begin and end with what stems from runs. -/
def stemmingLaws (context : Context) (names : List NameRule)
    (words : Vocabulary context.index) : RunLaw context names where
  law := stemmingLaw context names words
  wellFormed stemming := stemming.tracked.wellFormed
  named stemming := stemming.tracked.named
  asked asked := (asked _ rfl).1
  outermost _ given := ⟨List.mem_cons_self, given⟩
  opened stemming _ fresh := stemming.opened fresh
  adopted stemming found parent :=
    stemming.set found ((trackingLaws context names words).adopted stemming.tracked found
      parent) fun free => absurd List.mem_cons_self free
  closed stemming asked run ended := stemming.closed asked run ended

/-- At the end of a build all fields stem from runs that have ended. -/
theorem build_stemming {index : Index} {settings : Settings} {levels : Nat} {book : RuleBook}
    {state : State}
    (words : Vocabulary index)
    (known : ∀ selector ∈ settings.compiler.roots, ∀ root,
      index.resolveRoot selector = .ok root → words.type root.2)
    (built : build index settings levels = .ok (book, state)) :
    ∃ roots names, Stemming ⟨index, settings, book, roots⟩ names words [] state :=
  RunLaw.build_holds (fun _ names => stemmingLaws _ names words)
    (fun _ _ selector inRoots root gives =>
      comesWith_of_resolveRoot inRoots gives (known selector inRoots root gives))
    (fun _ _ fresh => .start fresh) built

end Compile

end EntityGraph
