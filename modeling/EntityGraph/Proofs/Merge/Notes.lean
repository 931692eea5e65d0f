import EntityGraph.Proofs.Merge.Groups
import EntityGraph.Proofs.Merge.Nullability

/-!
# Notes of merged fields

Merging notes on a field which types lack it, and which types leave it out although others declare
it. The first note is about all members at once, and exact. The second kind is made while the fields
of the members are merged one after another, and the type of the first member stands for all that
come before the first declared field: of several members that leave the field out before that, only
the first one is noted.

The mark of a field that is left out counts as a field. So a member with such a mark does not make
the merged field nullable.
-/
namespace EntityGraph.Compile

/-! ## One more field -/

/-- Whether a note is on a difference that is tolerated. -/
def isVariant : MergeNote → Bool
  | .mergeVariant _ => true
  | _ => false

/-- What the exchange of kinds leaves alone, unless a field replaces a dropped one. -/
def trace (field : Field) : Bool × List MergeNote := (field.isDropped, field.notes)

theorem Widens.trace {first other : Field} {later : Field × Field}
    (widens : Widens first other later) :
    trace later.1 = trace first ∧ trace later.2 = trace other := by
  cases widens with
  | kept => exact ⟨rfl, rfl⟩
  | widenedFirst item list => exact ⟨by simp [Compile.trace, Field.isDropped, item, list], rfl⟩
  | widenedOther item list => exact ⟨rfl, by simp [Compile.trace, Field.isDropped, item, list]⟩

theorem Relaxes.trace {first other : Field} {later : Field × Field}
    (relaxes : Relaxes first other later) :
    trace later.1 = trace first ∧ trace later.2 = trace other := by
  cases relaxes with
  | kept => exact ⟨rfl, rfl⟩
  | relaxedFirst owned plain => exact ⟨by simp [Compile.trace, Field.isDropped, owned, plain], rfl⟩
  | relaxedOther owned plain => exact ⟨rfl, by simp [Compile.trace, Field.isDropped, owned, plain]⟩

/-- What becomes of notes as one more field comes in: a declared field that meets a dropped one
takes its place, whichever comes first, and has a note with the type of the dropped one. -/
def replaceDropped (known next : Bool) (firstType nextType : String) (notes : List MergeNote) :
    List MergeNote :=
  match known, next with
  | true, true | false, false => notes
  | true, false => [.replacesDropped [firstType]]
  | false, true => notes ++ [.replacesDropped [nextType]]

theorem Restores.trace {first other : Field} {later : Field × Field} {firstType otherType : String}
    (restores : Restores first other firstType otherType later) (clean : other.notes = []) :
    trace later.1 = (first.isDropped && other.isDropped,
      replaceDropped first.isDropped other.isDropped firstType otherType first.notes) := by
  have annotated (field : Field) (note : MergeNote) :
      Compile.trace (field.annotate note) = (field.isDropped, field.notes ++ [note]) := rfl
  cases restores with
  | kept alike =>
    cases dropped : other.isDropped <;> simp [Compile.trace, alike, dropped, replaceDropped]
  | replacedFirst dropped declared =>
    simpa [replaceDropped, dropped, declared, clean] using
      annotated other (.replacesDropped [firstType])
  | replacedOther dropped declared =>
    simpa [replaceDropped, dropped, declared] using annotated first (.replacesDropped [otherType])

theorem unify_trace (first : Field) {other : Field} (firstType otherType : String)
    (clean : other.notes = []) :
    trace (unify first other firstType otherType).1 =
      (first.isDropped && other.isDropped,
        replaceDropped first.isDropped other.isDropped firstType otherType first.notes) := by
  obtain ⟨widened, relaxed, widens, relaxes, restores⟩ :=
    unify_steps first other firstType otherType
  have firstTrace := relaxes.trace.1.trans widens.trace.1
  have otherTrace := relaxes.trace.2.trans widens.trace.2
  simp only [trace, Prod.mk.injEq] at firstTrace otherTrace
  have restored := restores.trace (otherTrace.2.trans clean)
  rwa [firstTrace.1, firstTrace.2, otherTrace.1] at restored

/-- The notes that are not on tolerated differences. -/
def plainNotes (notes : List MergeNote) : List MergeNote := notes.filter (!isVariant ·)

theorem plainNotes_replaceDropped (known next : Bool) (firstType nextType : String)
    (notes : List MergeNote) :
    plainNotes (replaceDropped known next firstType nextType notes) =
      replaceDropped known next firstType nextType (plainNotes notes) := by
  cases known <;> cases next <;> simp [replaceDropped, plainNotes, isVariant]

theorem mergeNext_notes {book : RuleBook} {entity firstType : String} {merged result : Field}
    {next : Entity × Field} (clean : next.2.notes = [])
    (given : mergeNext book entity firstType merged next = .ok result) :
    result.isDropped = (merged.isDropped && next.2.isDropped) ∧
      plainNotes result.notes = replaceDropped merged.isDropped next.2.isDropped firstType
        (sourceLabel next.1) (plainNotes merged.notes) := by
  have unifiedNotes := unify_trace merged firstType (sourceLabel next.1) clean
  cases mergeNext_cases given with
  | joined join =>
    -- No bag is dropped, and the entries are all that changes.
    obtain ⟨entries, more, left, right, rfl⟩ := bags_of_joinBags? join
    simp [Field.isDropped, left, right, replaceDropped]
  | same _ unifies =>
    rw [unifies] at unifiedNotes
    obtain ⟨dropped, notes⟩ := Prod.mk.inj unifiedNotes
    exact ⟨dropped, (congrArg plainNotes notes).trans (plainNotes_replaceDropped ..)⟩
  | tolerated _ unifies =>
    rw [unifies] at unifiedNotes
    obtain ⟨dropped, notes⟩ := Prod.mk.inj unifiedNotes
    -- The note on the difference is not one of those that are counted.
    refine ⟨dropped, Eq.trans ?_
      ((congrArg plainNotes notes).trans (plainNotes_replaceDropped ..))⟩
    simp [plainNotes, Field.annotate, isVariant, withBothTexts]

/-! ## One field after another -/

/-- The note on a holder of a dropped field. -/
def droppedNote (holder : Entity × Field) : MergeNote := .replacesDropped [sourceLabel holder.1]

section Fields

variable {book : RuleBook} {entity firstType : String} {others : List (Entity × Field)}
  {start result : Field}

/-- Behind a declared field, every dropped one is noted. -/
theorem foldlM_mergeNext_notes (clean : ∀ holder ∈ others, holder.2.notes = [])
    (declared : start.isDropped = false)
    (given : others.foldlM (mergeNext book entity firstType) start = .ok result) :
    result.isDropped = false ∧ plainNotes result.notes =
      plainNotes start.notes ++ (others.filter (·.2.isDropped)).map droppedNote := by
  induction others generalizing start with
  | nil =>
    rw [List.foldlM_nil] at given
    obtain rfl := Result.pure_eq_ok.mp given
    simpa using declared
  | cons holder rest ih =>
    rw [List.foldlM_cons] at given
    obtain ⟨middle, step, given⟩ := Result.bind_eq_ok.mp given
    obtain ⟨stays, notes⟩ := mergeNext_notes (clean holder List.mem_cons_self) step
    rw [declared, Bool.false_and] at stays
    obtain ⟨final, finalNotes⟩ :=
      ih (fun other member => clean other (List.mem_cons_of_mem _ member)) stays given
    refine ⟨final, ?_⟩
    rw [finalNotes, notes, declared]
    cases dropped : holder.2.isDropped <;>
      simp [replaceDropped, dropped, droppedNote]

/-- Behind a dropped field, further dropped ones are not noted until one is declared. -/
theorem foldlM_mergeNext_notes_of_dropped (clean : ∀ holder ∈ others, holder.2.notes = [])
    (dropped : start.isDropped = true)
    (given : others.foldlM (mergeNext book entity firstType) start = .ok result) :
    result.isDropped = others.all (·.2.isDropped) ∧
      (result.isDropped = false → plainNotes result.notes = .replacesDropped [firstType] ::
        ((others.dropWhile (·.2.isDropped)).filter (·.2.isDropped)).map droppedNote) := by
  induction others generalizing start with
  | nil =>
    rw [List.foldlM_nil] at given
    obtain rfl := Result.pure_eq_ok.mp given
    simp [dropped]
  | cons holder rest ih =>
    rw [List.foldlM_cons] at given
    obtain ⟨middle, step, given⟩ := Result.bind_eq_ok.mp given
    obtain ⟨stays, notes⟩ := mergeNext_notes (clean holder List.mem_cons_self) step
    have restClean : ∀ other ∈ rest, other.2.notes = [] := fun other member =>
      clean other (List.mem_cons_of_mem _ member)
    rw [dropped, Bool.true_and] at stays
    rw [List.all_cons, List.dropWhile_cons]
    cases next : holder.2.isDropped with
    | true =>
      rw [next] at stays
      exact ih restClean stays given
    | false =>
      -- This is the first declared field. All dropped ones behind it are noted.
      rw [next] at stays
      obtain ⟨final, finalNotes⟩ := foldlM_mergeNext_notes restClean stays given
      refine ⟨final, fun _ => ?_⟩
      rw [finalNotes, notes, dropped, next]
      simp [replaceDropped, next]

/-- The holders of a dropped field that are noted: the first of those that come before any declared
field, and all that come behind one. -/
def noted (holding : List (Entity × Field)) : List (Entity × Field) :=
  (holding.takeWhile (·.2.isDropped)).take 1 ++
    (holding.dropWhile (·.2.isDropped)).filter (·.2.isDropped)

theorem mem_of_mem_noted {holding : List (Entity × Field)} {holder : Entity × Field}
    (member : holder ∈ noted holding) : holder ∈ holding := by
  rcases List.mem_append.mp member with early | late
  · exact (List.takeWhile_sublist _).subset (List.mem_of_mem_take early)
  · exact (List.dropWhile_sublist _).subset (List.mem_filter.mp late).1

/-- Making fields nullable changes nothing about which of them are noted. -/
theorem noted_prepared (relaxed : Bool) (holding : List (Entity × Field)) :
    (noted (holding.map (prepared relaxed))).map droppedNote = (noted holding).map droppedNote := by
  have same : (fun holder : Entity × Field => holder.2.isDropped) ∘ prepared relaxed =
      fun holder => holder.2.isDropped := by
    funext holder
    simp only [Function.comp_apply, Field.isDropped, (prepared_same relaxed holder).2.2.1]
  have label : droppedNote ∘ prepared relaxed = droppedNote := rfl
  unfold noted
  rw [List.takeWhile_map, List.dropWhile_map, List.filter_map, same, ← List.map_take,
    ← List.map_append, List.map_map, label]

/-- Fields that are merged to a declared one leave the notes on those that are noted. -/
theorem foldlM_mergeNext_noted {first : Entity × Field}
    (clean : ∀ holder ∈ first :: others, holder.2.notes = [])
    (given : others.foldlM (mergeNext book entity (sourceLabel first.1)) first.2 = .ok result)
    (declared : result.isDropped = false) :
    plainNotes result.notes = (noted (first :: others)).map droppedNote := by
  obtain ⟨firstClean, othersClean⟩ := List.forall_mem_cons.mp clean
  cases dropped : first.2.isDropped with
  | false =>
    rw [(foldlM_mergeNext_notes othersClean dropped given).2, firstClean]
    simp [noted, dropped, plainNotes]
  | true =>
    rw [(foldlM_mergeNext_notes_of_dropped othersClean dropped given).2 declared]
    simp [noted, dropped, droppedNote]

end Fields

section Members

variable {book : RuleBook} {members : List Entity} {identity : String × String}

/-- No note on members that lack a field is on a tolerated difference. -/
theorem plainNotes_append_presenceNote (notes : List MergeNote) (holding : List (Entity × Field)) :
    plainNotes (notes ++ [presenceNote members holding]) =
      plainNotes notes ++ [presenceNote members holding] := by
  have presence : plainNotes [presenceNote members holding] = [presenceNote members holding] := by
    unfold presenceNote
    split <;> rfl
  unfold plainNotes at presence ⊢
  rw [List.filter_append, presence]

/-- The notes of a merged field: on the dropped fields that it replaces, and on the members that
lack it. -/
theorem mergeField_notes {entity : String} {merged : Field}
    (given : mergeField book entity members identity = .ok merged)
    (clean : ∀ holder ∈ holders members identity.1 identity.2, holder.2.notes = [])
    (materialized : merged.isMaterialized = true) :
    plainNotes merged.notes = (noted (holders members identity.1 identity.2)).map droppedNote ++
      if (holders members identity.1 identity.2).length = members.length then []
      else [presenceNote members (holders members identity.1 identity.2)] := by
  obtain ⟨merge⟩ := mergeField_steps given
  have clean : ∀ holder ∈ merge.first :: merge.others, holder.2.notes = [] := by
    intro holder member
    rw [← merge.holding] at member
    obtain ⟨held, heldMember, rfl⟩ := List.mem_map.mp member
    exact (prepared_notes merge.relaxed held).trans (clean held heldMember)
  have materialized : merge.blended.isMaterialized = true := by
    rcases merge.noted with same | ⟨note, same⟩
    · exact same ▸ materialized
    · rw [same] at materialized
      exact materialized
  have blendedNotes : plainNotes merge.blended.notes =
      (noted (holders members identity.1 identity.2)).map droppedNote := by
    rw [← noted_prepared merge.relaxed, merge.holding]
    exact foldlM_mergeNext_noted clean merge.folded (isDropped_of_isMaterialized materialized)
  have concluded := merge.concluded
  rw [materialized] at concluded
  split at concluded
  next everywhere =>
    have all := everywhere.resolve_right (by simp)
    rw [concluded, blendedNotes, if_pos all, List.append_nil]
  next partly =>
    rw [concluded, if_neg fun all => partly (.inl all), ← blendedNotes]
    exact plainNotes_append_presenceNote _ _

/-! ## Members that lack a field or leave it out -/

/-- Whether the member has no field of the name and path, not even the mark of a dropped one. -/
def lacks (identity : String × String) (member : Entity) : Bool :=
  (member.fieldAt? identity.1 identity.2).isNone

/-- Whether the member has the mark of a dropped field at the name and path. -/
def drops (identity : String × String) (member : Entity) : Bool :=
  (member.fieldAt? identity.1 identity.2).any Field.isDropped

/-- Members of a group as they are built: nothing has been noted so far, no mark of a dropped
element is nullable, and each member has a type of its own. -/
structure IsFresh (members : List Entity) : Prop where
  clean : ∀ member ∈ members, ∀ field ∈ member.fields, field.notes = []
  required : ∀ member ∈ members, ∀ field ∈ member.fields, field.isDropped = true →
    field.nullable = false
  single : ∀ member ∈ members, member.sourceTypes.length = 1
  distinct : (members.map (·.sourceTypes)).Nodup

theorem map_fst_holders (members : List Entity) (identity : String × String) :
    (holders members identity.1 identity.2).map (·.1) = members.filter (!lacks identity ·) := by
  unfold holders lacks
  induction members with
  | nil => rfl
  | cons member rest ih =>
    cases found : member.fieldAt? identity.1 identity.2 with
    | none => simpa [found] using ih
    | some field => simpa [found] using ih

theorem length_members (members : List Entity) (identity : String × String) :
    members.length = (members.filter (lacks identity)).length +
      (holders members identity.1 identity.2).length := by
  have having := congrArg List.length (map_fst_holders members identity)
  rw [List.length_map] at having
  rw [having]
  exact List.length_eq_length_filter_add _

theorem flatMap_holders (members : List Entity) (identity : String × String) :
    (holders members identity.1 identity.2).flatMap (·.1.sourceTypes) =
      (members.filter (!lacks identity ·)).flatMap (·.sourceTypes) := by
  rw [← map_fst_holders, List.flatMap_map]

theorem flatMap_filter {α β : Type} (keep : α → Bool) (parts : α → List β) (items : List α) :
    (items.filter keep).flatMap parts =
      items.flatMap fun item => if keep item then parts item else [] := by
  induction items with
  | nil => rfl
  | cons item rest ih => cases kept : keep item <;> simp [kept, ih]

namespace IsFresh

variable (fresh : IsFresh members)

include fresh

/-- A type tells the member that it belongs to. -/
theorem member_eq {member other : Entity} (inGroup : member ∈ members) (inOther : other ∈ members)
    {type : String} (source : type ∈ member.sourceTypes) (otherSource : type ∈ other.sourceTypes) :
    member = other := by
  obtain ⟨path, single⟩ := List.length_eq_one_iff.mp (fresh.single member inGroup)
  obtain ⟨otherPath, otherSingle⟩ := List.length_eq_one_iff.mp (fresh.single other inOther)
  rw [single, List.mem_singleton] at source
  rw [otherSingle, List.mem_singleton] at otherSource
  exact List.inj_on_of_nodup_map fresh.distinct inGroup inOther
    (by rw [single, otherSingle, ← source, ← otherSource])

/-- The types that no holder has are those of the members that lack the field. -/
theorem filter_types (keep : Entity → Bool) :
    (members.flatMap (·.sourceTypes)).filter (fun type =>
        !(Text.sortDistinct ((members.filter (!keep ·)).flatMap (·.sourceTypes))).contains type) =
      (members.filter keep).flatMap (·.sourceTypes) := by
  rw [List.filter_flatMap, flatMap_filter keep]
  refine List.flatMap_congr fun member inGroup => ?_
  split
  next kept =>
    -- No other member has one of these types.
    refine List.filter_eq_self.mpr fun type source => ?_
    simp only [Bool.not_eq_true', List.contains_eq_mem, decide_eq_false_iff_not, mem_sortDistinct,
      List.mem_flatMap, List.mem_filter, not_exists, not_and]
    rintro other ⟨inOther, left⟩ otherSource
    rw [← fresh.member_eq inGroup inOther source otherSource, kept] at left
    cases left
  next left =>
    refine List.filter_eq_nil_iff.mpr fun type source => ?_
    simp only [Bool.not_eq_true', List.contains_eq_mem, decide_eq_false_iff_not, not_not,
      mem_sortDistinct]
    exact List.mem_flatMap.mpr ⟨member, List.mem_filter.mpr ⟨inGroup, by simpa using left⟩, source⟩

end IsFresh

/-- The types of some members, in order. -/
def typesOf (members : List Entity) : List String :=
  Text.sortDistinct (members.flatMap (·.sourceTypes))

/-- The note on the members that lack a field: it names them if they are the fewer, and the others
if they are not. -/
def presenceOf (members : List Entity) (identity : String × String) : List MergeNote :=
  if members.filter (lacks identity) = [] then []
  else if (members.filter (lacks identity)).length * 2 < members.length then
    [.nullIn (typesOf (members.filter (lacks identity)))]
  else [.onlyIn (typesOf (members.filter (!lacks identity ·)))]

theorem IsFresh.presence (fresh : IsFresh members) (identity : String × String) :
    (if (holders members identity.1 identity.2).length = members.length then []
      else [presenceNote members (holders members identity.1 identity.2)]) =
      presenceOf members identity := by
  have count := length_members members identity
  unfold presenceOf presenceNote typesOf
  dsimp only
  rw [flatMap_holders, fresh.filter_types]
  by_cases none : members.filter (lacks identity) = []
  · rw [if_pos none, if_pos]
    simp [none] at count
    exact count.symm
  · have some : 0 < (members.filter (lacks identity)).length := List.length_pos_of_ne_nil none
    rw [if_neg none, if_neg (by omega)]
    by_cases few : (members.filter (lacks identity)).length * 2 < members.length
    · rw [if_pos few, if_pos (by omega)]
    · rw [if_neg few, if_neg (by omega)]

/-- The types that have left a field out, as far as the note tells. -/
def replacedTypes : MergeNote → List String
  | .replacesDropped types => types
  | _ => []

/-- Whether the note is on the members that lack a field. -/
def isPresence : MergeNote → Bool
  | .nullIn _ | .onlyIn _ => true
  | _ => false

theorem flatMap_replacedTypes_plainNotes (notes : List MergeNote) :
    (plainNotes notes).flatMap replacedTypes = notes.flatMap replacedTypes := by
  rw [plainNotes, flatMap_filter]
  refine List.flatMap_congr fun note _ => ?_
  cases note <;> rfl

theorem filter_isPresence_plainNotes (notes : List MergeNote) :
    (plainNotes notes).filter isPresence = notes.filter isPresence := by
  rw [plainNotes, List.filter_filter]
  refine List.filter_congr fun note _ => ?_
  cases note <;> rfl

theorem presenceOf_spec (members : List Entity) (identity : String × String) :
    (presenceOf members identity).filter isPresence = presenceOf members identity ∧
      (presenceOf members identity).flatMap replacedTypes = [] := by
  unfold presenceOf
  split
  · exact ⟨rfl, rfl⟩
  · split
    · exact ⟨rfl, rfl⟩
    · exact ⟨rfl, rfl⟩

/-- What the notes of a materialized field of a merged entity say. -/
structure IsNoted (members : List Entity) (identity : String × String) (field : Field) : Prop where
  identity_eq : (field.name, field.dottedPath) = identity
  replaced : field.notes.flatMap replacedTypes =
    (noted (holders members identity.1 identity.2)).flatMap (·.1.sourceTypes)
  exact_iff : (∀ type, type ∈ field.notes.flatMap replacedTypes ↔
      ∃ member ∈ members, drops identity member = true ∧ type ∈ member.sourceTypes) ↔
    ((holders members identity.1 identity.2).takeWhile (·.2.isDropped)).length ≤ 1
  presence : field.notes.filter isPresence = presenceOf members identity

theorem exists_dropper_iff {type : String} :
    (∃ member ∈ members, drops identity member = true ∧ type ∈ member.sourceTypes) ↔
      ∃ holder ∈ holders members identity.1 identity.2, holder.2.isDropped = true ∧
        type ∈ holder.1.sourceTypes := by
  constructor
  · rintro ⟨member, inGroup, drop, source⟩
    obtain ⟨mark, found, dropped⟩ := (Option.any_eq_true _ _).mp drop
    exact ⟨(member, mark), mem_holders.mpr ⟨inGroup, found⟩, dropped, source⟩
  · rintro ⟨holder, held, dropped, source⟩
    obtain ⟨inGroup, found⟩ := mem_holders.mp held
    refine ⟨holder.1, inGroup, ?_, source⟩
    rw [drops, found]
    exact dropped

/-- If at most one dropped field comes before the first declared one, then all are noted. -/
theorem noted_eq_filter {holding : List (Entity × Field)}
    (few : (holding.takeWhile (·.2.isDropped)).length ≤ 1) :
    noted holding = holding.filter (·.2.isDropped) := by
  have leading : (holding.takeWhile (·.2.isDropped)).filter (·.2.isDropped) =
      holding.takeWhile (·.2.isDropped) :=
    List.filter_eq_self.mpr fun holder member =>
      List.all_eq_true.mp List.all_takeWhile holder member
  unfold noted
  rw [List.take_of_length_le few, ← leading, ← List.filter_append, List.takeWhile_append_dropWhile]

/-- The types of the holders are different. -/
theorem IsFresh.holders_distinct (fresh : IsFresh members) (identity : String × String) :
    ((holders members identity.1 identity.2).map (·.1.sourceTypes)).Nodup := by
  have same : (holders members identity.1 identity.2).map (·.1.sourceTypes) =
      (members.filter (!lacks identity ·)).map (·.sourceTypes) := by
    rw [← map_fst_holders, List.map_map]
    rfl
  rw [same]
  exact fresh.distinct.sublist (List.filter_sublist.map _)

/-- A second dropped field before the first declared one is not noted: its type is neither that of
the first one nor of one behind. -/
theorem IsFresh.second_unnoted (fresh : IsFresh members) {first second : Entity × Field}
    {rest : List (Entity × Field)}
    (leading : (holders members identity.1 identity.2).takeWhile (·.2.isDropped) =
      first :: second :: rest) :
    ∀ holder ∈ noted (holders members identity.1 identity.2), holder.1 ≠ second.1 := by
  have distinct := fresh.holders_distinct identity
  rw [← List.takeWhile_append_dropWhile (l := holders members identity.1 identity.2)
    (p := fun holder => holder.2.isDropped), leading] at distinct
  simp only [List.cons_append, List.map_cons, List.map_append, List.nodup_cons, List.mem_cons,
    List.mem_append, not_or] at distinct
  intro holder member same
  unfold noted at member
  rw [leading] at member
  rcases List.mem_append.mp member with early | late
  · have isFirst : holder = first := by simpa using early
    apply distinct.1.1
    rw [← isFirst, same]
  · apply distinct.2.1.2
    rw [← same]
    exact List.mem_map_of_mem (List.mem_filter.mp late).1

/-- All who drop a field are noted exactly if at most one of them comes before the first one who
declares it. -/
theorem IsFresh.noted_all_iff (fresh : IsFresh members) (identity : String × String) :
    (∀ type, type ∈ (noted (holders members identity.1 identity.2)).flatMap (·.1.sourceTypes) ↔
      ∃ member ∈ members, drops identity member = true ∧ type ∈ member.sourceTypes) ↔
    ((holders members identity.1 identity.2).takeWhile (·.2.isDropped)).length ≤ 1 := by
  constructor
  · intro complete
    match leading : (holders members identity.1 identity.2).takeWhile (·.2.isDropped) with
    | [] | [_] => simp [leading]
    | first :: second :: rest =>
      have among : second ∈ (holders members identity.1 identity.2).takeWhile (·.2.isDropped) := by
        simp [leading]
      have held := (List.takeWhile_sublist _).subset among
      have dropped : second.2.isDropped = true :=
        List.all_eq_true.mp List.all_takeWhile second among
      obtain ⟨inGroup, _⟩ := mem_holders.mp held
      obtain ⟨type, single⟩ := List.length_eq_one_iff.mp (fresh.single second.1 inGroup)
      have source : type ∈ second.1.sourceTypes := by simp [single]
      have named := (complete type).mpr (exists_dropper_iff.mpr ⟨second, held, dropped, source⟩)
      obtain ⟨holder, member, holderSource⟩ := List.mem_flatMap.mp named
      have same := fresh.member_eq (mem_holders.mp (mem_of_mem_noted member)).1 inGroup
        holderSource source
      exact absurd same (fresh.second_unnoted leading holder member)
  · intro few type
    rw [exists_dropper_iff, noted_eq_filter few]
    simp only [List.mem_flatMap, List.mem_filter, and_assoc]

end Members

/-! ## Groups -/

section Groups

variable {book : RuleBook} {members : List Entity} {first : Entity}
  {others entities grown later : List Entity} {parent : Option String} {entity : Entity}

/-- Members that leave fields to a parent are as fresh as before. -/
theorem IsFresh.adopted {entities later : List Entity} {parent : Option String}
    (fresh : IsFresh members)
    (adoption : List.Forall₂ (Adopted book entities parent) members later) : IsFresh later := by
  refine ⟨fun member inLater field fieldMember => ?_, fun member inLater field fieldMember => ?_,
    fun member inLater => ?_, ?_⟩
  · obtain ⟨before, inGroup, step⟩ := Pointwise.exists_left adoption inLater
    exact fresh.clean before inGroup field (step.fields field fieldMember)
  · obtain ⟨before, inGroup, step⟩ := Pointwise.exists_left adoption inLater
    exact fresh.required before inGroup field (step.fields field fieldMember)
  · obtain ⟨before, inGroup, step⟩ := Pointwise.exists_left adoption inLater
    exact step.sourceTypes ▸ fresh.single before inGroup
  · rw [Pointwise.map_eq (fun _ _ step => step.sourceTypes) adoption]
    exact fresh.distinct

/-- The fields of a merged entity: one for each name and path, with aliases in place of those whose
names are taken. -/
theorem mergeGroup_fields
    (settled : mergeParents book first.name (first :: others) entities =
      .ok (parent, members, grown))
    (given : mergeGroup book first others entities = .ok (entity, later)) :
    ∃ fields, List.Forall₂ (fun identity field =>
        mergeField book first.name members identity = .ok field) (identities members) fields ∧
      coalesceAliases first.name fields = .ok entity.fields := by
  obtain ⟨_, settledSame, given⟩ := Result.bind_eq_ok.mp given
  cases settled.symm.trans settledSame
  obtain ⟨fields, mergedFields, given⟩ := Result.bind_eq_ok.mp given
  obtain ⟨kept, coalesced, given⟩ := Result.bind_eq_ok.mp given
  cases given
  exact ⟨fields, Result.forall₂_of_mapM mergedFields, coalesced⟩

/-- The notes of merged fields. A note on the members that lack a field is exact. Of the members
that leave a field out, all are noted exactly if at most one of them comes before the first one who
declares it; otherwise only the first of those is. -/
theorem mergeGroup_notes (fresh : IsFresh (first :: others))
    (settled : mergeParents book first.name (first :: others) entities =
      .ok (parent, members, grown))
    (given : mergeGroup book first others entities = .ok (entity, later)) :
    List.Forall₂ (fun identity field => field.isMaterialized = true →
      IsNoted members identity field) (identities members) entity.fields := by
  obtain ⟨fields, blended, coalesced⟩ := mergeGroup_fields settled given
  have settledFresh : IsFresh members := fresh.adopted (mergeParents_spec settled).2
  refine Pointwise.mono_right ?_ blended (coalesceAliases_standsFor coalesced)
  rintro ⟨name, path⟩ blend field given stands materialized
  obtain ⟨sameName, samePath, _, _, notes, _⟩ :=
    Field.bare_eq_iff.mp (stands.kept_of_isMaterialized materialized)
  obtain ⟨blendName, blendPath⟩ := mergeField_identity given
  have blendMaterialized : blend.isMaterialized = true :=
    (Field.isMaterialized_of_bare (stands.kept_of_isMaterialized materialized)).symm.trans
      materialized
  have plain := mergeField_notes given (fun holder held =>
    settledFresh.clean holder.1 (mem_holders.mp held).1 holder.2
      (fieldAt?_some (mem_holders.mp held).2).1) blendMaterialized
  rw [settledFresh.presence] at plain
  -- Each member has a single type, so its label is that type.
  have labels : ((noted (holders members name path)).map droppedNote).flatMap replacedTypes =
      (noted (holders members name path)).flatMap (·.1.sourceTypes) := by
    rw [List.flatMap_map]
    refine List.flatMap_congr fun holder member => ?_
    obtain ⟨type, single⟩ := List.length_eq_one_iff.mp
      (settledFresh.single holder.1 (mem_holders.mp (mem_of_mem_noted member)).1)
    simp [droppedNote, replacedTypes, sourceLabel, single]
  have replaced : field.notes.flatMap replacedTypes =
      (noted (holders members name path)).flatMap (·.1.sourceTypes) := by
    rw [notes, ← flatMap_replacedTypes_plainNotes, plain, List.flatMap_append, labels,
      (presenceOf_spec members (name, path)).2, List.append_nil]
  refine ⟨by rw [sameName, samePath, blendName, blendPath], replaced, ?_, ?_⟩
  · rw [replaced]
    exact settledFresh.noted_all_iff (name, path)
  · have none : ((noted (holders members name path)).map droppedNote).filter isPresence = [] := by
      refine List.filter_eq_nil_iff.mpr fun note member => ?_
      obtain ⟨holder, _, rfl⟩ := List.mem_map.mp member
      exact Bool.false_ne_true
    rw [notes, ← filter_isPresence_plainNotes, plain, List.filter_append, none, List.nil_append,
      (presenceOf_spec members (name, path)).1]

/-- A row with a field of a kind. -/
def codeRow (path : String) (kind : FieldKind) : Entity :=
  { Entity.ofTypePath "Row" path with fields := [.ofKind "code" "code" kind] }

/-- A row whose field refers to a unit. -/
def unitRow (path : String) : Entity := codeRow path (.toOne "Unit" false .protect none)

/-- A row whose field is left out. -/
def droppedRow (path : String) : Entity := codeRow path .dropped

/-- The field replaces two dropped ones, and one of the rows lacks it. -/
theorem mergeGroup_notes_of_rows :
    let others := [unitRow "B", droppedRow "C", Entity.ofTypePath "Row" "D"]
    let members := droppedRow "A" :: others
    IsFresh members ∧
    mergeParents default "Row" members [] = .ok (none, members, []) ∧
    ∃ entity later, mergeGroup default (droppedRow "A") others [] = .ok (entity, later) ∧
      entity.fields.map (·.notes) =
        [[.replacesDropped ["A"], .replacesDropped ["C"], .nullIn ["D"]]] ∧
      List.Forall₂ (fun identity field => field.isMaterialized = true →
        IsNoted members identity field) (identities members) entity.fields := by
  intro others members
  have fresh : IsFresh members := ⟨by decide, by decide, by decide, by decide⟩
  have evaluated : (mergeGroup default (droppedRow "A") others []).toOption.map
      (·.1.fields.map (·.notes)) =
        some [[.replacesDropped ["A"], .replacesDropped ["C"], .nullIn ["D"]]] := by
    decide +kernel
  obtain ⟨⟨entity, later⟩, given, seen⟩ := Result.exists_ok_of_map evaluated
  exact ⟨fresh, rfl, entity, later, given, seen, mergeGroup_notes fresh rfl given⟩

/-- Of two types that leave a field out before a third one declares it, the second one is not noted,
although both are if they come behind it. -/
theorem second_dropped_field_unnoted :
    let seen (field : Field) :=
      (field.name, field.dottedPath, field.isMaterialized, field.notes)
    (mergeGroup default (droppedRow "A") [droppedRow "B", unitRow "C"] []).toOption.map
        (·.1.fields.map seen) =
      some [("code", "code", true, [.replacesDropped ["A"]])] ∧
    (mergeGroup default (unitRow "A") [droppedRow "B", droppedRow "C"] []).toOption.map
        (·.1.fields.map seen) =
      some [("code", "code", true, [.replacesDropped ["B"], .replacesDropped ["C"]])] ∧
    ¬∀ first others entity later, IsFresh (first :: others) →
      mergeGroup default first others [] = .ok (entity, later) →
        ∀ field ∈ entity.fields, field.isMaterialized = true → ∀ type,
          type ∈ field.notes.flatMap replacedTypes ↔ ∃ member ∈ first :: others,
            drops (field.name, field.dottedPath) member = true ∧ type ∈ member.sourceTypes := by
  intro seen
  have evaluated : (mergeGroup default (droppedRow "A") [droppedRow "B", unitRow "C"]
      []).toOption.map (·.1.fields.map seen) =
        some [("code", "code", true, [.replacesDropped ["A"]])] := by decide +kernel
  refine ⟨evaluated, by decide +kernel, fun exact_ => ?_⟩
  obtain ⟨⟨entity, later⟩, given, shown⟩ := Result.exists_ok_of_map evaluated
  obtain ⟨field, single, shown⟩ := List.map_eq_singleton_iff.mp shown
  have member : field ∈ entity.fields := single ▸ List.mem_singleton_self field
  obtain ⟨name, shown⟩ := Prod.mk.inj shown
  obtain ⟨path, shown⟩ := Prod.mk.inj shown
  obtain ⟨materialized, noted⟩ := Prod.mk.inj shown
  have fresh : IsFresh [droppedRow "A", droppedRow "B", unitRow "C"] :=
    ⟨by decide, by decide, by decide, by decide⟩
  have dropped : drops (field.name, field.dottedPath) (droppedRow "B") = true := by
    rw [name, path]
    decide
  have named := (exact_ _ _ entity later fresh given field member materialized "B").mpr
    ⟨droppedRow "B", by simp, dropped, by decide⟩
  rw [noted] at named
  exact absurd named (by decide)

/-! ## Fields that a member leaves out -/

/-- What becomes of a name and path in a merged entity: if a member declares the field, then it is
there, or an alias of a field with its name is, unless a difference is tolerated. It is nullable
if a member lacks it or has it nullable. A member that leaves it out does not lack it. -/
structure IsRestored (book : RuleBook) (members : List Entity) (fields : List Field)
    (identity : String × String) (field : Field) : Prop where
  path : field.dottedPath = identity.2
  declared : (∃ member ∈ members, ∃ known, member.fieldAt? identity.1 identity.2 = some known ∧
      known.isMaterialized = true) →
    (∃ member ∈ members, Tolerates book member identity.2) ∨
      (field.name = identity.1 ∧ field.isMaterialized = true) ∨
        (field.kind = .coalescedAlias identity.1 ∧ identity.1 ∈ materializedNames fields)
  nullable : field.nullable = true ↔ IsRelaxed members identity
  indifferent : (∀ member ∈ members, ∀ mark, member.fieldAt? identity.1 identity.2 = some mark →
      mark.isDropped = true → mark.nullable = false) →
    (field.nullable = true ↔ IsRelaxed (members.filter (!drops identity ·)) identity)

/-- Members that leave the field out make no difference, as long as their marks are not nullable. -/
theorem isRelaxed_filter (required : ∀ member ∈ members, ∀ mark,
      member.fieldAt? identity.1 identity.2 = some mark → mark.isDropped = true →
        mark.nullable = false) :
    IsRelaxed (members.filter (!drops identity ·)) identity ↔ IsRelaxed members identity := by
  constructor
  · rintro (⟨member, kept, none⟩ | ⟨member, kept, known, found, nullable⟩)
    · exact .inl ⟨member, (List.mem_filter.mp kept).1, none⟩
    · exact .inr ⟨member, (List.mem_filter.mp kept).1, known, found, nullable⟩
  · rintro (⟨member, inGroup, none⟩ | ⟨member, inGroup, known, found, nullable⟩)
    · exact .inl ⟨member, List.mem_filter.mpr ⟨inGroup, by simp [drops, none]⟩, none⟩
    · refine .inr ⟨member, List.mem_filter.mpr ⟨inGroup, ?_⟩, known, found, nullable⟩
      have declared : known.isDropped = false := by
        by_contra dropped
        rw [required member inGroup known found (by simpa using dropped)] at nullable
        cases nullable
      simp [drops, found, declared]

/-- A field that cannot be merged stops the merge of its group. -/
theorem mergeGroup_fails
    (settled : mergeParents book first.name (first :: others) entities =
      .ok (parent, members, grown)) (among : identity ∈ identities members) {failure : Error}
    (refused : mergeField book first.name members identity = .error failure) :
    ∃ failure, mergeGroup book first others entities = .error failure := by
  cases result : mergeGroup book first others entities with
  | error failure => exact ⟨failure, rfl⟩
  | ok pair =>
    obtain ⟨fields, blended, _⟩ := mergeGroup_fields settled result
    obtain ⟨merged, _, given⟩ := Pointwise.exists_right blended among
    rw [refused] at given
    cases given

/-- A field that some members leave out and another one declares is in the merged entity. It is
nullable exactly if some member has neither, or has it nullable, and only then a primary key stops
the merge. The members that leave it out do not count as lacking it. -/
theorem mergeGroup_restores
    (settled : mergeParents book first.name (first :: others) entities =
      .ok (parent, members, grown)) :
    (∀ entity later, mergeGroup book first others entities = .ok (entity, later) →
      List.Forall₂ (IsRestored book members entity.fields) (identities members) entity.fields) ∧
    ∀ identity, IsRelaxed members identity → HoldsKey members identity →
      ∃ failure, mergeGroup book first others entities = .error failure := by
  constructor
  · intro entity later given
    obtain ⟨fields, blended, coalesced⟩ := mergeGroup_fields settled given
    have stand := (List.forall₂_and_left fields entity.fields).mpr
      ⟨(coalesceAliases_coalesced coalesced).complete, coalesceAliases_standsFor coalesced⟩
    refine Pointwise.mono_right ?_ blended stand
    rintro ⟨name, path⟩ blend field given ⟨named, stands⟩
    obtain ⟨blendName, blendPath⟩ := mergeField_identity given
    have nullable : field.nullable = true ↔ IsRelaxed members (name, path) := by
      rw [stands.nullable]
      exact mergeField_nullable given
    refine ⟨stands.path.trans blendPath, ?_, nullable, fun required => ?_⟩
    · rintro ⟨member, inGroup, known, found, declared⟩
      rcases mergeField_lasting lasting_isMaterialized given inGroup found declared with
        materialized | tolerated
      · right
        have there := named materialized
        rw [blendName] at there
        cases stands with
        | kept same =>
          exact .inl ⟨(Field.bare_eq_iff.mp same).1.trans blendName,
            (Field.isMaterialized_of_bare same).trans materialized⟩
        | pointed _ same =>
          have kind := (Field.bare_eq_iff.mp same).2.2.1
          exact .inr ⟨kind.trans (congrArg FieldKind.coalescedAlias blendName), there⟩
      · exact .inl tolerated
    · rw [isRelaxed_filter required]
      exact nullable
  · rintro ⟨name, path⟩ relaxed key
    obtain ⟨member, inGroup, known, found, _⟩ := id key
    obtain ⟨knownMember, knownName, knownPath⟩ := fieldAt?_some found
    have among : (name, path) ∈ identities members :=
      mem_identities.mpr ⟨member, inGroup, known, knownMember, by rw [knownName, knownPath]⟩
    exact mergeGroup_fails settled among (mergeField_key relaxed key)

end Groups

/-- Two rows leave the field out, the third one requires it, and so does the merged one. -/
theorem mergeGroup_restores_of_rows :
    let others := [unitRow "B", droppedRow "C"]
    let members := droppedRow "A" :: others
    mergeParents default "Row" members [] = .ok (none, members, []) ∧
    (mergeGroup default (droppedRow "A") others []).toOption.map
        (·.1.fields.map fun field => (field.isMaterialized, field.nullable)) =
      some [(true, false)] ∧
    (∀ entity later, mergeGroup default (droppedRow "A") others [] = .ok (entity, later) →
      List.Forall₂ (IsRestored default members entity.fields) (identities members)
        entity.fields) ∧
    ∀ identity, IsRelaxed members identity → HoldsKey members identity →
      ∃ failure, mergeGroup default (droppedRow "A") others [] = .error failure :=
  ⟨rfl, by decide +kernel, mergeGroup_restores rfl⟩

/-- A required field stays required although the rows of one type have no values for it, and stays a
primary key if it is one. -/
theorem dropped_field_required :
    let keyRow (path : String) : Entity :=
      { unitRow path with fields := (unitRow path).fields.map ({ · with primaryKey := true }) }
    let seen (entity : Entity) := entity.fields.map fun field =>
      (field.isMaterialized, field.nullable, field.primaryKey)
    (mergeGroup default (droppedRow "Left") [unitRow "Right"] []).toOption.map (seen ·.1) =
      some [(true, false, false)] ∧
    (mergeGroup default (droppedRow "Left") [keyRow "Right"] []).toOption.map (seen ·.1) =
      some [(true, false, true)] ∧
    ¬∀ first others entity later, mergeGroup default first others [] = .ok (entity, later) →
      ∀ identity, (∃ member ∈ first :: others, drops identity member = true) →
        (∃ member ∈ first :: others, ∃ known,
          member.fieldAt? identity.1 identity.2 = some known ∧ known.isMaterialized = true) →
            ∃ field ∈ entity.fields, field.isMaterialized = true ∧ field.nullable = true := by
  intro keyRow seen
  have evaluated : (mergeGroup default (droppedRow "Left") [unitRow "Right"] []).toOption.map
      (seen ·.1) = some [(true, false, false)] := by decide +kernel
  refine ⟨evaluated, by decide +kernel, fun claimed => ?_⟩
  obtain ⟨⟨entity, later⟩, given, shown⟩ := Result.exists_ok_of_map evaluated
  obtain ⟨field, member, _, nullable⟩ := claimed _ _ entity later given ("code", "code")
    ⟨droppedRow "Left", by simp, by decide⟩ ⟨unitRow "Right", by simp, _, rfl, rfl⟩
  obtain ⟨only, single, same⟩ := List.map_eq_singleton_iff.mp shown
  rw [single, List.mem_singleton] at member
  subst member
  have required : field.nullable = false := (Prod.mk.inj (Prod.mk.inj same).2).1
  rw [nullable] at required
  cases required

end EntityGraph.Compile
