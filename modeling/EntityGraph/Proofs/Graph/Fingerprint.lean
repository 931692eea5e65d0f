import EntityGraph.Proofs.Entity.Determinacy
import EntityGraph.Proofs.Graph.Stages

/-!
# Fingerprints of different graphs

The digested text tells lists of entities apart up to infinities and NaN, which are all written
alike. So a changed graph is accepted under an old fingerprint only if two texts have the same
digest, or if nothing has changed but which of these a default or a bound is.
-/
namespace EntityGraph

/-- Whether two different texts have the same digest. -/
def Sha256.Collide (left right : String) : Prop := left ≠ right ∧ hexOfText left = hexOfText right

namespace Fingerprint

theorem canonicalText_eq_iff {left right : List Entity} :
    canonicalText left = canonicalText right ↔
      left.map Entity.blurred = right.map Entity.blurred := by
  -- An entity has no `null` of its own, so blurring it as JSON is blurring its doubles.
  have null : Json.blur .null (.float nan) = .null := by
    rw [Json.blur, isFinite_nan]
    rfl
  have blurred (entities : List Entity) : Json.blur (.float nan) (Entity.listToJson entities) =
      Entity.listToJson (entities.map Entity.blurred) :=
    Json.blur_map Entity.blurred Entity.blur_toJson entities
  rw [canonicalText, canonicalText, Json.compact_eq_iff null, blurred, blurred]
  constructor
  · intro same
    exact List.map_injective_iff.mpr (fun _ _ => Entity.toJson_injective) (Json.arr.inj same)
  · exact congrArg Entity.listToJson

theorem verify_iff {left right : List Entity} : (ofEntities left).verify right = true ↔
    Sha256.hexOfText (canonicalText right) = Sha256.hexOfText (canonicalText left) := by
  rw [verify, beq_iff_eq, ofEntities, ofEntities, ofText, ofText, mk.injEq]

/-- The digested texts of two lists of entities, such as those of any two compilations, are equal
exactly if the lists are equal up to infinities and NaN. So where there are none, the texts of
different lists are different, and one list is accepted under the fingerprint of the other only if
the texts collide. -/
theorem texts_tell_entities_apart (left right : List Entity) :
    (canonicalText left = canonicalText right ↔
        left.map Entity.blurred = right.map Entity.blurred) ∧
      ((∀ entity ∈ left ++ right, ∀ value ∈ entity.doubles, value.isFinite = true) →
        left ≠ right →
          canonicalText left ≠ canonicalText right ∧
            ((ofEntities left).verify right = true →
              Sha256.Collide (canonicalText left) (canonicalText right))) := by
  refine ⟨canonicalText_eq_iff, fun finite different => ?_⟩
  have plain {entities : List Entity} (among : entities ⊆ left ++ right) :
      entities.map Entity.blurred = entities :=
    (List.map_congr_left fun entity member =>
      Entity.blurred_of_finite (finite entity (among member))).trans (List.map_id _)
  have texts : canonicalText left ≠ canonicalText right := by
    rw [Ne, canonicalText_eq_iff, plain (List.subset_append_left _ _),
      plain (List.subset_append_right _ _)]
    exact different
  exact ⟨texts, fun accepted => ⟨texts, (verify_iff.mp accepted).symm⟩⟩

/-- Rows with a double that has a default. -/
def levelRows (level : String) : Schema.Index :=
  let element : Schema.Element :=
    ⟨some "level", none, some "xs:double", none, none, .once, some level, none, none⟩
  { (default : Schema.Index) with
    complexTypes := [("Row", ⟨some "Row", false, none, [],
      some (.compositor .sequence .once [.element element]), none, none, none⟩)] }

theorem texts_tell_entities_apart_of_levelRows :
    ∃ graph other, compile (levelRows "0.5") (settingsOf ["Row"]) = .ok graph ∧
      compile (levelRows "0.25") (settingsOf ["Row"]) = .ok other ∧
        (∀ entity ∈ graph.entities ++ other.entities, ∀ value ∈ entity.doubles,
          value.isFinite = true) ∧
        graph.entities ≠ other.entities ∧
        canonicalText graph.entities ≠ canonicalText other.entities ∧
        (graph.fingerprint.verify other.entities = true →
          Sha256.Collide (canonicalText graph.entities) (canonicalText other.entities)) := by
  have evaluated : (compile (levelRows "0.5") (settingsOf ["Row"])).toOption.map
      (·.entities.flatMap Entity.doubles) = some [0.5] := by decide +kernel
  have evaluated' : (compile (levelRows "0.25") (settingsOf ["Row"])).toOption.map
      (·.entities.flatMap Entity.doubles) = some [0.25] := by decide +kernel
  obtain ⟨graph, compiled, doubles⟩ := Result.exists_ok_of_map evaluated
  obtain ⟨other, compiled', doubles'⟩ := Result.exists_ok_of_map evaluated'
  have finite : ∀ entity ∈ graph.entities ++ other.entities, ∀ value ∈ entity.doubles,
      value.isFinite = true := by
    intro entity member value inside
    have among : value ∈ (graph.entities ++ other.entities).flatMap Entity.doubles :=
      List.mem_flatMap.mpr ⟨entity, member, inside⟩
    rw [List.flatMap_append, doubles, doubles'] at among
    have all : ∀ value ∈ [(0.5 : Float)] ++ [0.25], value.isFinite = true := by decide
    exact all value among
  have different : graph.entities ≠ other.entities := by
    intro same
    rw [same, doubles'] at doubles
    exact absurd doubles (by decide)
  obtain ⟨texts, accepted⟩ :=
    (texts_tell_entities_apart graph.entities other.entities).2 finite different
  exact ⟨graph, other, compiled, compiled', finite, different, texts, accepted⟩

/-- The two infinities are different defaults, and the graph of one is accepted under the
fingerprint of the other, because both are written as `null`. -/
theorem infinities_share_fingerprint :
    ∃ graph other, compile (levelRows "inf") (settingsOf ["Row"]) = .ok graph ∧
      compile (levelRows "-inf") (settingsOf ["Row"]) = .ok other ∧
        graph.entities ≠ other.entities ∧
        canonicalText graph.entities = canonicalText other.entities ∧
        graph.fingerprint.verify other.entities = true := by
  have evaluated : (compile (levelRows "inf") (settingsOf ["Row"])).toOption.map
      (·.entities.flatMap Entity.doubles) = some [1 / 0] := by decide +kernel
  have evaluated' : (compile (levelRows "-inf") (settingsOf ["Row"])).toOption.map
      (·.entities.flatMap Entity.doubles) = some [-1 / 0] := by decide +kernel
  have written : (compile (levelRows "inf") (settingsOf ["Row"])).toOption.map
      (canonicalText ·.entities) =
        (compile (levelRows "-inf") (settingsOf ["Row"])).toOption.map
          (canonicalText ·.entities) := by decide +kernel
  obtain ⟨graph, compiled, doubles⟩ := Result.exists_ok_of_map evaluated
  obtain ⟨other, compiled', doubles'⟩ := Result.exists_ok_of_map evaluated'
  rw [compiled, compiled'] at written
  have texts : canonicalText graph.entities = canonicalText other.entities :=
    Option.some.inj written
  refine ⟨graph, other, compiled, compiled', ?_, texts, ?_⟩
  · intro same
    rw [same, doubles'] at doubles
    exact absurd doubles (by decide)
  · rw [Graph.fingerprint, verify_iff, texts]

end Fingerprint

end EntityGraph
