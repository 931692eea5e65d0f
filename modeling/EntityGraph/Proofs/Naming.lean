import EntityGraph.Proofs.Build.Histories
import EntityGraph.Proofs.Graph.Stages
import EntityGraph.Proofs.Pattern.Literal

/-!
# Names that lead back to a path

A name leads back to the path that a plain rule spells out, or else to a path that has got it. In
the second case the path has the name. In the first one the rule is asked for the path only if no
rule before it matches; so the path has the name exactly if none of those gives it another one. Then
an extra field refers to the entity that the settings name.
-/
open Relation (ReflTransGen)

namespace EntityGraph.Compile

/-! ## Rules that spell out a path -/

/-- The rule gives an entity to the only path that its pattern spells out. -/
def NameRule.isPlainFor (rule : NameRule) (entity : String) : Bool :=
  rule.template == entity && rule.literal.isSome

/-- No rule before the first plain one for an entity gives its path another entity. -/
def Unshadowed (rules : List NameRule) (entity : String) : Prop :=
  ∀ rule ∈ rules.find? (·.isPlainFor entity), ∀ path ∈ rule.literal,
    ∀ name ∈ (rules.takeWhile (!·.isPlainFor entity)).findSome? (·.name? path),
      name.entity = entity

instance (rules : List NameRule) (entity : String) : Decidable (Unshadowed rules entity) :=
  inferInstanceAs (Decidable (∀ rule ∈ rules.find? (·.isPlainFor entity), ∀ path ∈ rule.literal,
    ∀ name ∈ (rules.takeWhile (!·.isPlainFor entity)).findSome? (·.name? path),
      name.entity = entity))

theorem NameRule.ofRule_spec {written : NamingRule} {rule : NameRule}
    (read : NameRule.ofRule written = .ok rule) :
    Pattern.whole written.pattern = .ok rule.pattern ∧
      rule.literal = literalText? written.pattern := by
  obtain ⟨pattern, whole, read⟩ := Result.bind_eq_ok.mp read
  obtain rfl := Result.pure_eq_ok.mp read
  exact ⟨whole, rfl⟩

theorem NameResolver.mem_ofRules {table : List NamingRule} {start : NameResolver}
    (read : NameResolver.ofRules table = .ok start) {rule : NameRule}
    (member : rule ∈ start.rules) :
    ∃ written ∈ table, NameRule.ofRule written = .ok rule := by
  obtain ⟨rules, mapped, read⟩ := Result.bind_eq_ok.mp read
  obtain rfl := Result.pure_eq_ok.mp read
  exact Pointwise.exists_left (Result.forall₂_of_mapM mapped) member

/-- A plain rule names the path that it spells out, unless its template has references. -/
theorem NameRule.name?_of_isPlainFor {written : NamingRule} {rule : NameRule}
    (read : NameRule.ofRule written = .ok rule) {entity path : String}
    (plain : rule.isPlainFor entity = true) (spelled : rule.literal = some path)
    (noReference : '$' ∉ entity.toList) : rule.name? path = some ⟨entity, rule.merge, false⟩ := by
  obtain ⟨whole, literal⟩ := ofRule_spec read
  obtain ⟨gives, _⟩ := (Bool.and_eq_true _ _).mp plain
  rw [name?, beq_iff_eq.mp gives,
    Pattern.replace?_of_literalText? whole (literal.symm.trans spelled) noReference]
  rfl

/-! ## Looking back -/

namespace NameResolver

/-- The resolver after some paths have been named. -/
def after (resolver : NameResolver) (history : List String) : NameResolver :=
  history.foldl (fun resolver path => (resolver.resolve path).2.2) resolver

/-- All that is known follows from the rules. -/
def Honest (resolver : NameResolver) : Prop :=
  ∀ entry ∈ resolver.known, entry.2 = nameOf resolver.rules entry.1

theorem Honest.resolve {resolver : NameResolver} (honest : resolver.Honest) (path : String) :
    (resolver.resolve path).1 = nameOf resolver.rules path ∧
      (resolver.resolve path).2.2.Honest := by
  unfold NameResolver.resolve
  split
  next name found => exact ⟨honest (path, name) (Table.mem_of_get? found), honest⟩
  next =>
    refine ⟨rfl, fun entry member => ?_⟩
    rcases Table.mem_of_mem_set member with rfl | old
    · rfl
    · exact honest entry old

theorem Honest.after {resolver : NameResolver} (honest : resolver.Honest) (history : List String) :
    (resolver.after history).Honest ∧ (resolver.after history).rules = resolver.rules := by
  induction history generalizing resolver with
  | nil => exact ⟨honest, rfl⟩
  | cons path rest ih =>
    obtain ⟨later, rules⟩ := ih (honest.resolve path).2
    exact ⟨later, rules.trans (resolve_rules resolver path)⟩

theorem ofRules_honest {table : List NamingRule} {start : NameResolver}
    (read : ofRules table = .ok start) : start.Honest := by
  intro entry member
  rw [ofRules_known read] at member
  cases member

/-- The first plain rule for an entity comes before all that is known. -/
theorem reverse?_eq (resolver : NameResolver) (entity : String) :
    resolver.reverse? entity =
      ((resolver.rules.find? (·.isPlainFor entity)).bind (·.literal) <|>
        (resolver.known.find? (·.2.entity == entity)).map (·.1)) := by
  have first (rules : List NameRule) :
      rules.findSome? (fun rule => if rule.template = entity then rule.literal else none) =
        (rules.find? (·.isPlainFor entity)).bind (·.literal) := by
    induction rules with
    | nil => rfl
    | cons rule rest ih =>
      rw [List.findSome?_cons, List.find?_cons, NameRule.isPlainFor]
      by_cases gives : rule.template = entity
      · cases spelled : rule.literal with
        | none => simp [gives, ih]
        | some path => simp [gives, spelled]
      · have other : (rule.template == entity) = false := beq_eq_false_iff_ne.mpr gives
        simp [gives, other, ih]
  rw [reverse?, first]

/-- The path that a name leads back to has the name exactly if nothing shadows the plain rule. -/
theorem Honest.nameOf_of_reverse? {table : List NamingRule} {start resolver : NameResolver}
    (read : ofRules table = .ok start) (honest : resolver.Honest)
    (rules : resolver.rules = start.rules) {entity path : String}
    (plain : '$' ∈ entity.toList → start.rules.find? (·.isPlainFor entity) = none)
    (found : resolver.reverse? entity = some path) :
    (nameOf resolver.rules path).entity = entity ↔ Unshadowed start.rules entity := by
  rw [reverse?_eq, rules] at found
  rw [rules]
  unfold Unshadowed
  cases first : start.rules.find? (·.isPlainFor entity) with
  | none =>
    -- The path is one that has been named, and what is known follows from the rules.
    rw [first] at found
    obtain ⟨entry, known, rfl⟩ := Option.map_eq_some_iff.mp found
    have named : entry.2.entity = entity := by simpa using List.find?_some known
    have given := honest entry (List.mem_of_find?_eq_some known)
    rw [rules] at given
    exact ⟨fun _ => nofun, fun _ => given ▸ named⟩
  | some rule =>
    have noReference : '$' ∉ entity.toList := fun has => by simp [plain has] at first
    obtain ⟨gives, before, later, split, others⟩ := List.find?_eq_some_iff_append.mp first
    obtain ⟨spelled, literal⟩ : ∃ spelled, rule.literal = some spelled :=
      Option.isSome_iff_exists.mp ((Bool.and_eq_true _ _).mp gives).2
    obtain rfl : spelled = path := by
      simpa [first, literal] using found
    obtain ⟨written, _, ofWritten⟩ := mem_ofRules read (List.mem_of_find?_eq_some first)
    have own := NameRule.name?_of_isPlainFor ofWritten gives literal noReference
    have front : start.rules.takeWhile (!·.isPlainFor entity) = before := by
      rw [split, List.takeWhile_append_of_pos fun other member => by simp [others other member]]
      simp [gives]
    -- The path gets its name from a rule in front, or else from the plain rule.
    rw [front, nameOf, split, List.findSome?_append]
    cases shadow : before.findSome? (·.name? spelled) with
    | none =>
      refine ⟨fun _ other same path has name given => ?_, fun _ => by simp [own]⟩
      obtain rfl := Option.some.inj same
      obtain rfl := Option.some.inj (literal.symm.trans has)
      rw [shadow] at given
      cases given
    | some name => simp [literal, shadow]

end NameResolver

/-! ## Extra fields -/

variable {context : Context} {start : NameResolver}

/-- The resolver stays honest, whatever a build does. -/
theorem honest_of_steps {first last : Progress} (steps : ReflTransGen (Step context) first last)
    (honest : first.state.resolver.Honest) :
    last.state.resolver.Honest ∧ last.state.resolver.rules = first.state.resolver.rules := by
  induction steps with
  | refl => exact ⟨honest, rfl⟩
  | tail _ step ih =>
    obtain ⟨still, rules⟩ := ih
    cases step with
    | named path =>
      exact ⟨(still.resolve path).2, (NameResolver.resolve_rules _ path).trans rules⟩
    | _ => exact ⟨still, rules⟩

/-- Building the entity of a type path gives the name of the path. -/
theorem buildEntity_name {onward : Onward} {path entity : String}
    {type : Option Schema.ComplexType} {fields : List Field} {state final : State}
    (honest : state.resolver.Honest)
    (ran : (buildEntity context onward path type fields).run state = .ok (entity, final)) :
    entity = (nameOf state.resolver.rules path).entity := by
  obtain ⟨name, named, ranName, ran⟩ := run_bind_eq_ok.mp ran
  obtain rfl : name = nameOf state.resolver.rules path := by
    cases ranName
    exact (honest.resolve path).1
  obtain ⟨_, _, read, ran⟩ := run_bind_eq_ok.mp ran
  cases read
  -- Whether the entity is extended, built or refused, the name comes at the end.
  dsimp only at ran
  split at ran
  · obtain ⟨_, _, _, ran⟩ := run_bind_eq_ok.mp ran
    cases ran
    rfl
  · split at ran
    · split at ran
      · obtain ⟨_, _, _, ran⟩ := run_bind_eq_ok.mp ran
        cases ran
        rfl
      · cases ran
    · obtain ⟨_, _, _, ran⟩ := run_bind_eq_ok.mp ran
      cases ran
      rfl

theorem onward_build_name {levels : Nat} {path entity : String}
    {type : Option Schema.ComplexType} {fields : List Field} {state final : State}
    (honest : state.resolver.Honest)
    (ran : ((onward context levels).build path type fields).run state = .ok (entity, final)) :
    entity = (nameOf state.resolver.rules path).entity := by
  cases levels with
  | zero => cases ran
  | succ levels => exact buildEntity_name honest ran

/-- An extra field refers to what the settings name, unless the name leads back to another
entity. -/
theorem extraTarget_eq {levels : Nat} {target entity : String} {state final : State}
    (honest : state.resolver.Honest)
    (back : ∀ path, state.resolver.reverse? target = some path →
      (nameOf state.resolver.rules path).entity = target)
    (ran : (extraTarget context (onward context levels) target).run state = .ok (entity, final)) :
    entity = target := by
  obtain ⟨_, _, read, ran⟩ := run_bind_eq_ok.mp ran
  cases read
  split at ran
  next path found =>
    split at ran
    · exact (onward_build_name honest ran).trans (back path found)
    · cases ran
      rfl
  next =>
    cases ran
    rfl

theorem extraKind_target? {levels : Nat} {extra : ExtraField} {target : String}
    {kind : FieldKind} {state final : State} (honest : state.resolver.Honest)
    (back : ∀ path, state.resolver.reverse? target = some path →
      (nameOf state.resolver.rules path).entity = target)
    (given : extra.target = some target)
    (ran : (extraKind context (onward context levels) extra).run state = .ok (kind, final)) :
    kind.target? = some target := by
  simp only [extraKind, given] at ran
  obtain ⟨entity, _, found, kinded⟩ := run_bind_eq_ok.mp ran
  obtain rfl := extraTarget_eq honest back found
  split at kinded
  all_goals
    cases kinded
    rfl

/-- Where a name leads back to a path, the path has the name exactly if nothing before the plain
rule that spells it out gives it another one, whatever has been named before; a name that no plain
rule gives is always had. Then every extra field refers to the entity that the settings name, at
whatever point of a build it is added. -/
theorem names_lead_back {table : List NamingRule} (read : NameResolver.ofRules table = .ok start)
    {entity : String}
    (plain : '$' ∈ entity.toList → start.rules.find? (·.isPlainFor entity) = none) :
    (∀ history path, (start.after history).reverse? entity = some path →
      (((start.after history).resolve path).1.entity = entity ↔
        Unshadowed start.rules entity)) ∧
    (Unshadowed start.rules entity → ∀ context pending state,
      ReflTransGen (Step context) ⟨[], .start start⟩ ⟨pending, state⟩ →
      ∀ levels extra kind final, extra.target = some entity →
        (extraKind context (onward context levels) extra).run state = .ok (kind, final) →
        kind.target? = some entity) := by
  have honest := NameResolver.ofRules_honest read
  constructor
  · intro history path found
    obtain ⟨later, rules⟩ := honest.after history
    rw [(later.resolve path).1]
    exact later.nameOf_of_reverse? read rules plain found
  · intro unshadowed context pending state steps levels extra kind final given ran
    obtain ⟨still, rules⟩ := honest_of_steps steps honest
    refine extraKind_target? still (fun path found => ?_) given ran
    exact (still.nameOf_of_reverse? read rules plain found).mpr unshadowed

/-! ## Orders and purchases -/

def namingTable (rules : List (String × String)) : List NamingRule :=
  rules.map fun (pattern, entity) => ⟨pattern, entity, false⟩

/-- Items of orders have a name of their own, before that of everything in an order. -/
def itemTable : List NamingRule :=
  namingTable [("(.*)Line", "$1"), ("Order\\.item", "+Item"), ("Order.*", "Order")]

/-- What has been named before. -/
def itemHistory : List String := ["OrderLine", "Basket.item"]

def itemContext : Context :=
  { index := .ofSequences [("Order.item", [])]
    settings := { settingsOf [] with typeMap := itemTable }
    book := ⟨settingsOf [], []⟩
    roots := [] }

/-- A field that refers to an entity. -/
def extraReference (name target : String) : ExtraField :=
  ⟨name, some target, false, none, none, false, none⟩

theorem names_lead_back_of_items :
    ∃ start, NameResolver.ofRules itemTable = .ok start ∧ Unshadowed start.rules "Item" ∧
      (start.after itemHistory).reverse? "Item" = some "Order.item" ∧
      ((start.after itemHistory).resolve "Order.item").1.entity = "Item" ∧
      ∃ kind final, (extraKind itemContext (onward itemContext 1)
          (extraReference "first" "Item")).run (.start start) = .ok (kind, final) ∧
        kind.target? = some "Item" := by
  have evaluated : (NameResolver.ofRules itemTable).toOption.map (fun start =>
      decide (Unshadowed start.rules "Item" ∧
        (start.after itemHistory).reverse? "Item" = some "Order.item" ∧
        ((extraKind itemContext (onward itemContext 1)
          (extraReference "first" "Item")).run (.start start)).toOption.isSome = true)) =
      some true := by
    decide +kernel
  obtain ⟨start, read, seen⟩ := Result.exists_ok_of_map evaluated
  obtain ⟨unshadowed, found, runs⟩ := of_decide_eq_true seen
  obtain ⟨⟨kind, final⟩, ran⟩ := Result.isSome_toOption.mp runs
  have plain (has : '$' ∈ "Item".toList) : start.rules.find? (·.isPlainFor "Item") = none :=
    absurd has (by decide)
  obtain ⟨back, refers⟩ := names_lead_back read plain
  exact ⟨start, read, unshadowed, found, (back _ _ found).mpr unshadowed, kind, final, ran,
    refers unshadowed _ _ _ .refl _ _ _ _ rfl ran⟩

/-- A rule for all types comes before the one that names purchases. -/
def purchaseTable : List NamingRule :=
  namingTable [("(.*)Type", "$1"), ("OrderType", "Purchase")]

def purchaseSettings : Settings :=
  { settingsOf ["Owner"] with
    typeMap := purchaseTable
    entities := [⟨"Owner",
      { EntityOptions.none with addFields := [extraReference "purchase" "Purchase"] }, []⟩] }

/-- The name of a shadowed rule leads back to a path that has another name, and a field that is to
refer to it refers to that one. -/
theorem shadowed_name_leads_astray :
    (∃ start, NameResolver.ofRules purchaseTable = .ok start ∧
      start.reverse? "Purchase" = some "OrderType" ∧
      (start.resolve "OrderType").1.entity = "Order") ∧
    ∃ graph, compile (.ofSequences [("Owner", []), ("OrderType", [])]) purchaseSettings =
        .ok graph ∧
      ∃ entity ∈ graph.entities, ∃ field ∈ entity.materializedFields,
        decide (field.name = "purchase" ∧ field.kind.target? = some "Order") = true := by
  constructor
  · have evaluated : (NameResolver.ofRules purchaseTable).toOption.map
        (fun start => (start.reverse? "Purchase", (start.resolve "OrderType").1.entity)) =
        some (some "OrderType", "Order") := by
      decide +kernel
    obtain ⟨start, read, seen⟩ := Result.exists_ok_of_map evaluated
    obtain ⟨back, name⟩ := Prod.mk.inj seen
    exact ⟨start, read, back, name⟩
  · exact exists_field_of_evaluated (by decide +kernel)

end EntityGraph.Compile
