import EntityGraph.Proofs.Naming

/-!
# Queries to a resolver

A resolver is asked for the names of paths and for paths of names, in any order. What it knows at
some point are the paths that have been named before, each with the name that the rules give it. So
a name does not depend on what was asked before, the notice about a path that no rule matches comes
with the first time that the path is named, and a name that no plain rule gives leads back to the
smallest path that has been named so.
-/
namespace EntityGraph.Compile

/-- What a resolver can be asked. -/
inductive NameQuery where
  /-- The name of a path. -/
  | nameFor (path : String)
  /-- A path that has a name. -/
  | pathFor (entity : String)
  deriving DecidableEq, Repr

inductive NameReply where
  | name (name : ResolvedName)
  | path (path : Option String)
  deriving DecidableEq, Repr

/-- The path that a query names. -/
def NameQuery.named? : NameQuery → Option String
  | nameFor path => some path
  | pathFor _ => none

/-- The paths that queries name, in their order. -/
def pathsNamed (queries : List NameQuery) : List String := queries.filterMap (·.named?)

namespace NameResolver

/-- The reply to a query, with the notices that arise. -/
def ask (resolver : NameResolver) : NameQuery → NameReply × Diagnostics × NameResolver
  | .nameFor path =>
    let (name, notices, resolver) := resolver.resolve path
    (.name name, notices, resolver)
  | .pathFor entity => (.path (resolver.reverse? entity), [], resolver)

/-- The replies to queries that come one after the other, and all notices. -/
def askAll (resolver : NameResolver) : List NameQuery → List NameReply × Diagnostics
  | [] => ([], [])
  | query :: rest =>
    let (reply, notices, resolver) := resolver.ask query
    let (replies, later) := resolver.askAll rest
    (reply :: replies, notices ++ later)

end NameResolver

/-! ## What the rules say -/

/-- The template of the names that a rule gives, without the sign that allows merging. -/
def templateOf (rule : NamingRule) : String := (Text.dropStart? "+" rule.entity).getD rule.entity

/-- The path that the first plain rule with an entity as its template spells out. -/
def spelledPath? (table : List NamingRule) (entity : String) : Option String :=
  table.findSome? fun rule => if templateOf rule = entity then literalText? rule.pattern else none

/-- The smallest of some texts. -/
def least? (texts : List String) : Option String :=
  texts.find? fun text => texts.all (text ≤ ·)

theorem least?_eq_some {texts : List String} {text : String} (member : text ∈ texts)
    (least : ∀ other ∈ texts, text ≤ other) : least? texts = some text := by
  unfold least?
  cases found : texts.find? fun text => texts.all (text ≤ ·) with
  | none =>
    have missed := List.find?_eq_none.mp found text member
    exact absurd (List.all_eq_true.mpr fun other inTexts => decide_eq_true (least other inTexts))
      missed
  | some other =>
    -- Two texts with none below them are the same.
    have above : ∀ another ∈ texts, other ≤ another := by
      have all := @List.find?_some _ (fun text => texts.all (text ≤ ·)) _ _ found
      simpa using all
    rw [String.le_antisymm (above text member) (least other (List.mem_of_find?_eq_some found))]

theorem exists_least {texts : List String} (some : texts ≠ []) :
    ∃ text ∈ texts, ∀ other ∈ texts, text ≤ other := by
  induction texts with
  | nil => exact absurd rfl some
  | cons first rest ih =>
    by_cases none : rest = []
    · subst none
      exact ⟨first, List.mem_cons_self, by simp⟩
    · obtain ⟨least, member, below⟩ := ih none
      rcases String.le_total first least with smaller | larger
      · refine ⟨first, List.mem_cons_self, List.forall_mem_cons.mpr ⟨String.le_refl _, ?_⟩⟩
        exact fun other inRest => String.le_trans smaller (below other inRest)
      · exact ⟨least, List.mem_cons_of_mem _ member, List.forall_mem_cons.mpr ⟨larger, below⟩⟩

theorem least?_eq_none_iff {texts : List String} : least? texts = none ↔ texts = [] := by
  constructor
  · intro none
    by_contra some
    obtain ⟨text, member, least⟩ := exists_least some
    rw [least?_eq_some member least] at none
    cases none
  · rintro rfl
    rfl

/-- No rule matches a path. -/
def isUnmatched (rules : List NameRule) (path : String) : Bool :=
  !rules.any (·.pattern.isMatch path)

theorem NameRule.isSome_name? (rule : NameRule) (path : String) :
    (rule.name? path).isSome = rule.pattern.isMatch path := by
  simp [name?, Pattern.replace?, Pattern.isMatch]

theorem NameRule.synthesized_of_name? {rule : NameRule} {path : String} {name : ResolvedName}
    (given : rule.name? path = some name) : name.synthesized = false := by
  obtain ⟨entity, _, rfl⟩ := Option.map_eq_some_iff.mp given
  rfl

/-- The name of a path comes from the first rule that matches it. -/
theorem name?_of_find? {rules : List NameRule} {rule : NameRule} {path : String}
    (found : rules.find? (·.pattern.isMatch path) = some rule) :
    rule.name? path = some (nameOf rules path) := by
  induction rules with
  | nil => cases found
  | cons first rest ih =>
    rw [List.find?_cons, ← first.isSome_name?] at found
    cases given : first.name? path with
    | none =>
      rw [given] at found
      simpa [nameOf, List.findSome?_cons, given] using ih found
    | some name =>
      rw [given] at found
      obtain rfl := Option.some.inj found
      simp [nameOf, given]

/-- The name of a path that no rule matches is made from it. -/
theorem nameOf_of_isUnmatched {rules : List NameRule} {path : String}
    (unmatched : isUnmatched rules path = true) :
    nameOf rules path = ⟨Text.pascalName path, false, true⟩ := by
  have none : rules.findSome? (·.name? path) = none := by
    rw [List.findSome?_eq_none_iff]
    intro rule member
    have missed : ¬rule.pattern.isMatch path = true := by
      simp only [isUnmatched, Bool.not_eq_true', List.any_eq_false] at unmatched
      exact unmatched rule member
    rw [← rule.isSome_name?] at missed
    simpa using missed
  rw [nameOf, none, Option.getD_none]

theorem synthesized_nameOf (rules : List NameRule) (path : String) :
    (nameOf rules path).synthesized = isUnmatched rules path := by
  cases unmatched : isUnmatched rules path with
  | true => rw [nameOf_of_isUnmatched unmatched]
  | false =>
    obtain ⟨rule, found⟩ : ∃ rule, rules.find? (·.pattern.isMatch path) = some rule := by
      simp only [isUnmatched, Bool.not_eq_false', List.any_eq_true] at unmatched
      exact Option.isSome_iff_exists.mp (List.find?_isSome.mpr unmatched)
    exact NameRule.synthesized_of_name? (name?_of_find? found)

/-- The rules that are ready for use spell out what the written ones do. -/
theorem findSome?_literal {table : List NamingRule} {rules : List NameRule}
    (read : List.Forall₂ (fun written rule => NameRule.ofRule written = .ok rule) table rules)
    (entity : String) :
    rules.findSome? (fun rule => if rule.template = entity then rule.literal else none) =
      spelledPath? table entity := by
  unfold spelledPath?
  induction read with
  | nil => rfl
  | @cons written rule table rules first _ ih =>
    obtain ⟨_, literal⟩ := NameRule.ofRule_spec first
    have template : rule.template = templateOf written := by
      obtain ⟨_, _, made⟩ := Result.bind_eq_ok.mp first
      obtain rfl := Result.pure_eq_ok.mp made
      unfold templateOf
      cases Text.dropStart? "+" written.entity <;> rfl
    rw [List.findSome?_cons, List.findSome?_cons, literal, template, ih]

/-! ## What is known -/

/-- A resolver knows the paths that have been named, with the names that the rules give them. -/
structure Recalls (resolver : NameResolver) (history : List String) : Prop where
  honest : resolver.Honest
  sorted : resolver.known.Sorted
  names : ∀ path, path ∈ resolver.known.names ↔ path ∈ history

namespace Recalls

variable {resolver : NameResolver} {history : List String}

theorem start {table : List NamingRule} (read : NameResolver.ofRules table = .ok resolver) :
    Recalls resolver [] := by
  have none := NameResolver.ofRules_known read
  constructor
  · exact NameResolver.ofRules_honest read
  · rw [none]
    exact Table.sorted_nil
  · intro path
    rw [none]
    rfl

/-- Naming a path adds it to what is known. -/
theorem resolve (recalls : Recalls resolver history) (path : String) :
    Recalls (resolver.resolve path).2.2 (history ++ [path]) := by
  have honest := (recalls.honest.resolve path).2
  revert honest
  unfold NameResolver.resolve
  cases found : resolver.known.get? path with
  | some name =>
    intro honest
    have known : path ∈ history := (recalls.names path).mp (Table.mem_names_of_get? found)
    refine ⟨honest, recalls.sorted, fun other => ?_⟩
    rw [recalls.names, List.mem_append, List.mem_singleton]
    constructor
    · exact .inl
    · rintro (old | rfl)
      · exact old
      · exact known
  | none =>
    intro honest
    refine ⟨honest, Table.sorted_set recalls.sorted _ _, fun other => ?_⟩
    rw [Table.mem_names_set, recalls.names, List.mem_append, List.mem_singleton, or_comm]

/-- The notice about a path that no rule matches arises when it is named for the first time. -/
theorem notices (recalls : Recalls resolver history) (path : String) :
    (resolver.resolve path).2.1 =
      if path ∈ history then [] else
        if isUnmatched resolver.rules path then [.autoNamed path (Text.pascalName path)]
        else [] := by
  unfold NameResolver.resolve
  cases found : resolver.known.get? path with
  | some name =>
    have known : path ∈ history := (recalls.names path).mp (Table.mem_names_of_get? found)
    rw [if_pos known]
  | none =>
    have new : path ∉ history := by
      rw [← recalls.names]
      exact (Table.get?_eq_none_iff _ _).mp found
    simp only [if_neg new, NameResolver.notices, synthesized_nameOf]
    by_cases unmatched : isUnmatched resolver.rules path = true
    · rw [if_pos unmatched, if_pos unmatched, nameOf_of_isUnmatched unmatched]
    · rw [if_neg unmatched, if_neg unmatched]

/-- The first of the known paths with a name is the smallest of those that have been named so. -/
theorem find?_known (recalls : Recalls resolver history) (entity : String) :
    (resolver.known.find? (·.2.entity == entity)).map (·.1) =
      least? (history.filter fun path => (nameOf resolver.rules path).entity == entity) := by
  -- An entry for each path that has been named, and no others.
  have entry_of {path : String} (member : path ∈ history) :
      (path, nameOf resolver.rules path) ∈ resolver.known := by
    obtain ⟨name, found⟩ := Table.exists_get?_of_mem_names ((recalls.names path).mpr member)
    have known := Table.mem_of_get? found
    rwa [← recalls.honest _ known]
  cases found : resolver.known.find? (·.2.entity == entity) with
  | none =>
    rw [Option.map_none, eq_comm, least?_eq_none_iff, List.filter_eq_nil_iff]
    exact fun path member => List.find?_eq_none.mp found _ (entry_of member)
  | some entry =>
    obtain ⟨named, before, after, split, others⟩ := List.find?_eq_some_iff_append.mp found
    have known : entry ∈ resolver.known := List.mem_of_find?_eq_some found
    have inHistory : entry.1 ∈ history := (recalls.names _).mp (List.mem_map_of_mem known)
    rw [recalls.honest entry known] at named
    refine (least?_eq_some (List.mem_filter.mpr ⟨inHistory, named⟩) fun other member => ?_).symm
    obtain ⟨otherIn, otherNamed⟩ := List.mem_filter.mp member
    have otherKnown := entry_of otherIn
    rw [split] at otherKnown
    rcases List.mem_append.mp otherKnown with inBefore | inAfter
    · exact absurd otherNamed (by simpa using others _ inBefore)
    · rcases List.mem_cons.mp inAfter with rfl | later
      · exact String.le_refl _
      · have sorted := recalls.sorted
        rw [split, Table.Sorted, Table.names, List.map_append, List.map_cons] at sorted
        have above := List.rel_of_pairwise_cons (List.pairwise_append.mp sorted).2.1
          (List.mem_map_of_mem later)
        exact String.not_lt.mp (String.lt_asymm above)

end Recalls

/-! ## Replies -/

/-- The reply to a query after some paths have been named. -/
def replyAfter (table : List NamingRule) (rules : List NameRule) (history : List String) :
    NameQuery → NameReply
  | .nameFor path => .name (nameOf rules path)
  | .pathFor entity =>
    .path (spelledPath? table entity <|>
      least? (history.filter fun path => (nameOf rules path).entity == entity))

/-- The notices about paths that are named for the first time. -/
def noticesFor (rules : List NameRule) (paths : List String) : Diagnostics :=
  (paths.eraseDups.filter (isUnmatched rules)).map fun path => .autoNamed path (Text.pascalName path)

theorem noticesFor_cons (rules : List NameRule) (path : String) (rest : List String) :
    noticesFor rules (path :: rest) =
      (if isUnmatched rules path then [.autoNamed path (Text.pascalName path)] else []) ++
        noticesFor rules (rest.filter (!· == path)) := by
  rw [noticesFor, List.eraseDups_cons, List.filter_cons]
  by_cases unmatched : isUnmatched rules path = true
  · simp [unmatched, noticesFor]
  · simp [unmatched, noticesFor]

namespace Recalls

variable {table : List NamingRule} {resolver : NameResolver} {history : List String}

/-- A query is answered from what has been named, and names a path at most. -/
theorem ask (recalls : Recalls resolver history)
    (read : List.Forall₂ (fun written rule => NameRule.ofRule written = .ok rule) table
      resolver.rules) (query : NameQuery) :
    (resolver.ask query).1 = replyAfter table resolver.rules history query ∧
      Recalls (resolver.ask query).2.2 (history ++ query.named?.toList) ∧
      (resolver.ask query).2.2.rules = resolver.rules := by
  cases query with
  | nameFor path =>
    refine ⟨?_, recalls.resolve path, NameResolver.resolve_rules resolver path⟩
    rw [replyAfter, ← (recalls.honest.resolve path).1]
    rfl
  | pathFor entity =>
    refine ⟨?_, by simpa [NameResolver.ask, NameQuery.named?] using recalls, rfl⟩
    rw [replyAfter, ← findSome?_literal read, ← recalls.find?_known]
    rfl

theorem length_askAll (resolver : NameResolver) (queries : List NameQuery) :
    (resolver.askAll queries).1.length = queries.length := by
  induction queries generalizing resolver with
  | nil => rfl
  | cons query rest ih => simp [NameResolver.askAll, ih]

/-- Every reply is the one that belongs to the paths named before. -/
theorem getElem?_askAll (recalls : Recalls resolver history)
    (read : List.Forall₂ (fun written rule => NameRule.ofRule written = .ok rule) table
      resolver.rules) (before : List NameQuery) (query : NameQuery) (after : List NameQuery) :
    (resolver.askAll (before ++ query :: after)).1[before.length]? =
      some (replyAfter table resolver.rules (history ++ pathsNamed before) query) := by
  induction before generalizing resolver history with
  | nil =>
    rw [pathsNamed, List.filterMap_nil, List.append_nil, ← (recalls.ask read query).1]
    rfl
  | cons first before ih =>
    obtain ⟨_, later, rules⟩ := recalls.ask read first
    have rest := ih later (rules.symm ▸ read)
    rw [rules, List.append_assoc] at rest
    have named : pathsNamed (first :: before) = first.named?.toList ++ pathsNamed before := by
      cases first <;> rfl
    rw [named, ← rest]
    rfl

/-- What is new after one more name is what was new before and is not that name. -/
theorem filter_notMem_concat (paths history : List String) (path : String) :
    paths.filter (· ∉ history ++ [path]) =
      (paths.filter (· ∉ history)).filter (!· == path) := by
  rw [List.filter_filter]
  apply List.filter_congr
  intro other _
  by_cases same : other = path
  · simp [same]
  · simp [same]

/-- The notices are those about the paths that have not been named before. -/
theorem notices_askAll (recalls : Recalls resolver history)
    (read : List.Forall₂ (fun written rule => NameRule.ofRule written = .ok rule) table
      resolver.rules) (queries : List NameQuery) :
    (resolver.askAll queries).2 =
      noticesFor resolver.rules ((pathsNamed queries).filter (· ∉ history)) := by
  induction queries generalizing resolver history with
  | nil => rfl
  | cons query rest ih =>
    obtain ⟨_, later, rules⟩ := recalls.ask read query
    have others := ih later (rules.symm ▸ read)
    rw [rules] at others
    simp only [NameResolver.askAll]
    rw [others]
    cases query with
    | pathFor entity => simp [NameResolver.ask, pathsNamed, NameQuery.named?]
    | nameFor path =>
      have named : pathsNamed (.nameFor path :: rest) = path :: pathsNamed rest := rfl
      have now : (resolver.ask (.nameFor path)).2.1 = (resolver.resolve path).2.1 := rfl
      have more : NameQuery.named? (.nameFor path) = some path := rfl
      rw [named, now, more, recalls.notices path, Option.toList_some, filter_notMem_concat]
      by_cases known : path ∈ history
      · -- The name was not new before, so nothing is taken away.
        have same : ((pathsNamed rest).filter (· ∉ history)).filter (!· == path) =
            (pathsNamed rest).filter (· ∉ history) := by
          refine List.filter_eq_self.mpr fun other new => ?_
          have notKnown := of_decide_eq_true (List.mem_filter.mp new).2
          have other_ne : other ≠ path := fun again => notKnown (again ▸ known)
          simpa using other_ne
        rw [same, if_pos known, List.nil_append, List.filter_cons_of_neg (by simpa using known)]
      · rw [if_neg known, List.filter_cons_of_pos (by simpa using known), noticesFor_cons]

end Recalls

/-- However a resolver is asked, the name of a path is the one that a new resolver gives, which is
that of the first rule that matches it, or else made from the path and not to be shared. A name
leads back to what the first plain rule for it spells out, or else to the smallest path named so
before. Each path that no rule matches has one notice, in the order in which they are first
named. -/
theorem replies_follow_history {table : List NamingRule} {start : NameResolver}
    (read : NameResolver.ofRules table = .ok start) (queries : List NameQuery) :
    (start.askAll queries).1.length = queries.length ∧
    (∀ before path after, queries = before ++ .nameFor path :: after →
      (start.askAll queries).1[before.length]? = some (.name (start.resolve path).1)) ∧
    (∀ before entity after, queries = before ++ .pathFor entity :: after →
      (start.askAll queries).1[before.length]? =
        some (.path (spelledPath? table entity <|> least?
          ((pathsNamed before).filter fun path => (start.resolve path).1.entity == entity)))) ∧
    (start.askAll queries).2 =
      ((pathsNamed queries).eraseDups.filter (isUnmatched start.rules)).map
        (fun path => .autoNamed path (Text.pascalName path)) ∧
    ∀ path,
      match start.rules.find? (·.pattern.isMatch path) with
      | some rule => rule.name? path = some (start.resolve path).1
      | none => (start.resolve path).1 = ⟨Text.pascalName path, false, true⟩ := by
  have recalls := Recalls.start read
  have fresh (path : String) : (start.resolve path).1 = nameOf start.rules path :=
    (recalls.honest.resolve path).1
  have rules : List.Forall₂ (fun written rule => NameRule.ofRule written = .ok rule) table
      start.rules := by
    obtain ⟨_, mapped, made⟩ := Result.bind_eq_ok.mp read
    obtain rfl := Result.pure_eq_ok.mp made
    exact Result.forall₂_of_mapM mapped
  simp only [fresh]
  refine ⟨Recalls.length_askAll start queries, ?_, ?_, ?_, fun path => ?_⟩
  · rintro before path after rfl
    exact recalls.getElem?_askAll rules before _ after
  · rintro before entity after rfl
    exact recalls.getElem?_askAll rules before _ after
  · rw [recalls.notices_askAll rules]
    simp [noticesFor]
  · split
    next rule found => exact name?_of_find? found
    next none =>
      apply nameOf_of_isUnmatched
      simpa [isUnmatched] using none

/-- Orders are named twice, and what is in a basket as well. -/
def itemQueries : List NameQuery :=
  [.nameFor "Basket.item", .nameFor "OrderLine", .pathFor "Order", .nameFor "Order",
    .nameFor "Basket.item"]

theorem replies_follow_history_of_items :
    ∃ start, NameResolver.ofRules itemTable = .ok start ∧
      (start.askAll (itemQueries ++ [.pathFor "Order"])).1[5]? = some (.path (some "Order")) ∧
      (start.askAll (itemQueries ++ [.pathFor "Order"])).2 =
        [.autoNamed "Basket.item" "BasketItem"] := by
  have evaluated : (NameResolver.ofRules itemTable).toOption.map (fun start =>
      (spelledPath? itemTable "Order" <|> least?
          ((pathsNamed itemQueries).filter fun path => (start.resolve path).1.entity == "Order"),
        (pathsNamed (itemQueries ++ [.pathFor "Order"])).eraseDups.filter
          (isUnmatched start.rules))) =
      some (some "Order", ["Basket.item"]) := by
    decide +kernel
  obtain ⟨start, read, seen⟩ := Result.exists_ok_of_map evaluated
  obtain ⟨path, unmatched⟩ := Prod.mk.inj seen
  obtain ⟨_, _, paths, notices, _⟩ := replies_follow_history read (itemQueries ++ [.pathFor "Order"])
  have reply := paths itemQueries "Order" [] rfl
  rw [path] at reply
  rw [unmatched] at notices
  exact ⟨start, read, reply, notices⟩

end EntityGraph.Compile
