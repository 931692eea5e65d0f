import EntityGraph.Proofs.Calendar.Continuing
import EntityGraph.Proofs.Scalar.Ranges

/-!
# Bounds and default values

A text is read as a bound of a range by the kind of a scalar, and as a default value by the name of
a built-in type. Both read the same for numbers and for times. A bound of a day is read from the
first ten octets, and a default value from the whole text, to which a day is added for months: so
for days and for months, the two agree only where they have to.
-/
namespace EntityGraph.Scalar

/-! ## The first octets -/

theorem firstTen_go_prefix {room : Nat} {chars front : List Char}
    (cut : firstTen.go room chars = some front) : front <+: chars := by
  induction chars generalizing room front with
  | nil =>
    cases room with
    | zero =>
      rw [firstTen.go] at cut
      cases cut
      exact List.prefix_rfl
    | succ room =>
      rw [firstTen.go] at cut
      cases cut
  | cons c rest ih =>
    cases room with
    | zero =>
      rw [firstTen.go] at cut
      cases cut
      exact List.nil_prefix
    | succ room =>
      rw [firstTen.go, Option.ite_none_right_eq_some, Option.map_eq_some_iff] at cut
      obtain ⟨-, others, found, rfl⟩ := cut
      exact List.prefix_cons_inj c |>.mpr (ih found)

theorem firstTen_prefix (text : String) : (firstTen text).toList <+: text.toList := by
  unfold firstTen
  cases cut : firstTen.go 10 text.toList with
  | none => exact List.prefix_rfl
  | some front =>
    rw [Option.map_some, Option.getD_some, String.toList_ofList]
    exact firstTen_go_prefix cut

theorem firstTen_go_ascii {room : Nat} {chars : List Char}
    (ascii : (chars.all fun c => c.utf8Size == 1) = true) :
    firstTen.go room chars = if room ≤ chars.length then some (chars.take room) else none := by
  induction chars generalizing room with
  | nil => cases room <;> simp [firstTen.go]
  | cons c rest ih =>
    cases room with
    | zero => simp [firstTen.go]
    | succ room =>
      rw [List.all_cons, Bool.and_eq_true, beq_iff_eq] at ascii
      rw [firstTen.go, ascii.1, if_pos (by omega), Nat.add_sub_cancel, ih ascii.2]
      by_cases fits : room ≤ rest.length <;> simp [fits]

/-- A character of ASCII is one octet. -/
theorem firstTen_ascii {text : String}
    (ascii : (text.toList.all fun c => c.utf8Size == 1) = true) :
    firstTen text = String.ofList (text.toList.take 10) := by
  rw [firstTen, firstTen_go_ascii ascii]
  by_cases fits : 10 ≤ text.toList.length
  · simp [fits]
  · rw [if_neg fits, List.take_of_length_le (by omega), String.ofList_toList]
    rfl

/-! ## Bounds -/

/-- The literal of an inclusive bound. -/
def inclusiveLiteral? (kind : ScalarKind) (text : String) : Option Literal :=
  if kind.isInteger then (Decimal.parseInteger? text).map .integer
  else
    match kind with
    | .date => (Date.parse? .strict (firstTen text)).map .date
    | .dateTime => (DateTime.parse? .strict text).map .dateTime
    | .decimal => decimalLiteral? text
    | .float => (Decimal.parse? text).map .float
    | _ => some (.text text)

theorem inclusiveLiteral?_date (text : String) :
    inclusiveLiteral? .date text = (Date.parse? .strict (firstTen text)).map .date := rfl

theorem literal?_date (raw : String) :
    literal? "xs:date" raw = (Date.parse? .strict (Text.trim raw)).map .date := rfl

theorem literal?_gYearMonth (raw : String) :
    literal? "xs:gYearMonth" raw = (Date.parse? .strict (Text.trim raw ++ "-01")).map .date := rfl

theorem boundLiteral?_inclusive (kind : ScalarKind) (side : End) (text : String) :
    boundLiteral? kind side false text = (inclusiveLiteral? kind text).map (·, false) := by
  unfold boundLiteral? inclusiveLiteral?
  split
  · cases Decimal.parseInteger? text <;> rfl
  · split
    · cases Date.parse? .strict (firstTen text) <;> rfl
    · cases DateTime.parse? .strict text <;> rfl
    · rfl
    · cases Decimal.parse? text <;> rfl
    next date dateTime decimal float => simp

theorem bound_inclusive (kind : ScalarKind) (raw : String) (side : End) (label : String) :
    bound kind raw false side label =
      match inclusiveLiteral? kind (Text.trim raw) with
      | some literal => .ok (side.validator literal)
      | none => .error (.invalidDefault label raw kind.name) := by
  rw [bound, boundLiteral?_inclusive]
  cases inclusiveLiteral? kind (Text.trim raw) with
  | none => rfl
  | some literal => cases side <;> rfl

theorem validator_injective (side : End) : Function.Injective side.validator := by
  intro literal other same
  cases side <;> cases same <;> rfl

/-! ## Bounds and default values -/

/-- A text is read as an inclusive bound just where it is read as a default value, and as the same
literal. -/
def ReadsAlike (kind : ScalarKind) (primitive raw : String) (side : End) (label path : String) :
    Prop :=
  ∀ validator, bound kind raw false side label = .ok validator ↔
    ∃ literal, parseDefault primitive raw path = .ok literal ∧ validator = side.validator literal

theorem readsAlike_iff {kind : ScalarKind} {primitive raw label path : String} {side : End} :
    ReadsAlike kind primitive raw side label path ↔
      inclusiveLiteral? kind (Text.trim raw) = literal? primitive raw := by
  unfold ReadsAlike parseDefault
  rw [bound_inclusive]
  constructor
  · intro alike
    cases default : literal? primitive raw with
    | none =>
      cases inclusive : inclusiveLiteral? kind (Text.trim raw) with
      | none => rfl
      | some literal => simpa [default, inclusive] using alike (side.validator literal)
    | some literal =>
      have bounds := (alike (side.validator literal)).mpr ⟨literal, by simp [default], rfl⟩
      cases inclusive : inclusiveLiteral? kind (Text.trim raw) with
      | none => simp [inclusive] at bounds
      | some other =>
        rw [inclusive] at bounds
        rw [validator_injective side (Except.ok.inj bounds)]
  · intro same validator
    rw [same]
    cases literal? primitive raw with
    | none => simp
    | some literal => simp [eq_comm]

variable {kind : ScalarKind} {primitive : String}

/-- Numbers and times are read in one way. -/
theorem inclusiveLiteral?_eq (builtin : builtinKind? primitive = some kind)
    (ranged : (kind.isNumeric || kind.isTemporal) = true) (noMonth : primitive ≠ "xs:gYearMonth")
    {raw : String} (short : primitive = "xs:date" → firstTen (Text.trim raw) = Text.trim raw) :
    inclusiveLiteral? kind (Text.trim raw) = literal? primitive raw := by
  unfold builtinKind? at builtin
  split at builtin
  all_goals cases builtin
  case h_14 => rw [inclusiveLiteral?_date, literal?_date, short rfl]
  case h_15 => exact absurd rfl noMonth
  all_goals first | rfl | exact absurd ranged (by decide)

/-- A longer text names another day, if it names one. -/
theorem days_differ {text longer : String} {more : List Char}
    (continues : longer.toList = text.toList ++ more) (nonempty : more ≠ []) {literal : Literal}
    (read : (Date.parse? .strict text).map Literal.date = some literal) :
    (Date.parse? .strict longer).map Literal.date ≠ some literal := by
  intro again
  obtain ⟨day, found, rfl⟩ := Option.map_eq_some_iff.mp read
  obtain ⟨other, otherFound, same⟩ := Option.map_eq_some_iff.mp again
  obtain ⟨-, -, -, differ⟩ := Date.parse?_longer found otherFound continues nonempty
  exact differ (Literal.date.inj same)

/-- The first octets of a text, and a longer text. -/
theorem days_differ_of_firstTen {text longer : String} {more : List Char}
    (continues : longer.toList = text.toList ++ more) (differ : firstTen text = text → more ≠ [])
    (same : (Date.parse? .strict (firstTen text)).map Literal.date =
      (Date.parse? .strict longer).map Literal.date) :
    (Date.parse? .strict (firstTen text)).map Literal.date = none := by
  obtain ⟨rest, parts⟩ := firstTen_prefix text
  rw [Option.eq_none_iff_forall_ne_some]
  intro literal read
  have whole : longer.toList = (firstTen text).toList ++ (rest ++ more) := by
    rw [continues, ← List.append_assoc, parts]
  refine days_differ whole ?_ read (same ▸ read)
  intro empty
  obtain ⟨rfl, none⟩ := List.append_eq_nil_iff.mp empty
  rw [List.append_nil] at parts
  exact differ (String.toList_injective parts) none

/-- Whatever is a number or a time is read alike as a bound and as a default value, except for a
month, and for a day in a text that is cut off: those are read alike only if they are not read at
all. -/
theorem bounds_agree_with_defaults_iff (builtin : builtinKind? primitive = some kind)
    (ranged : (kind.isNumeric || kind.isTemporal) = true) (raw label path : String) (side : End) :
    ReadsAlike kind primitive raw side label path ↔
      (primitive = "xs:gYearMonth" ∨
          primitive = "xs:date" ∧ firstTen (Text.trim raw) ≠ Text.trim raw →
        bound kind raw false side label = .error (.invalidDefault label raw kind.name) ∧
          parseDefault primitive raw path = .error (.invalidDefault path raw primitive)) := by
  have failed : bound kind raw false side label = .error (.invalidDefault label raw kind.name) ↔
      inclusiveLiteral? kind (Text.trim raw) = none := by
    rw [bound_inclusive]
    cases inclusiveLiteral? kind (Text.trim raw) <;> simp
  have noDefault : parseDefault primitive raw path = .error (.invalidDefault path raw primitive) ↔
      literal? primitive raw = none := by
    unfold parseDefault
    cases literal? primitive raw <;> simp
  rw [readsAlike_iff, failed, noDefault]
  constructor
  · intro same special
    have noBound : inclusiveLiteral? kind (Text.trim raw) = none := by
      rcases special with rfl | ⟨rfl, longer⟩
      · cases builtin
        rw [inclusiveLiteral?_date] at same ⊢
        rw [literal?_gYearMonth] at same
        exact days_differ_of_firstTen String.toList_append (fun _ => by decide) same
      · cases builtin
        rw [inclusiveLiteral?_date] at same ⊢
        rw [literal?_date] at same
        exact days_differ_of_firstTen (List.append_nil _).symm (fun short => absurd short longer)
          same
    exact ⟨noBound, same ▸ noBound⟩
  · intro none
    by_cases special : primitive = "xs:gYearMonth" ∨
      primitive = "xs:date" ∧ firstTen (Text.trim raw) ≠ Text.trim raw
    · obtain ⟨noBound, noDefault⟩ := none special
      rw [noBound, noDefault]
    · obtain ⟨noMonth, short⟩ := not_or.mp special
      exact inclusiveLiteral?_eq builtin ranged noMonth fun date => by
        by_contra differ
        exact short ⟨date, differ⟩

theorem bounds_agree_with_defaults_iff_of_months :
    builtinKind? "xs:gYearMonth" = some .date ∧
      (ScalarKind.date.isNumeric || ScalarKind.date.isTemporal) = true ∧
      (ReadsAlike .date "xs:gYearMonth" "May" .lower "Month" "order.month" ↔
        ("xs:gYearMonth" = "xs:gYearMonth" ∨
            "xs:gYearMonth" = "xs:date" ∧ firstTen (Text.trim "May") ≠ Text.trim "May" →
          bound .date "May" false .lower "Month" = .error (.invalidDefault "Month" "May" "date") ∧
            parseDefault "xs:gYearMonth" "May" "order.month" =
              .error (.invalidDefault "order.month" "May" "xs:gYearMonth"))) :=
  ⟨rfl, rfl, bounds_agree_with_defaults_iff rfl rfl "May" "Month" "order.month" .lower⟩

/-- A month is a default value and no bound. A day with blanks in it is both, but not one day. -/
theorem bounds_differ_from_defaults :
    parseDefault "xs:gYearMonth" "2020-05" "a" = .ok (.date ⟨2020, 5, 1, by decide⟩) ∧
      bound .date "2020-05" false .lower "Month" =
        .error (.invalidDefault "Month" "2020-05" "date") ∧
      parseDefault "xs:date" "2020-1-  12" "a" = .ok (.date ⟨2020, 1, 12, by decide⟩) ∧
      bound .date "2020-1-  12" false .lower "Day" =
        .ok (.minValue (.date ⟨2020, 1, 1, by decide⟩) false) := by
  refine ⟨rfl, ?_, rfl, ?_⟩
  · rw [bound_inclusive, inclusiveLiteral?_date, firstTen_ascii rfl]
    rfl
  · rw [bound_inclusive, inclusiveLiteral?_date, firstTen_ascii rfl]
    rfl

end EntityGraph.Scalar
