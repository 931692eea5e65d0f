import EntityGraph.Proofs.Json.Text

/-!
# Reading a text back

A value is read back from its text, in either layout and whatever follows, if its numbers are. Some
doubles are not: the reader scales a decimal number by one power of ten and may miss the double
that was written. So the reader is taken apart into the reading of the structure, which depends on
how numbers are read, and the reading of numbers. With the actual reader of numbers this tells
which texts are read back; with an exact one, it tells that the text of a finite value determines
the value.
-/
namespace EntityGraph.Json

open Decimal (isNumeral)

/-! ## Strings -/

theorem hexValue?_hexDigit : ∀ n < 16, hexValue? (hexDigit n) = some n := by decide

/-- The characters of a string with their escapes. -/
def escaped (letters : List Char) : List Char := letters.flatMap fun c => (escapeChar c).toList

theorem toList_quote (text : String) :
    (quote text).toList = '"' :: (escaped text.toList ++ ['"']) := by
  have folded (letters : List Char) (start : String) :
      (letters.foldl (fun out c => out ++ escapeChar c) start).toList =
        start.toList ++ escaped letters := by
    induction letters generalizing start with
    | nil => simp [escaped]
    | cons c letters ih =>
      rw [List.foldl_cons, ih, String.toList_append, List.append_assoc]
      rfl
  rw [quote, String.toList_append, folded]
  rfl

theorem readChars_escapeChar (done : String) (c : Char) (rest : List Char) :
    readChars done ((escapeChar c).toList ++ rest) = readChars (done.push c) rest := by
  unfold escapeChar
  split
  · rfl
  · rfl
  · rfl
  · rfl
  · rfl
  -- Of the other characters, two have letters of their own, the rest of the control characters are
  -- written by their numbers, and everything else stands for itself.
  next quoteFree slashFree _ _ _ =>
    have itself : Char.ofNat c.toNat = c := c.ofNat_toNat
    split
    next backspace =>
      rw [backspace] at itself
      rw [← itself]
      rfl
    · split
      next feed =>
        rw [feed] at itself
        rw [← itself]
        rfl
      · split
        next control =>
          have text :
              (("\\u00".push (hexDigit (c.toNat / 16))).push (hexDigit (c.toNat % 16))).toList =
                ['\\', 'u', '0', '0', hexDigit (c.toNat / 16), hexDigit (c.toNat % 16)] := by simp
          have unit : hexUnit? '0' '0' (hexDigit (c.toNat / 16)) (hexDigit (c.toNat % 16)) =
              some c.toNat := by
            have zero : hexValue? '0' = some 0 := rfl
            simp only [hexUnit?, zero, hexValue?_hexDigit _ (by omega : c.toNat / 16 < 16),
              hexValue?_hexDigit _ (by omega : c.toNat % 16 < 16), Option.bind_eq_bind,
              Option.bind_some]
            exact congrArg some (by omega)
          rw [text, List.cons_append, List.cons_append, List.cons_append, List.cons_append,
            List.cons_append, List.cons_append, List.nil_append, readChars, unit]
          simp only
          rw [if_neg (by omega), if_neg (by omega), itself]
        next printable =>
          rw [String.toList_singleton, List.singleton_append, readChars.eq_def]
          split <;> simp_all

/-- A quoted text is read up to its closing quote. -/
theorem readChars_escaped (letters : List Char) (done : String) (rest : List Char) :
    readChars done (escaped letters ++ '"' :: rest) =
      some (done ++ String.ofList letters, rest) := by
  induction letters generalizing done with
  | nil => simp [escaped, readChars]
  | cons c letters ih =>
    have step : escaped (c :: letters) = (escapeChar c).toList ++ escaped letters := rfl
    have joined : done.push c ++ String.ofList letters = done ++ String.ofList (c :: letters) :=
      String.toList_inj.mp (by simp)
    rw [step, List.append_assoc, readChars_escapeChar, ih, joined]

/-! ## Blanks -/

theorem skipBlanks_append {blanks : List Char} (blank : ∀ c ∈ blanks, isBlank c = true)
    (rest : List Char) : skipBlanks (blanks ++ rest) = skipBlanks rest :=
  List.dropWhile_append_of_pos blank

theorem skipBlanks_cons {c : Char} (mark : isBlank c = false) (rest : List Char) :
    skipBlanks (c :: rest) = c :: rest :=
  List.dropWhile_cons_of_neg (by simp [mark])

/-- Behind blanks and a mark, a number has ended. -/
theorem stops_append {blanks : List Char} (blank : ∀ c ∈ blanks, isBlank c = true) {c : Char}
    (mark : isNumeral c = false ∧ c ≠ 'E') (rest : List Char) : Stops (blanks ++ c :: rest) := by
  intro d head
  cases blanks with
  | nil =>
    cases head
    exact mark
  | cons first others =>
    obtain rfl : first = d := Option.some.inj head
    have isBlank := blank first List.mem_cons_self
    simp only [Json.isBlank, Bool.or_eq_true, decide_eq_true_eq] at isBlank
    rcases isBlank with ((same | same) | same) | same <;> rw [same] <;> decide

theorem stops_cons {c : Char} (mark : isNumeral c = false ∧ c ≠ 'E') (rest : List Char) :
    Stops (c :: rest) :=
  stops_append (List.forall_mem_nil _) mark rest

/-! ## Reading -/

/-- Reads one value, with a given reader for its numbers. -/
def readWith (number : List Char → Option (Json × List Char)) :
    Nat → List Char → Option (Json × List Char)
  | depth, text =>
    match skipBlanks text with
    | 'n' :: 'u' :: 'l' :: 'l' :: rest => some (.null, rest)
    | 't' :: 'r' :: 'u' :: 'e' :: rest => some (.bool true, rest)
    | 'f' :: 'a' :: 'l' :: 's' :: 'e' :: rest => some (.bool false, rest)
    | '"' :: rest => (readChars "" rest).map fun (text, rest) => (.str text, rest)
    | '[' :: rest =>
      match depth with
      | 0 => none
      | depth + 1 =>
        match skipBlanks rest with
        | ']' :: rest => some (.arr [], rest)
        | rest =>
          (readItems (readWith number depth) (rest.length + 1) rest).map
            fun (items, rest) => (.arr items, rest)
    | '\x7b' :: rest =>
      match depth with
      | 0 => none
      | depth + 1 =>
        match skipBlanks rest with
        | '\x7d' :: rest => some (.obj [], rest)
        | rest =>
          (readMembers (fun _ => readWith number depth) (rest.length + 1) rest).map
            fun (members, rest) => (.obj members, rest)
    | text => number text

theorem readWith_readNumber (depth : Nat) (text : List Char) :
    readWith readNumber depth text = readValue depth text := by
  induction depth generalizing text with
  | zero =>
    unfold readWith readValue
    rfl
  | succ depth ih =>
    have inner : readWith readNumber depth = readValue depth := funext ih
    rw [readWith]
    simp only [inner]
    unfold readValue
    rfl

/-- A reader of numbers reads a number from its text, whatever follows. -/
def Reads (number : List Char → Option (Json × List Char)) (text : String) (value : Json) : Prop :=
  ∀ rest, Stops rest → number (text.toList ++ rest) = some (value, rest)

mutual

/-- Whether a value is read back from its text, at most `depth` levels deep. -/
def Readable (number : List Char → Option (Json × List Char)) : Nat → Json → Prop
  | _, .int value => Reads number (toString value) (.int value)
  | _, .float value => value.isFinite = true ∧ Reads number (floatText value) (.float value)
  | 0, .arr _ => False
  | depth + 1, .arr items => ItemsReadable number depth items
  | 0, .obj _ => False
  | depth + 1, .obj members => MembersReadable number depth members
  | _, .null | _, .bool _ | _, .str _ => True

def ItemsReadable (number : List Char → Option (Json × List Char)) : Nat → List Json → Prop
  | _, [] => True
  | depth, item :: rest => Readable number depth item ∧ ItemsReadable number depth rest

def MembersReadable (number : List Char → Option (Json × List Char)) :
    Nat → List (String × Json) → Prop
  | _, [] => True
  | depth, (_, value) :: rest => Readable number depth value ∧ MembersReadable number depth rest

end

section Readable

variable {number : List Char → Option (Json × List Char)} {depth : Nat}

theorem readable_arr {items : List Json} :
    Readable number (depth + 1) (.arr items) ↔ ∀ item ∈ items, Readable number depth item := by
  rw [Readable]
  induction items with
  | nil => simp [ItemsReadable]
  | cons item rest ih => simp [ItemsReadable, ih]

theorem readable_obj {members : List (String × Json)} :
    Readable number (depth + 1) (.obj members) ↔
      ∀ member ∈ members, Readable number depth member.2 := by
  rw [Readable]
  induction members with
  | nil => simp [MembersReadable]
  | cons member rest ih => simp [MembersReadable, ih]

end Readable

theorem isBlank_numeral {c : Char} (numeral : isNumeral c = true) : isBlank c = false := by
  by_contra blank
  simp only [isBlank, Bool.not_eq_false, Bool.or_eq_true, decide_eq_true_eq] at blank
  rcases blank with ((rfl | rfl) | rfl) | rfl <;> cases numeral

/-- Nothing reads numbers but the reader of numbers. -/
theorem readWith_numeral (number : List Char → Option (Json × List Char)) (depth : Nat) {c : Char}
    (numeral : isNumeral c = true) (rest : List Char) :
    readWith number depth (c :: rest) = number (c :: rest) := by
  rw [readWith, skipBlanks_cons (isBlank_numeral numeral)]
  -- What the other branches begin with is not in a number, so only the last one is left.
  split
  all_goals first | rfl | skip
  all_goals
    next same =>
      cases same
      cases numeral

/-! ## Reading what is written -/

section Written

variable (layout : Layout) {number : List Char → Option (Json × List Char)} {depth : Nat}

theorem readWith_append {blanks : List Char} (blank : ∀ c ∈ blanks, isBlank c = true)
    (text : List Char) :
    readWith number depth (blanks ++ text) = readWith number depth text := by
  rw [readWith, readWith, skipBlanks_append blank]

/-- Whether a text starts with a character that is no blank and not the given mark. -/
def Opens (text : List Char) (mark : Char) : Prop :=
  ∃ c rest, text = c :: rest ∧ isBlank c = false ∧ c ≠ mark

theorem Opens.append {text : List Char} {mark : Char} (opens : Opens text mark)
    (rest : List Char) : Opens (text ++ rest) mark := by
  obtain ⟨c, others, rfl, notBlank, other⟩ := opens
  exact ⟨c, others ++ rest, rfl, notBlank, other⟩

theorem readWith_items {blanks : List Char} (blank : ∀ c ∈ blanks, isBlank c = true)
    {text : List Char} (opens : Opens text ']') :
    readWith number (depth + 1) ('[' :: (blanks ++ text)) =
      (readItems (readWith number depth) (text.length + 1) text).map
        fun (items, rest) => (.arr items, rest) := by
  obtain ⟨c, others, rfl, notBlank, notClosed⟩ := opens
  rw [readWith, skipBlanks_cons rfl]
  simp only
  rw [skipBlanks_append blank, skipBlanks_cons notBlank]
  split
  next same => exact absurd (List.cons.inj same).1 notClosed
  · rfl

theorem readWith_members {blanks : List Char} (blank : ∀ c ∈ blanks, isBlank c = true)
    {text : List Char} (opens : Opens text '\x7d') :
    readWith number (depth + 1) ('\x7b' :: (blanks ++ text)) =
      (readMembers (fun _ => readWith number depth) (text.length + 1) text).map
        fun (members, rest) => (.obj members, rest) := by
  obtain ⟨c, others, rfl, notBlank, notClosed⟩ := opens
  rw [readWith, skipBlanks_cons rfl]
  simp only
  rw [skipBlanks_append blank, skipBlanks_cons notBlank]
  split
  next same => exact absurd (List.cons.inj same).1 notClosed
  · rfl

theorem write_opens {value : Json} (readable : Readable number depth value) (level : Nat) :
    Opens (layout.write level value) ']' := by
  have numeral {text : List Char} (nonempty : text ≠ [])
      (letters : ∀ c ∈ text, isNumeral c = true) : Opens text ']' := by
    obtain ⟨c, rest, rfl⟩ := List.exists_cons_of_ne_nil nonempty
    have inNumber := letters c List.mem_cons_self
    refine ⟨c, rest, rfl, isBlank_numeral inNumber, ?_⟩
    rintro rfl
    cases inNumber
  cases value with
  | null => exact ⟨'n', _, by rw [Layout.write]; rfl, rfl, by decide⟩
  | bool value =>
    cases value
    · exact ⟨'f', _, by rw [Layout.write]; rfl, rfl, by decide⟩
    · exact ⟨'t', _, by rw [Layout.write]; rfl, rfl, by decide⟩
  | int value =>
    rw [Layout.write]
    exact numeral (Decimal.toString_int_ne_nil value) (Decimal.isNumeral_int value)
  | float value =>
    rw [Readable] at readable
    rw [Layout.write]
    exact numeral (floatText_ne_nil readable.1) (isNumeral_floatText readable.1)
  | str value =>
    rw [Layout.write, toList_quote]
    exact ⟨'"', _, rfl, rfl, by decide⟩
  | arr items =>
    cases items <;> rw [Layout.write] <;> exact ⟨'[', _, rfl, rfl, by decide⟩
  | obj members =>
    cases members <;> rw [Layout.write] <;> exact ⟨'\x7b', _, rfl, rfl, by decide⟩

theorem writeItems_opens {item : Json} (readable : Readable number depth item) (level : Nat)
    (items : List Json) : Opens (layout.writeItems level (item :: items)) ']' := by
  have first := write_opens layout readable level
  cases items with
  | nil =>
    rw [Layout.writeItems]
    exact first
  | cons next items =>
    rw [Layout.writeItems]
    · exact first.append _
    · simp

theorem writeMembers_opens (level : Nat) (member : String × Json)
    (members : List (String × Json)) :
    Opens (layout.writeMembers level (member :: members)) '\x7d' := by
  cases members with
  | nil =>
    rw [Layout.writeMembers, toList_quote]
    exact ⟨'"', _, rfl, rfl, by decide⟩
  | cons next members =>
    rw [Layout.writeMembers, toList_quote]
    · exact ⟨'"', _, rfl, rfl, by decide⟩
    · simp

theorem length_le_writeItems (level : Nat) (items : List Json) :
    items.length ≤ (layout.writeItems level items).length + 1 := by
  induction items with
  | nil => simp
  | cons item rest ih =>
    cases rest with
    | nil => simp
    | cons next rest =>
      rw [Layout.writeItems]
      · simp only [List.length_cons, List.length_append] at ih ⊢
        omega
      · simp

theorem length_le_writeMembers (level : Nat) (members : List (String × Json)) :
    members.length ≤ (layout.writeMembers level members).length + 1 := by
  induction members with
  | nil => simp
  | cons member rest ih =>
    cases rest with
    | nil => simp
    | cons next rest =>
      rw [Layout.writeMembers]
      · simp only [List.length_cons, List.length_append] at ih ⊢
        omega
      · simp

/-- The loop over the items of a list, each of which is read back. -/
theorem readItems_writeItems (level : Nat) {items : List Json} (nonempty : items ≠ [])
    (each : ∀ item ∈ items, ∀ rest, Stops rest →
      readWith number depth (layout.write level item ++ rest) = some (item, rest))
    {front back : List Char} (frontBlank : ∀ c ∈ front, isBlank c = true)
    (backBlank : ∀ c ∈ back, isBlank c = true) (rest : List Char) {fuel : Nat}
    (enough : items.length ≤ fuel) :
    readItems (readWith number depth) fuel
      (front ++ (layout.writeItems level items ++ (back ++ ']' :: rest))) = some (items, rest) := by
  induction items generalizing front fuel with
  | nil => exact absurd rfl nonempty
  | cons item items ih =>
    cases fuel with
    | zero => simp at enough
    | succ fuel =>
      rw [readItems, readWith_append frontBlank]
      cases items with
      | nil =>
        rw [Layout.writeItems,
          each item List.mem_cons_self _ (stops_append backBlank (by decide) rest)]
        simp only
        rw [skipBlanks_append backBlank, skipBlanks_cons rfl]
        rfl
      | cons next items =>
        rw [Layout.writeItems, List.append_assoc, List.cons_append, List.append_assoc,
          each item List.mem_cons_self _ (stops_cons (by decide) _)]
        · simp only
          rw [skipBlanks_cons rfl]
          simp only
          rw [ih (by simp) (fun item member => each item (List.mem_cons_of_mem _ member))
            (layout.lineBreak_blank level) (by simpa using enough)]
          rfl
        · simp

/-- A member is read by its key, the colon, and the reader of its value. -/
theorem readMembers_key (key : String) {front : List Char}
    (frontBlank : ∀ c ∈ front, isBlank c = true) (fuel : Nat) (text : List Char) :
    readMembers (fun _ => readWith number depth) (fuel + 1)
        (front ++ ((quote key).toList ++ ':' :: (layout.space ++ text))) =
      match readWith number depth text with
      | none => none
      | some (item, rest) =>
        match skipBlanks rest with
        | '\x7d' :: rest => some ([(key, item)], rest)
        | ',' :: rest =>
          (readMembers (fun _ => readWith number depth) fuel rest).map
            fun (members, rest) => ((key, item) :: members, rest)
        | _ => none := by
  rw [readMembers, skipBlanks_append frontBlank, toList_quote, List.cons_append,
    skipBlanks_cons rfl, List.append_assoc, List.singleton_append]
  simp only
  rw [readChars_escaped]
  simp only [String.empty_append, String.ofList_toList]
  rw [skipBlanks_cons rfl]
  simp only
  exact readWith_append layout.space_blank text ▸ rfl

/-- The loop over the members of an object, each of which is read back. -/
theorem readMembers_writeMembers (level : Nat) {members : List (String × Json)}
    (nonempty : members ≠ [])
    (each : ∀ member ∈ members, ∀ rest, Stops rest →
      readWith number depth (layout.write level member.2 ++ rest) = some (member.2, rest))
    {front back : List Char} (frontBlank : ∀ c ∈ front, isBlank c = true)
    (backBlank : ∀ c ∈ back, isBlank c = true) (rest : List Char) {fuel : Nat}
    (enough : members.length ≤ fuel) :
    readMembers (fun _ => readWith number depth) fuel
      (front ++ (layout.writeMembers level members ++ (back ++ '\x7d' :: rest))) =
        some (members, rest) := by
  induction members generalizing front fuel with
  | nil => exact absurd rfl nonempty
  | cons member members ih =>
    obtain ⟨key, value⟩ := member
    have first := each (key, value) List.mem_cons_self
    cases fuel with
    | zero => simp at enough
    | succ fuel =>
      cases members with
      | nil =>
        rw [Layout.writeMembers, List.append_assoc, List.cons_append, List.append_assoc,
          readMembers_key layout key frontBlank, first _ (stops_append backBlank (by decide) rest)]
        simp only
        rw [skipBlanks_append backBlank, skipBlanks_cons rfl]
        rfl
      | cons next members =>
        rw [Layout.writeMembers, List.append_assoc, List.cons_append, List.append_assoc,
          List.append_assoc, List.cons_append, List.append_assoc,
          readMembers_key layout key frontBlank, first _ (stops_cons (by decide) _)]
        · simp only
          rw [skipBlanks_cons rfl]
          simp only
          rw [ih (by simp) (fun member among => each member (List.mem_cons_of_mem _ among))
            (layout.lineBreak_blank level) (by simpa using enough)]
          rfl
        · simp

/-- A numeral is read as a value, as its first character tells that a number follows. -/
theorem readWith_reads {text : String} {value : Json} (nonempty : text.toList ≠ [])
    (letters : ∀ c ∈ text.toList, isNumeral c = true) (reads : Reads number text value)
    {rest : List Char} (stops : Stops rest) :
    readWith number depth (text.toList ++ rest) = some (value, rest) := by
  obtain ⟨c, others, split⟩ := List.exists_cons_of_ne_nil nonempty
  have read := reads rest stops
  rw [split, List.cons_append] at read ⊢
  rw [readWith_numeral number depth (letters c (split ▸ List.mem_cons_self)), read]

/-- A list is read back if its items are. -/
theorem readWith_write_arr (level : Nat) {items : List Json}
    (readable : ∀ item ∈ items, Readable number depth item)
    (each : ∀ item ∈ items, ∀ rest, Stops rest →
      readWith number depth (layout.write (level + 1) item ++ rest) = some (item, rest))
    (rest : List Char) :
    readWith number (depth + 1) (layout.write level (.arr items) ++ rest) =
      some (.arr items, rest) := by
  cases items with
  | nil =>
    rw [Layout.write, readWith]
    rfl
  | cons item items =>
    -- The reader takes the length of what is left as its bound, and no item has an empty text.
    have enough : (item :: items).length ≤ (layout.writeItems (level + 1) (item :: items) ++
        (layout.lineBreak level ++ ']' :: rest)).length + 1 := by
      have bound := length_le_writeItems layout (level + 1) (item :: items)
      rw [List.length_append]
      omega
    have read := readItems_writeItems layout (level + 1) (List.cons_ne_nil item items) each
      (List.forall_mem_nil _) (layout.lineBreak_blank level) rest enough
    have opens := writeItems_opens layout (readable item List.mem_cons_self) (level + 1) items
    simp only [Layout.write, List.cons_append, List.append_assoc, List.nil_append] at read ⊢
    rw [readWith_items (layout.lineBreak_blank (level + 1)) (opens.append _), read]
    rfl

/-- An object is read back if the values of its members are. -/
theorem readWith_write_obj (level : Nat) {members : List (String × Json)}
    (each : ∀ member ∈ members, ∀ rest, Stops rest →
      readWith number depth (layout.write (level + 1) member.2 ++ rest) = some (member.2, rest))
    (rest : List Char) :
    readWith number (depth + 1) (layout.write level (.obj members) ++ rest) =
      some (.obj members, rest) := by
  cases members with
  | nil =>
    rw [Layout.write, readWith]
    rfl
  | cons member members =>
    have enough : (member :: members).length ≤
        (layout.writeMembers (level + 1) (member :: members) ++
          (layout.lineBreak level ++ '\x7d' :: rest)).length + 1 := by
      have bound := length_le_writeMembers layout (level + 1) (member :: members)
      rw [List.length_append]
      omega
    have read := readMembers_writeMembers layout (level + 1) (List.cons_ne_nil member members) each
      (List.forall_mem_nil _) (layout.lineBreak_blank level) rest enough
    have opens := writeMembers_opens layout (level + 1) member members
    simp only [Layout.write, List.cons_append, List.append_assoc, List.nil_append] at read ⊢
    rw [readWith_members (layout.lineBreak_blank (level + 1)) (opens.append _), read]
    rfl

/-- A value is read back from its text in any layout, whatever follows. -/
theorem readWith_write (value : Json) : ∀ {depth : Nat} (level : Nat) {rest : List Char},
    Readable number depth value → Stops rest →
      readWith number depth (layout.write level value ++ rest) = some (value, rest) := by
  induction value using induction with
  | null =>
    intro depth level rest _ _
    rw [Layout.write, readWith]
    rfl
  | bool value =>
    intro depth level rest _ _
    rw [Layout.write, readWith]
    cases value <;> rfl
  | int value =>
    intro depth level rest readable stops
    rw [Readable] at readable
    rw [Layout.write]
    exact readWith_reads (Decimal.toString_int_ne_nil value) (Decimal.isNumeral_int value) readable
      stops
  | float value =>
    intro depth level rest readable stops
    rw [Readable] at readable
    rw [Layout.write]
    exact readWith_reads (floatText_ne_nil readable.1) (isNumeral_floatText readable.1) readable.2
      stops
  | str value =>
    intro depth level rest _ _
    rw [Layout.write, toList_quote, List.cons_append, List.append_assoc, List.singleton_append,
      readWith, skipBlanks_cons rfl]
    simp only
    rw [readChars_escaped]
    simp
  | arr items ih =>
    intro depth level rest readable _
    cases depth with
    | zero => exact readable.elim
    | succ depth =>
      have inside := readable_arr.mp readable
      exact readWith_write_arr layout level inside
        (fun item member rest => ih item member (level + 1) (inside item member)) rest
  | obj members ih =>
    intro depth level rest readable _
    cases depth with
    | zero => exact readable.elim
    | succ depth =>
      have inside := readable_obj.mp readable
      exact readWith_write_obj layout level
        (fun member among rest => ih member among (level + 1) (inside member among)) rest

end Written

/-! ## Numbers -/

theorem Stops.isDigit {rest : List Char} (stops : Stops rest) :
    ∀ c ∈ rest.head?, c.isDigit = false := by
  intro c head
  have stop := (stops c head).1
  simp only [isNumeral, Bool.or_eq_false_iff] at stop
  exact stop.1.1.1.1

theorem Stops.ne {rest : List Char} (stops : Stops rest) {c : Char}
    (numeral : isNumeral c = true ∨ c = 'E') (others : List Char) : rest ≠ c :: others := by
  rintro rfl
  have stop := stops c rfl
  rcases numeral with numeral | rfl
  · rw [numeral] at stop
    cases stop.1
  · exact stop.2 rfl

theorem takeWhile_append {keep : Char → Bool} {rest : List Char}
    (stops : ∀ c ∈ rest.head?, keep c = false) (text : List Char) :
    (text ++ rest).takeWhile keep = text.takeWhile keep := by
  induction text with
  | nil => cases rest with
    | nil => rfl
    | cons c rest => simp [stops c rfl]
  | cons c text ih => rw [List.cons_append, List.takeWhile_cons, List.takeWhile_cons, ih]

theorem dropWhile_append {keep : Char → Bool} {rest : List Char}
    (stops : ∀ c ∈ rest.head?, keep c = false) (text : List Char) :
    (text ++ rest).dropWhile keep = text.dropWhile keep ++ rest := by
  induction text with
  | nil => cases rest with
    | nil => rfl
    | cons c rest => simp [stops c rfl]
  | cons c text ih =>
    rw [List.cons_append, List.dropWhile_cons, List.dropWhile_cons, ih]
    split <;> rfl

theorem readFraction_append {rest : List Char} (stops : Stops rest) (text : List Char) :
    readFraction (text ++ rest) =
      (readFraction text).map fun (fraction, behind) => (fraction, behind ++ rest) := by
  have pointless {text : List Char} (noPoint : ∀ others, text ≠ '.' :: others) :
      readFraction text = some (none, text) := by
    unfold readFraction
    split
    next others => exact absurd rfl (noPoint others)
    · rfl
  cases text with
  | nil => exact pointless (stops.ne (.inl rfl))
  | cons c text =>
    by_cases point : c = '.'
    · rw [point, List.cons_append, readFraction, readFraction, takeWhile_append stops.isDigit,
        dropWhile_append stops.isDigit]
      simp only
      split <;> rfl
    · rw [List.cons_append, pointless (by simp [point]), pointless (by simp [point])]
      rfl

/-- Reads an exponent behind its mark and its sign. -/
def readPower (negative : Bool) (text : List Char) : Option (Option Int × List Char) :=
  let digits := text.takeWhile Char.isDigit
  if digits.isEmpty then none
  else
    let value : Int := Decimal.digitsValue digits
    some (some (if negative then -value else value), text.dropWhile Char.isDigit)

theorem readPower_append {rest : List Char} (stops : Stops rest) (negative : Bool)
    (text : List Char) : readPower negative (text ++ rest) =
      (readPower negative text).map fun (exponent, behind) => (exponent, behind ++ rest) := by
  unfold readPower
  rw [takeWhile_append stops.isDigit, dropWhile_append stops.isDigit]
  simp only
  split <;> rfl

theorem readExponent_append {rest : List Char} (stops : Stops rest) (text : List Char) :
    readExponent (text ++ rest) =
      (readExponent text).map fun (exponent, behind) => (exponent, behind ++ rest) := by
  have plain {text : List Char} (small : ∀ others, text ≠ 'e' :: others)
      (capital : ∀ others, text ≠ 'E' :: others) : readExponent text = some (none, text) := by
    unfold readExponent
    split
    next others => exact absurd rfl (small others)
    next others => exact absurd rfl (capital others)
    · rfl
  have unsigned {c : Char} (mark : c = 'e' ∨ c = 'E') {text : List Char}
      (noMinus : ∀ others, text ≠ '-' :: others) (noPlus : ∀ others, text ≠ '+' :: others) :
      readExponent (c :: text) = readPower false text := by
    rcases mark with rfl | rfl <;> unfold readExponent readPower <;> simp only
  -- A text may end behind the mark or its sign; what follows then must not be taken for the rest.
  cases text with
  | nil => exact plain (stops.ne (.inl rfl)) (stops.ne (.inr rfl))
  | cons c text =>
    by_cases mark : c = 'e' ∨ c = 'E'
    · have minus (text : List Char) : readExponent (c :: '-' :: text) = readPower true text := by
        rcases mark with rfl | rfl <;> rfl
      have plus (text : List Char) : readExponent (c :: '+' :: text) = readPower false text := by
        rcases mark with rfl | rfl <;> rfl
      cases text with
      | nil =>
        rw [List.cons_append, List.nil_append,
          unsigned mark (stops.ne (.inl rfl)) (stops.ne (.inl rfl)),
          unsigned mark (by simp) (by simp)]
        exact readPower_append stops false []
      | cons d text =>
        by_cases signed : d = '-' ∨ d = '+'
        · rcases signed with rfl | rfl
          · rw [List.cons_append, List.cons_append, minus, minus, readPower_append stops]
          · rw [List.cons_append, List.cons_append, plus, plus, readPower_append stops]
        · rw [not_or] at signed
          rw [List.cons_append, List.cons_append,
            unsigned mark (by simp [signed.1]) (by simp [signed.2]),
            unsigned mark (by simp [signed.1]) (by simp [signed.2]), ← List.cons_append,
            readPower_append stops]
    · rw [not_or] at mark
      rw [List.cons_append, plain (by simp [mark.1]) (by simp [mark.2]),
        plain (by simp [mark.1]) (by simp [mark.2])]
      rfl

/-- Reads a number behind its sign. -/
def readMagnitude (negative : Bool) (text : List Char) : Option (Json × List Char) :=
  let whole := text.takeWhile Char.isDigit
  if whole.isEmpty || (whole.head? == some '0' && whole.length > 1) then none
  else
    match readFraction (text.dropWhile Char.isDigit) with
    | none => none
    | some (fraction, rest) =>
      match readExponent rest with
      | none => none
      | some (exponent, rest) =>
        let value := Decimal.digitsValue whole
        if fraction.isNone && exponent.isNone && !negative && value ≤ Decimal.maxWord then
          some (.int value, rest)
        else if fraction.isNone && exponent.isNone && negative && value ≠ 0
            && value ≤ Decimal.maxSigned + 1 then
          some (.int (-(value : Int)), rest)
        else
          (readDouble negative whole (fraction.getD []) (exponent.getD 0)).map
            fun value => (.float value, rest)

theorem readNumber_minus (text : List Char) :
    readNumber ('-' :: text) = readMagnitude true text := rfl

theorem readNumber_unsigned {text : List Char} (noMinus : ∀ others, text ≠ '-' :: others) :
    readNumber text = readMagnitude false text := by
  unfold readNumber
  split
  next unsigned =>
    split at unsigned
    next others => exact absurd rfl (noMinus others)
    · cases unsigned
      rfl

theorem readMagnitude_append {rest : List Char} (stops : Stops rest) (negative : Bool)
    (text : List Char) : readMagnitude negative (text ++ rest) =
      (readMagnitude negative text).map fun (value, behind) => (value, behind ++ rest) := by
  unfold readMagnitude
  rw [takeWhile_append stops.isDigit, dropWhile_append stops.isDigit, readFraction_append stops]
  simp only
  split
  · rfl
  · cases readFraction (text.dropWhile Char.isDigit) with
    | none => rfl
    | some fraction =>
      obtain ⟨fraction, behind⟩ := fraction
      simp only [Option.map_some]
      rw [readExponent_append stops]
      cases readExponent behind with
      | none => rfl
      | some exponent =>
        obtain ⟨exponent, behind⟩ := exponent
        simp only [Option.map_some]
        split
        · rfl
        · split
          · rfl
          · rw [Option.map_map]
            rfl

/-- A number is read from its text whatever follows, if it is read from its text alone. -/
theorem readNumber_append {rest : List Char} (stops : Stops rest) (text : List Char) :
    readNumber (text ++ rest) =
      (readNumber text).map fun (value, behind) => (value, behind ++ rest) := by
  cases text with
  | nil =>
    rw [List.nil_append, readNumber_unsigned (stops.ne (.inl rfl)), readNumber_unsigned (by simp)]
    exact readMagnitude_append stops false []
  | cons c text =>
    by_cases minus : c = '-'
    · rw [minus, List.cons_append, readNumber_minus, readNumber_minus,
        readMagnitude_append stops]
    · rw [List.cons_append, readNumber_unsigned (by simp [minus]),
        readNumber_unsigned (by simp [minus]), ← List.cons_append, readMagnitude_append stops]

theorem reads_iff {text : String} {value : Json} :
    Reads readNumber text value ↔ readNumber text.toList = some (value, []) := by
  constructor
  · intro reads
    simpa using reads [] (by simp [Stops])
  · intro read rest stops
    rw [readNumber_append stops, read]
    rfl

/-- The digits of a number are read as one run. -/
theorem readMagnitude_toString (negative : Bool) (n : Nat) :
    readMagnitude negative (toString n).toList =
      if !negative && n ≤ Decimal.maxWord then some (.int n, [])
      else if negative && n ≠ 0 && n ≤ Decimal.maxSigned + 1 then some (.int (-(n : Int)), [])
      else
        (readDouble negative (toString n).toList [] 0).map fun value => (.float value, []) := by
  have digits : (toString n).toList.takeWhile Char.isDigit = (toString n).toList :=
    List.takeWhile_eq_self_iff.mpr (Decimal.allDigits_toString n)
  have nothing : (toString n).toList.dropWhile Char.isDigit = [] :=
    List.dropWhile_eq_nil_iff.mpr (Decimal.allDigits_toString n)
  -- A leading zero is refused, but only zero itself starts with one.
  have whole : ((toString n).toList.isEmpty || ((toString n).toList.head? == some '0' &&
      (toString n).toList.length > 1)) = false := by
    rw [List.isEmpty_eq_false_iff.mpr (Decimal.toString_ne_nil n), Bool.false_or]
    rcases Nat.eq_zero_or_pos n with rfl | positive
    · rfl
    · simp only [Decimal.head?_toString positive, beq_eq_false_iff_ne.mpr, ne_eq,
        not_false_eq_true, Bool.false_and]
  have value : Decimal.digitsValue (toString n).toList = n := by
    rw [Decimal.digitsValue_eq, Decimal.digitsOf_toString]
  unfold readMagnitude
  simp only [digits, nothing, whole, value, readFraction, readExponent]
  rfl

theorem readNumber_int {n : Int} (least : Decimal.minSigned ≤ n) (most : n ≤ Decimal.maxWord) :
    readNumber (toString n).toList = some (.int n, []) := by
  cases n with
  | ofNat n =>
    have unsigned : ∀ others, (toString n).toList ≠ '-' :: others := by
      intro others text
      have digit := Decimal.allDigits_toString n '-' (text ▸ List.mem_cons_self)
      cases digit
    show readNumber (toString n).toList = _
    rw [readNumber_unsigned unsigned, readMagnitude_toString, if_pos]
    · rfl
    · simpa using most
  | negSucc n =>
    rw [Decimal.toList_negSucc, readNumber_minus, readMagnitude_toString, if_neg (by simp), if_pos]
    · rfl
    · simp [Decimal.maxSigned, Decimal.minSigned] at least ⊢
      omega

/-! ## Whole texts -/

theorem stops_nil : Stops [] := by
  intro c head
  cases head

theorem parse?_of_toList {layout : Layout} {level : Nat} {text : String} {value : Json}
    (written : text.toList = layout.write level value)
    (readable : Readable readNumber maxDepth value) : parse? text = some value := by
  have read := readWith_write layout value level readable stops_nil
  rw [List.append_nil, readWith_readNumber] at read
  rw [parse?, parseWithin?, parseBy?, written, read]
  rfl

/-- Both texts of a value are read back, if its numbers are. -/
theorem parse?_text {value : Json} (readable : Readable readNumber maxDepth value) :
    ∀ text ∈ [value.compact, value.pretty], parse? text = some value := by
  intro text member
  rcases List.mem_pair.mp member with rfl | rfl
  · exact parse?_of_toList (toList_compact 0 value) readable
  · exact parse?_of_toList (toList_prettyAt 0 value) readable

/-! ## The text determines the value -/

/-- Whether a value is a number that is written. -/
def IsNumber : Json → Prop
  | .int _ => True
  | .float value => value.isFinite = true
  | _ => False

/-- The text of a number. -/
def numberText : Json → String
  | .int value => toString value
  | .float value => floatText value
  | _ => ""

theorem numberText_injective {left right : Json} (leftNumber : left.IsNumber)
    (rightNumber : right.IsNumber) (same : left.numberText = right.numberText) : left = right := by
  cases left with
  | int n =>
    cases right with
    | int m => exact congrArg Json.int (Decimal.toString_int_injective same)
    | float y => exact absurd same.symm (floatText_ne_int rightNumber n)
    | null | bool | str | arr | obj => exact rightNumber.elim
  | float x =>
    cases right with
    | int m => exact absurd same (floatText_ne_int leftNumber m)
    | float y => exact congrArg Json.float (floatText_injective leftNumber rightNumber same)
    | null | bool | str | arr | obj => exact rightNumber.elim
  | null | bool | str | arr | obj => exact leftNumber.elim

open Classical in
/-- The number that is written at the beginning of a text. -/
noncomputable def numberOf (text : List Char) : Option (Json × List Char) :=
  if written : ∃ value : Json, value.IsNumber ∧
      value.numberText.toList = text.takeWhile isNumeral then
    some (written.choose, text.dropWhile isNumeral)
  else none

theorem reads_numberOf (value : Json) (number : value.IsNumber)
    (letters : ∀ c ∈ value.numberText.toList, isNumeral c = true) :
    Reads numberOf value.numberText value := by
  intro rest stops
  have front : (value.numberText.toList ++ rest).takeWhile isNumeral =
      value.numberText.toList := by
    rw [takeWhile_append fun c head => (stops c head).1]
    exact List.takeWhile_eq_self_iff.mpr letters
  have back : (value.numberText.toList ++ rest).dropWhile isNumeral = rest := by
    rw [dropWhile_append fun c head => (stops c head).1, List.dropWhile_eq_nil_iff.mpr letters]
    rfl
  have written : ∃ known : Json, known.IsNumber ∧ known.numberText.toList =
      (value.numberText.toList ++ rest).takeWhile isNumeral := ⟨value, number, front.symm⟩
  -- The choice is free only among numbers of this text, and there is just one.
  have chosen : written.choose = value :=
    numberText_injective written.choose_spec.1 number
      (String.toList_inj.mp (written.choose_spec.2.trans front))
  rw [numberOf, dif_pos written, chosen, back]

theorem IsFinite.readable {value : Json} (finite : IsFinite value) :
    ∀ {depth : Nat}, height value ≤ depth → Readable numberOf depth value := by
  induction value using induction with
  | null | bool | str =>
    intro depth _
    rw [Readable]
    trivial
  | int value =>
    intro depth _
    rw [Readable]
    exact reads_numberOf (.int value) trivial (Decimal.isNumeral_int value)
  | float value =>
    intro depth _
    rw [Readable]
    exact ⟨finite, reads_numberOf (.float value) finite (isNumeral_floatText finite)⟩
  | arr items ih =>
    intro depth bound
    rw [height] at bound
    obtain ⟨fewer, rfl⟩ : ∃ fewer, depth = fewer + 1 := ⟨depth - 1, by omega⟩
    rw [readable_arr]
    intro item member
    have below := height_le_heightItems member
    exact ih item member (isFinite_arr.mp finite item member) (by omega)
  | obj members ih =>
    intro depth bound
    rw [height] at bound
    obtain ⟨fewer, rfl⟩ : ∃ fewer, depth = fewer + 1 := ⟨depth - 1, by omega⟩
    rw [readable_obj]
    intro member among
    have below := height_le_heightMembers among
    exact ih member among (isFinite_obj.mp finite member among) (by omega)

/-- Finite values of one text are equal, in any layout. -/
theorem write_injective (layout : Layout) (level : Nat) {left right : Json}
    (leftFinite : IsFinite left) (rightFinite : IsFinite right)
    (same : layout.write level left = layout.write level right) : left = right := by
  have first := readWith_write layout left level
    (leftFinite.readable (le_max_left (height left) (height right))) stops_nil
  have second := readWith_write layout right level
    (rightFinite.readable (le_max_right (height left) (height right))) stops_nil
  rw [same, second] at first
  exact (Prod.mk.inj (Option.some.inj first)).1.symm

/-- The indented text of a finite value determines the value. -/
theorem pretty_injective {left right : Json} (leftFinite : IsFinite left)
    (rightFinite : IsFinite right) (same : left.pretty = right.pretty) : left = right := by
  refine write_injective .indented 0 leftFinite rightFinite ?_
  rw [← toList_prettyAt, ← toList_prettyAt]
  exact congrArg String.toList same

/-- The compact text of a finite value determines the value. -/
theorem compact_injective {left right : Json} (leftFinite : IsFinite left)
    (rightFinite : IsFinite right) (same : left.compact = right.compact) : left = right := by
  refine write_injective .dense 0 leftFinite rightFinite ?_
  rw [← toList_compact, ← toList_compact]
  exact congrArg String.toList same

end EntityGraph.Json
