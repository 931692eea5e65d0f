import EntityGraph.Proofs.Text.Split

/-!
# Names in both cases

Changing the case of a name changes how its words are told apart, and nothing else. Apart from word
breaks and from the case of ASCII letters, the snake case of a name has the characters of the name,
and the capital case of a type path those of the local parts of its segments, each of them once and
in the same order. Neither of them leaves anything behind that it would change another time.
-/
namespace EntityGraph.Text

/-! ## Letters -/

/-- A place among 26 that stand in a row. -/
theorem exists_place {first : Nat} {c : Char}
    (bounds : first ≤ c.toNat ∧ c.toNat < first + 26) :
    ∃ n < 26, c = Char.ofNat (first + n) := by
  refine ⟨c.toNat - first, by omega, ?_⟩
  have place : first + (c.toNat - first) = c.toNat := by omega
  rw [place, Char.ofNat_toNat]

section Letters

variable {motive : Char → Char → Prop}

/-- A character is one of the 26 capitals, or making it small leaves it as it is. -/
theorem lower_induction (letter : ∀ n < 26, motive (Char.ofNat (65 + n)) (Char.ofNat (97 + n)))
    (other : ∀ c, isUpper c = false → motive c c) (c : Char) : motive c (lower c) := by
  cases capital : isUpper c with
  | false =>
    have same : lower c = c := by simp [lower, capital]
    rw [same]
    exact other c capital
  | true =>
    have bounds : 65 ≤ c.toNat ∧ c.toNat ≤ 90 := by
      simpa [isUpper, Char.le_def, UInt32.le_iff_toNat_le] using capital
    obtain ⟨n, inAlphabet, rfl⟩ : ∃ n < 26, c = Char.ofNat (65 + n) := exists_place (by omega)
    have small : ∀ n < 26, lower (Char.ofNat (65 + n)) = Char.ofNat (97 + n) := by decide
    rw [small n inAlphabet]
    exact letter n inAlphabet

/-- A character is one of the 26 small letters, or capitalising leaves it as it is. -/
theorem upper_induction (letter : ∀ n < 26, motive (Char.ofNat (97 + n)) (Char.ofNat (65 + n)))
    (other : ∀ c, isLower c = false → motive c c) (c : Char) : motive c (upper c) := by
  cases small : isLower c with
  | false =>
    have same : upper c = c := by simp [upper, small]
    rw [same]
    exact other c small
  | true =>
    have bounds : 97 ≤ c.toNat ∧ c.toNat ≤ 122 := by
      simpa [isLower, Char.le_def, UInt32.le_iff_toNat_le] using small
    obtain ⟨n, inAlphabet, rfl⟩ : ∃ n < 26, c = Char.ofNat (97 + n) := exists_place (by omega)
    have capital : ∀ n < 26, upper (Char.ofNat (97 + n)) = Char.ofNat (65 + n) := by decide
    rw [capital n inAlphabet]
    exact letter n inAlphabet

end Letters

theorem isUpper_lower (c : Char) : isUpper (lower c) = false :=
  lower_induction (motive := fun _ d => isUpper d = false) (by decide) (fun _ other => other) c

theorem lower_lower (c : Char) : lower (lower c) = lower c := by
  have small := isUpper_lower c
  generalize lower c = d at small
  simp [lower, small]

theorem lower_upper (c : Char) : lower (upper c) = lower c :=
  upper_induction (motive := fun c d => lower d = lower c) (by decide) (fun _ _ => rfl) c

theorem upper_upper (c : Char) : upper (upper c) = upper c := by
  refine upper_induction (motive := fun _ d => upper d = d) (by decide) (fun d other => ?_) c
  simp [upper, other]

@[simp] theorem isWordBreak_lower (c : Char) : isWordBreak (lower c) = isWordBreak c :=
  lower_induction (motive := fun c d => isWordBreak d = isWordBreak c) (by decide)
    (fun _ _ => rfl) c

/-! ## What a name says -/

/-- The characters of a name without word breaks, with small ASCII letters. -/
def bareChars (chars : List Char) : List Char := (chars.map lower).filter (!isWordBreak ·)

@[simp] theorem bareChars_nil : bareChars [] = [] := rfl

theorem bareChars_cons (c : Char) (rest : List Char) :
    bareChars (c :: rest) =
      if isWordBreak c then bareChars rest else lower c :: bareChars rest := by
  cases breaks : isWordBreak c <;> simp [bareChars, breaks]

theorem bareChars_lower_cons (c : Char) (rest : List Char) :
    bareChars (lower c :: rest) = bareChars (c :: rest) := by
  rw [bareChars_cons, bareChars_cons, isWordBreak_lower, lower_lower]

theorem bareChars_upper_cons (c : Char) (rest : List Char) :
    bareChars (upper c :: rest) = bareChars (c :: rest) := by
  rw [← bareChars_lower_cons, lower_upper, bareChars_lower_cons]

theorem bareChars_of_isWordBreak {c : Char} (breaks : isWordBreak c = true) (rest : List Char) :
    bareChars (c :: rest) = bareChars rest := by
  rw [bareChars_cons, if_pos breaks]

@[simp] theorem bareChars_append (chars more : List Char) :
    bareChars (chars ++ more) = bareChars chars ++ bareChars more := by
  simp [bareChars]

/-! ## Snake case -/

/-- A character that snake case leaves as it is. -/
def IsSnakeChar (c : Char) : Prop := isUpper c = false ∧ c ≠ '-' ∧ c ≠ ' ' ∧ c ≠ '.'

instance (c : Char) : Decidable (IsSnakeChar c) := inferInstanceAs (Decidable (_ ∧ _))

theorem isSnakeChar_lower (c : Char) : isUpper c = true → IsSnakeChar (lower c) := by
  refine lower_induction (motive := fun c d => isUpper c = true → IsSnakeChar d) (by decide) ?_ c
  intro c other capital
  rw [other] at capital
  contradiction

/-- Every character gives a piece that says the same, whatever stands around it. -/
theorem snakeChars_cons (previous : Option Char) (broken : Bool) (c : Char) (rest : List Char) :
    ∃ piece ends, snakeChars previous broken (c :: rest) = piece ++ snakeChars (some c) ends rest ∧
      (∀ d ∈ piece, IsSnakeChar d) ∧ bareChars piece = bareChars [c] := by
  have underscore : IsSnakeChar '_' := by decide
  simp only [snakeChars]
  split
  next capital =>
    -- The small letter stands alone, or behind an underscore where a word starts.
    have small := isSnakeChar_lower c capital
    have same := bareChars_lower_cons c []
    split
    · refine ⟨['_', lower c], false, rfl, by simp [underscore, small], ?_⟩
      rw [bareChars_of_isWordBreak rfl, same]
    · exact ⟨[lower c], false, rfl, by simp [small], same⟩
  next other =>
    split
    next breaks =>
      refine ⟨['_'], true, rfl, by simp [underscore], ?_⟩
      have either : (c = '-' ∨ c = ' ') ∨ c = '.' := by simpa using breaks
      rcases either with (rfl | rfl) | rfl <;> rfl
    next inWord =>
      have stays : IsSnakeChar c := by simpa [IsSnakeChar, other, and_assoc] using inWord
      exact ⟨[c], _, rfl, by simp [stays], rfl⟩

theorem isSnakeChar_of_mem_snakeChars {previous : Option Char} {broken : Bool} {chars : List Char} :
    ∀ c ∈ snakeChars previous broken chars, IsSnakeChar c := by
  induction chars generalizing previous broken with
  | nil => simp [snakeChars]
  | cons c rest ih =>
    obtain ⟨piece, ends, whole, snake, -⟩ := snakeChars_cons previous broken c rest
    rw [whole]
    exact List.forall_mem_append.mpr ⟨snake, ih⟩

theorem bareChars_snakeChars (previous : Option Char) (broken : Bool) (chars : List Char) :
    bareChars (snakeChars previous broken chars) = bareChars chars := by
  induction chars generalizing previous broken with
  | nil => rfl
  | cons c rest ih =>
    obtain ⟨piece, ends, whole, -, same⟩ := snakeChars_cons previous broken c rest
    rw [whole, bareChars_append, same, ih, ← bareChars_append, List.singleton_append]

theorem snakeChars_of_isSnakeChar {chars : List Char} (snake : ∀ c ∈ chars, IsSnakeChar c)
    (previous : Option Char) (broken : Bool) : snakeChars previous broken chars = chars := by
  induction chars generalizing previous broken with
  | nil => rfl
  | cons c rest ih =>
    obtain ⟨⟨small, hyphen, space, dot⟩, restSnake⟩ := List.forall_mem_cons.mp snake
    simp [snakeChars, small, hyphen, space, dot, ih restSnake]

/-! ## Capital case -/

/-- The segments of a type path, each without what stands before its last colon. -/
def localParts (path : String) : List (List Char) :=
  (splitChars '.' path.toList).map fun segment => (splitChars ':' segment).getLastD []

theorem localPart_eq (segment : List Char) :
    localPart segment = (splitChars ':' segment).getLastD [] := by
  obtain ⟨front, last, rfl, ends, free⟩ := exists_last ':' segment
  have passes : ∀ c ∈ last.reverse, decide (c ≠ ':') = true := by
    intro c member
    apply decide_eq_true
    rintro rfl
    exact free (List.mem_reverse.mp member)
  rw [getLastD_splitChars ends free, localPart, List.reverse_append,
    List.takeWhile_append_of_pos passes]
  rcases ends with rfl | ⟨before, rfl⟩
  · simp
  · simp

theorem toList_pascalName (path : String) :
    (pascalName path).toList = joinWords true (['.'].intercalate (localParts path)) := by
  have parts : (splitChars '.' path.toList).map localPart = localParts path :=
    List.map_congr_left fun segment _ => localPart_eq segment
  rw [pascalName, parts, String.toList_ofList]

theorem colon_not_mem_localParts {path : String} {part : List Char}
    (member : part ∈ localParts path) : ':' ∉ part := by
  obtain ⟨segment, _, rfl⟩ := List.mem_map.mp member
  obtain ⟨front, last, rfl, ends, free⟩ := exists_last ':' segment
  rwa [getLastD_splitChars ends free]

theorem mem_intercalate {separator : Char} {pieces : List (List Char)} {c : Char}
    (member : c ∈ [separator].intercalate pieces) :
    c = separator ∨ ∃ piece ∈ pieces, c ∈ piece := by
  induction pieces with
  | nil => cases member
  | cons piece rest ih =>
    cases rest with
    | nil => exact .inr ⟨piece, List.mem_cons_self, by simpa using member⟩
    | cons next rest =>
      rw [List.intercalate_cons_cons, List.append_assoc, List.mem_append, List.mem_append,
        List.mem_singleton] at member
      rcases member with here | between | behind
      · exact .inr ⟨piece, List.mem_cons_self, here⟩
      · exact .inl between
      · exact (ih behind).imp_right fun ⟨other, inRest, has⟩ =>
          ⟨other, List.mem_cons_of_mem _ inRest, has⟩

theorem bareChars_intercalate {separator : Char} (breaks : isWordBreak separator = true)
    (pieces : List (List Char)) :
    bareChars ([separator].intercalate pieces) = bareChars pieces.flatten := by
  induction pieces with
  | nil => rfl
  | cons piece rest ih =>
    cases rest with
    | nil => simp
    | cons next rest =>
      have whole : (piece :: next :: rest).flatten = piece ++ (next :: rest).flatten := rfl
      rw [List.intercalate_cons_cons, List.append_assoc, List.singleton_append, bareChars_append,
        bareChars_of_isWordBreak breaks, ih, whole, bareChars_append]

theorem bareChars_joinWords (capital : Bool) (chars : List Char) :
    bareChars (joinWords capital chars) = bareChars chars := by
  induction chars generalizing capital with
  | nil => rfl
  | cons c rest ih =>
    rw [joinWords]
    split
    next breaks => rw [ih, bareChars_of_isWordBreak breaks]
    next inWord =>
      cases capital with
      | false => rw [if_neg Bool.false_ne_true, bareChars_cons, ih, ← bareChars_cons]
      | true => rw [if_pos rfl, bareChars_upper_cons, bareChars_cons, ih, ← bareChars_cons]

/-- A character that does not occur in a name in capital case. -/
def IsSeparator (c : Char) : Prop := isWordBreak c = true ∨ c = ':'

instance (c : Char) : Decidable (IsSeparator c) := inferInstanceAs (Decidable (_ ∨ _))

theorem isSeparator_upper (c : Char) : IsSeparator (upper c) ↔ IsSeparator c :=
  upper_induction (motive := fun c d => IsSeparator d ↔ IsSeparator c) (by decide)
    (fun _ _ => Iff.rfl) c

theorem not_isSeparator_of_mem_joinWords {capital : Bool} {chars : List Char} (free : ':' ∉ chars) :
    ∀ c ∈ joinWords capital chars, ¬IsSeparator c := by
  induction chars generalizing capital with
  | nil => simp [joinWords]
  | cons c rest ih =>
    have restFree := List.not_mem_of_not_mem_cons free
    rw [joinWords]
    split
    · exact ih restFree
    next inWord =>
      have inName : ¬IsSeparator c := by
        rintro (breaks | rfl)
        · exact inWord breaks
        · exact free List.mem_cons_self
      refine List.forall_mem_cons.mpr ⟨?_, ih restFree⟩
      cases capital with
      | false => exact inName
      | true => exact mt (isSeparator_upper c).mp inName

theorem not_isSeparator_of_mem_pascalName (path : String) :
    ∀ c ∈ (pascalName path).toList, ¬IsSeparator c := by
  rw [toList_pascalName]
  apply not_isSeparator_of_mem_joinWords
  intro member
  rcases mem_intercalate member with dot | ⟨part, inParts, colon⟩
  · exact absurd dot (by decide)
  · exact colon_not_mem_localParts inParts colon

theorem bareChars_pascalName (path : String) :
    bareChars (pascalName path).toList = bareChars (localParts path).flatten := by
  rw [toList_pascalName, bareChars_joinWords, bareChars_intercalate rfl]

/-- A name begins with a capital, if with a letter at all. -/
theorem upper_of_head?_joinWords {chars : List Char} {c : Char}
    (starts : (joinWords true chars).head? = some c) : upper c = c := by
  induction chars with
  | nil => cases starts
  | cons d rest ih =>
    rw [joinWords] at starts
    split at starts
    · exact ih starts
    · obtain rfl : upper d = c := Option.some.inj starts
      exact upper_upper d

theorem joinWords_of_free {chars : List Char} (free : ∀ c ∈ chars, ¬IsSeparator c) :
    joinWords false chars = chars := by
  induction chars with
  | nil => rfl
  | cons c rest ih =>
    obtain ⟨inName, restFree⟩ := List.forall_mem_cons.mp free
    rw [joinWords, if_neg fun breaks => inName (.inl breaks), if_neg Bool.false_ne_true,
      ih restFree]

/-- A name in capital case is a single word, of which only the first character is looked at. -/
theorem pascalName_of_free {name : String} (free : ∀ c ∈ name.toList, ¬IsSeparator c)
    (starts : ∀ c, name.toList.head? = some c → upper c = c) : pascalName name = name := by
  -- Without dots and colons the whole name is the only local part.
  have single : localParts name = [name.toList] := by
    have noDot : '.' ∉ name.toList := fun member => free '.' member (by decide)
    have noColon : ':' ∉ name.toList := fun member => free ':' member (by decide)
    rw [localParts, splitChars_eq_singleton noDot, List.map_singleton,
      splitChars_eq_singleton noColon]
    rfl
  apply String.toList_injective
  rw [toList_pascalName, single, List.intercalate_singleton]
  cases chars : name.toList with
  | nil => rfl
  | cons c rest =>
    rw [chars] at free starts
    obtain ⟨inName, restFree⟩ := List.forall_mem_cons.mp free
    rw [joinWords, if_neg fun breaks => inName (.inl breaks), if_pos rfl, starts c rfl,
      joinWords_of_free restFree]

/-! ## Both cases -/

/-- Snake case has no ASCII capital, hyphen, space or dot, and says what the name says: the same
characters in the same order, apart from word breaks and case. A name in capital case has no word
break and no colon, and says what the local parts of the path say together. Neither of them changes
its own results. -/
theorem case_changes_keep_letters (text : String) :
    snakeCase (snakeCase text) = snakeCase text ∧
      (∀ c ∈ (snakeCase text).toList, isUpper c = false ∧ c ≠ '-' ∧ c ≠ ' ' ∧ c ≠ '.') ∧
      bareChars (snakeCase text).toList = bareChars text.toList ∧
      pascalName (pascalName text) = pascalName text ∧
      (∀ c ∈ (pascalName text).toList, c ∉ ['.', '_', '-', ' ', ':']) ∧
      bareChars (pascalName text).toList = bareChars (localParts text).flatten := by
  have snakeText : (snakeCase text).toList = snakeChars none false text.toList :=
    String.toList_ofList
  have snake : ∀ c ∈ (snakeCase text).toList, IsSnakeChar c := by
    rw [snakeText]
    exact isSnakeChar_of_mem_snakeChars
  have free := not_isSeparator_of_mem_pascalName text
  refine ⟨?_, snake, ?_, ?_, ?_, bareChars_pascalName text⟩
  · rw [snakeCase, snakeChars_of_isSnakeChar snake, String.ofList_toList]
  · rw [snakeText, bareChars_snakeChars]
  · apply pascalName_of_free free
    rw [toList_pascalName]
    exact fun c => upper_of_head?_joinWords
  · intro c member
    have inName := free c member
    simp only [IsSeparator, isWordBreak, Bool.or_eq_true, decide_eq_true_eq] at inName
    simpa [or_assoc] using inName

example : snakeCase "HTTPServer2Go" = "http_server2_go" ∧
    snakeCase "line Item-No" = "line_item_no" ∧
    pascalName "ns:order.line_item" = "OrderLineItem" := by decide

end EntityGraph.Text
