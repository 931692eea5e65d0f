import EntityGraph.Proofs.Lists
import EntityGraph.Text.Documentation
import Mathlib.Data.List.Infix
import Mathlib.Tactic.Tauto

/-!
# Squeezed collections of texts

Squeezing goes once through the texts in order, and looks at the last one that it has kept only.
That is enough, as the texts that begin with a given one all stand right behind it: if a text is
continued anywhere, then by its successor. So exactly those texts are left that no other text of the
collection continues.

These are known from the texts alone, whatever the order in which they come and however often each
of them does. Every text is the beginning of one that is left, so nothing is different if some of
the texts have been squeezed before.
-/
namespace EntityGraph.Text.Documentation

/-! ## Continued texts -/

/-- The second text is another one that begins with the first. -/
def IsContinuedBy (text other : String) : Prop := text ≠ other ∧ text.toList <+: other.toList

instance (text other : String) : Decidable (IsContinuedBy text other) :=
  inferInstanceAs (Decidable (_ ∧ _))

theorem IsContinuedBy.trans {text middle other : String} (first : IsContinuedBy text middle)
    (second : IsContinuedBy middle other) : IsContinuedBy text other := by
  refine ⟨?_, first.2.trans second.2⟩
  rintro rfl
  have shorter := first.2.length_le
  exact second.1 (String.toList_injective (second.2.eq_of_length_le shorter))

/-- A text comes before those that continue it. -/
theorem IsContinuedBy.lt {text other : String} (continued : IsContinuedBy text other) :
    text < other :=
  Std.lt_of_le_of_ne continued.2.le continued.1

theorem prefix_of_between {first middle last : List Char} (above : first < middle)
    (below : middle < last) (starts : first <+: last) : first <+: middle := by
  induction first generalizing middle last with
  | nil => exact List.nil_prefix
  | cons c first ih =>
    obtain ⟨rest, rfl⟩ := starts
    rw [List.cons_append] at below
    cases middle with
    | nil => exact absurd above (List.not_lt_nil _)
    | cons d middle =>
      rw [List.cons_lt_cons_iff] at above below
      -- The first character in between is neither larger nor smaller.
      obtain ⟨rfl, restAbove⟩ : c = d ∧ first < middle := by
        rcases above with larger | same
        · rcases below with smaller | ⟨same, _⟩
          · exact absurd larger (Char.lt_asymm smaller)
          · exact absurd (same ▸ larger) (Char.lt_irrefl _)
        · exact same
      rcases below with smaller | ⟨_, restBelow⟩
      · exact absurd smaller (Char.lt_irrefl _)
      · exact List.cons_prefix_cons.mpr ⟨rfl, ih restAbove restBelow ⟨rest, rfl⟩⟩

/-- What stands between a text and a continuation of it continues it, too. -/
theorem IsContinuedBy.between {text middle other : String} (continued : IsContinuedBy text other)
    (above : text < middle) (below : middle < other) : IsContinuedBy text middle :=
  ⟨String.ne_of_lt above, prefix_of_between above below continued.2⟩

/-! ## Texts that nothing continues -/

/-- The text belongs to the collection, and no other text of it continues this one. -/
def IsMaximal (texts : List String) (text : String) : Prop :=
  text ∈ texts ∧ ∀ other ∈ texts, ¬IsContinuedBy text other

theorem isMaximal_congr {texts others : List String}
    (same : ∀ text, text ∈ texts ↔ text ∈ others) (text : String) :
    IsMaximal texts text ↔ IsMaximal others text := by
  simp only [IsMaximal, same]

theorem isMaximal_singleton {first text : String} : IsMaximal [first] text ↔ text = first := by
  constructor
  · exact fun maximal => List.mem_singleton.mp maximal.1
  · rintro rfl
    refine ⟨List.mem_singleton_self text, fun other member continued => ?_⟩
    exact continued.1 (List.mem_singleton.mp member).symm

/-- In the order of texts, the first one is left exactly if the second does not begin with it. -/
theorem isMaximal_cons_cons {first next text : String} {rest : List String}
    (sorted : (first :: next :: rest).Pairwise (· < ·)) :
    IsMaximal (first :: next :: rest) text ↔
      (text = first ∧ ¬first.toList <+: next.toList) ∨ IsMaximal (next :: rest) text := by
  obtain ⟨above, restSorted⟩ := List.pairwise_cons.mp sorted
  have larger : first < next := above next List.mem_cons_self
  constructor
  · rintro ⟨member, free⟩
    rcases List.mem_cons.mp member with rfl | behind
    · refine .inl ⟨rfl, fun starts => ?_⟩
      exact free next (by simp) ⟨String.ne_of_lt larger, starts⟩
    · exact .inr ⟨behind, fun other inRest => free other (List.mem_cons_of_mem _ inRest)⟩
  · rintro (⟨rfl, apart⟩ | ⟨behind, free⟩)
    · refine ⟨List.mem_cons_self, fun other member continued => ?_⟩
      -- A continuation stands behind the next text, which would be one as well.
      rcases List.mem_cons.mp member with rfl | member
      · exact continued.1 rfl
      · rcases List.mem_cons.mp member with rfl | inRest
        · exact apart continued.2
        · have behind : next < other := (List.pairwise_cons.mp restSorted).1 other inRest
          exact apart (continued.between larger behind).2
    · refine ⟨List.mem_cons_of_mem _ behind, fun other member continued => ?_⟩
      rcases List.mem_cons.mp member with rfl | inRest
      · exact String.lt_asymm continued.lt (above text behind)
      · exact free other inRest continued

/-! ## Squeezing -/

theorem squeezeStep_cons (last text : String) (earlier : List String) :
    squeezeStep (last :: earlier) text =
      if last.toList <+: text.toList then text :: earlier else text :: last :: earlier := by
  simp only [squeezeStep, String.startsWith_string_iff]

theorem squeezeStep_sublist (kept : List String) (text : String) :
    (squeezeStep kept text).Sublist (text :: kept) := by
  cases kept with
  | nil => exact .refl _
  | cons last earlier =>
    rw [squeezeStep_cons]
    split
    · exact (List.sublist_cons_self last earlier).cons_cons text
    · exact .refl _

theorem foldl_squeezeStep_sublist (texts kept : List String) :
    (texts.foldl squeezeStep kept).Sublist (texts.reverse ++ kept) := by
  induction texts generalizing kept with
  | nil => exact .refl _
  | cons text rest ih =>
    rw [List.foldl_cons, List.reverse_cons, List.append_assoc, List.singleton_append]
    exact (ih _).trans ((squeezeStep_sublist kept text).append_left rest.reverse)

/-- A text is on top of those kept as soon as it comes, so the next one is compared with it. -/
theorem mem_foldl_squeezeStep {first text : String} {rest : List String}
    (sorted : (first :: rest).Pairwise (· < ·)) (kept : List String) :
    text ∈ rest.foldl squeezeStep (first :: kept) ↔
      text ∈ kept ∨ IsMaximal (first :: rest) text := by
  induction rest generalizing first kept with
  | nil => rw [isMaximal_singleton, List.foldl_nil, List.mem_cons, or_comm]
  | cons next rest ih =>
    have restSorted := (List.pairwise_cons.mp sorted).2
    rw [List.foldl_cons, squeezeStep_cons, isMaximal_cons_cons sorted]
    split
    next continued =>
      -- The next text takes the place of the first one, which it continues.
      rw [ih restSorted]
      simp [continued]
    next apart =>
      -- The first text is kept for good, and nothing that comes later continues it.
      rw [ih restSorted, List.mem_cons]
      simp only [apart, not_false_iff, and_true]
      tauto

theorem squeeze_sorted (texts : List String) : (squeeze texts).Pairwise (· < ·) := by
  have kept := (foldl_squeezeStep_sublist (sortDistinct texts) []).reverse
  rw [List.append_nil, List.reverse_reverse] at kept
  exact (sortDistinct_sorted texts).sublist kept

theorem mem_squeeze {texts : List String} {text : String} :
    text ∈ squeeze texts ↔ IsMaximal texts text := by
  have sorted := sortDistinct_sorted texts
  rw [← isMaximal_congr (fun _ => mem_sortDistinct), squeeze, List.mem_reverse]
  cases distinct : sortDistinct texts with
  | nil => simp [IsMaximal]
  | cons first rest =>
    rw [distinct] at sorted
    rw [List.foldl_cons]
    exact (mem_foldl_squeezeStep sorted []).trans (or_iff_right List.not_mem_nil)

/-- What is left is known from the texts that nothing continues. -/
theorem squeeze_congr {texts others : List String}
    (same : ∀ text, IsMaximal texts text ↔ IsMaximal others text) :
    squeeze texts = squeeze others := by
  apply eq_of_sorted (squeeze_sorted texts) (squeeze_sorted others)
  intro text
  rw [mem_squeeze, mem_squeeze, same]

/-! ## Squeezing in parts -/

theorem squeezeStep_covers {kept : List String} {text part : String}
    (member : part ∈ text :: kept) :
    ∃ whole ∈ squeezeStep kept text, part.toList <+: whole.toList := by
  cases kept with
  | nil => exact ⟨part, member, List.prefix_rfl⟩
  | cons last earlier =>
    rw [squeezeStep_cons]
    split
    next continued =>
      rcases List.mem_cons.mp member with rfl | known
      · exact ⟨part, List.mem_cons_self, List.prefix_rfl⟩
      · rcases List.mem_cons.mp known with rfl | before
        · exact ⟨text, List.mem_cons_self, continued⟩
        · exact ⟨part, List.mem_cons_of_mem _ before, List.prefix_rfl⟩
    next => exact ⟨part, member, List.prefix_rfl⟩

theorem foldl_squeezeStep_covers {texts kept : List String} {part : String}
    (member : part ∈ texts ∨ part ∈ kept) :
    ∃ whole ∈ texts.foldl squeezeStep kept, part.toList <+: whole.toList := by
  induction texts generalizing kept part with
  | nil => exact ⟨part, member.resolve_left List.not_mem_nil, List.prefix_rfl⟩
  | cons text rest ih =>
    rw [List.foldl_cons]
    have arrived : part ∈ rest ∨ part ∈ text :: kept := by
      simpa [or_assoc, or_left_comm] using member
    rcases arrived with later | now
    · exact ih (.inl later)
    · -- What is kept instead of the text may have to give way to a longer one later.
      obtain ⟨middle, middleKept, starts⟩ := squeezeStep_covers now
      obtain ⟨whole, wholeKept, continues⟩ := ih (.inr middleKept)
      exact ⟨whole, wholeKept, starts.trans continues⟩

/-- Every text is the beginning of one that is left. -/
theorem exists_isMaximal {texts : List String} {part : String} (member : part ∈ texts) :
    ∃ whole, IsMaximal texts whole ∧ part.toList <+: whole.toList := by
  obtain ⟨whole, kept, continues⟩ :=
    foldl_squeezeStep_covers (.inl (mem_sortDistinct.mpr member) : _ ∨ part ∈ [])
  exact ⟨whole, mem_squeeze.mp (List.mem_reverse.mpr kept), continues⟩

theorem isMaximal_squeeze_append {texts more : List String} {text : String} :
    IsMaximal (squeeze texts ++ more) text ↔ IsMaximal (texts ++ more) text := by
  have among {other : String} (left : other ∈ squeeze texts ++ more) : other ∈ texts ++ more := by
    rcases List.mem_append.mp left with kept | added
    · exact List.mem_append_left _ (mem_squeeze.mp kept).1
    · exact List.mem_append_right _ added
  constructor
  · rintro ⟨member, free⟩
    refine ⟨among member, fun other otherMember continued => ?_⟩
    rcases List.mem_append.mp otherMember with inTexts | added
    · -- What continues the text is the beginning of a text that is left.
      obtain ⟨whole, maximal, continues⟩ := exists_isMaximal inTexts
      have wholeMember : whole ∈ squeeze texts ++ more :=
        List.mem_append_left _ (mem_squeeze.mpr maximal)
      by_cases same : other = whole
      · exact free whole wholeMember (same ▸ continued)
      · exact free whole wholeMember (continued.trans ⟨same, continues⟩)
    · exact free other (List.mem_append_right _ added) continued
  · rintro ⟨member, free⟩
    refine ⟨?_, fun other otherMember => free other (among otherMember)⟩
    rcases List.mem_append.mp member with inTexts | added
    · have maximal : IsMaximal texts text :=
        ⟨inTexts, fun other inTexts => free other (List.mem_append_left _ inTexts)⟩
      exact List.mem_append_left _ (mem_squeeze.mpr maximal)
    · exact List.mem_append_right _ added

theorem squeeze_squeeze_append (texts more : List String) :
    squeeze (squeeze texts ++ more) = squeeze (texts ++ more) :=
  squeeze_congr fun _ => isMaximal_squeeze_append

theorem squeeze_squeeze (texts : List String) : squeeze (squeeze texts) = squeeze texts := by
  simpa using squeeze_squeeze_append texts []

theorem squeeze_append_comm (texts more : List String) :
    squeeze (texts ++ more) = squeeze (more ++ texts) := by
  apply squeeze_congr
  apply isMaximal_congr
  intro text
  rw [List.mem_append, List.mem_append, or_comm]

theorem squeeze_append_squeeze (texts more : List String) :
    squeeze (texts ++ squeeze more) = squeeze (texts ++ more) := by
  rw [squeeze_append_comm, squeeze_squeeze_append, squeeze_append_comm]

end EntityGraph.Text.Documentation
