import EntityGraph.Files.Tree
import EntityGraph.Proofs.Text.Split
import Mathlib.Tactic.SplitIfs

/-!
# Places of files

Two paths that lead to one place read the same text: the names on the way to a file have no slash
in them, so the place tells them apart.
-/
namespace EntityGraph

namespace FileTree

variable {tree : FileTree}

/-! ## What paths lead to -/

/-- The names on the way to a node have no slash in them, and a file has the text under its
names. -/
def Node.Sound (tree : FileTree) : Node → Prop
  | .file names text =>
    names ≠ [] ∧ (∀ name ∈ names, '/' ∉ name.toList) ∧ tree.text? names = some text
  | .directory names => ∀ name ∈ names, '/' ∉ name.toList

theorem child_sound {names : List String} {name : String} {next : Node}
    (free : ∀ other ∈ names ++ [name], '/' ∉ other.toList)
    (stepped : tree.child names name = .ok next) : next.Sound tree := by
  unfold child at stepped
  split at stepped
  · cases stepped
  · dsimp only at stepped
    split at stepped
    next text found =>
      cases stepped
      exact ⟨by simp, free, found⟩
    next =>
      split at stepped
      · cases stepped
        exact free
      · cases stepped

theorem step_sound {node next : Node} {piece : String} (sound : node.Sound tree)
    (free : '/' ∉ piece.toList) (stepped : tree.step node piece = .ok next) : next.Sound tree := by
  cases node with
  | file names text => cases stepped
  | directory names =>
    have longer : ∀ name ∈ names ++ [piece], '/' ∉ name.toList := by
      intro name member
      rcases List.mem_append.mp member with old | new
      · exact sound name old
      · exact List.mem_singleton.mp new ▸ free
    rw [step] at stepped
    split_ifs at stepped with blank back top
    · cases stepped
      exact sound
    · cases stepped
      exact fun name member => sound name (List.dropLast_subset names member)
    · exact child_sound longer stepped

theorem steps_sound {pieces : List String} {node final : Node} (sound : node.Sound tree)
    (free : ∀ piece ∈ pieces, '/' ∉ piece.toList)
    (stepped : pieces.foldlM (step tree) node = .ok final) : final.Sound tree := by
  induction pieces generalizing node with
  | nil =>
    cases stepped
    exact sound
  | cons piece rest ih =>
    rw [List.foldlM_cons] at stepped
    cases first : tree.step node piece with
    | error failure =>
      rw [first] at stepped
      cases stepped
    | ok next =>
      rw [first] at stepped
      exact ih (step_sound sound (free piece List.mem_cons_self) first)
        (fun other member => free other (List.mem_cons_of_mem _ member)) stepped

theorem resolve_sound {path : String} {node : Node} (resolved : tree.resolve path = .ok node) :
    node.Sound tree := by
  have top : (Node.directory []).Sound tree := fun name member => nomatch member
  rw [resolve] at resolved
  split_ifs at resolved
  · cases resolved
    exact top
  · exact steps_sound top (fun piece => Text.not_mem_of_mem_split) resolved

/-- A path that can be read leads to a place under whose names the text is kept. -/
theorem exists_place_of_read {path text : String} (read : tree.read path = .ok text) :
    ∃ names, names ≠ [] ∧ (∀ name ∈ names, '/' ∉ name.toList) ∧ tree.text? names = some text ∧
      tree.place? path = some ("/".intercalate names) := by
  rw [FileTree.read] at read
  cases resolved : tree.resolve path with
  | error failure =>
    rw [resolved] at read
    cases read
  | ok node =>
    rw [resolved] at read
    cases node with
    | file names own =>
      cases read
      obtain ⟨nonempty, free, found⟩ := resolve_sound resolved
      exact ⟨names, nonempty, free, found, by rw [place?, resolved]⟩
    | directory names => cases read

/-- Paths to one place read the same text. -/
theorem read_unique {path other text otherText : String} (read : tree.read path = .ok text)
    (otherRead : tree.read other = .ok otherText) (same : tree.place? path = tree.place? other) :
    text = otherText := by
  obtain ⟨names, nonempty, free, found, place⟩ := exists_place_of_read read
  obtain ⟨otherNames, otherNonempty, otherFree, otherFound, otherPlace⟩ :=
    exists_place_of_read otherRead
  have joined : "/".intercalate names = "/".intercalate otherNames :=
    Option.some.inj (place.symm.trans (same.trans otherPlace))
  have slash : "/".toList = ['/'] := rfl
  obtain rfl : names = otherNames := by
    rw [← Text.split_intercalate slash nonempty free, joined,
      Text.split_intercalate slash otherNonempty otherFree]
  exact Option.some.inj (found.symm.trans otherFound)

end FileTree

end EntityGraph
