import LogicTree.Proofs.Command.Outcomes
import LogicTree.Proofs.Document.Values

/-! # Commands on trees stored by others

A tree is stored with elements of its own type, and loaded with values for elements. Numbers and
strings are written as scalars, which are read whatever they are, even the null that stands for a
number that is not finite. So the tree that is loaded has the name, the levels and the labels of the
one that was stored, and commands ask for nothing else.
-/

namespace LogicTree

open Json

/-! ## Trees that differ in their elements -/

/-- Two trees tell the same of everything but their elements. -/
structure Tree.SameOutline {E F : Type} (a : Tree E) (b : Tree F) : Prop where
  modelName : a.modelName = b.modelName
  levels : a.levels = b.levels
  labels : a.elements.labels = b.elements.labels

namespace ElementTable

variable {E F : Type}

/-- The table with a function applied to every element. -/
def map (f : E → F) (table : ElementTable E) : ElementTable F where
  rows := table.rows.map fun row => (row.1, f row.2)
  increase := by
    unfold KeysIncrease
    exact List.pairwise_map.2 table.increase

theorem labels_map (f : E → F) (table : ElementTable E) : (table.map f).labels = table.labels := by
  simp [map, labels]

end ElementTable

namespace Tree

variable {E : Type} [Writable E]

/-- The tree with every element as the value that it is written as. -/
def values (tree : Tree E) : Tree Json where
  modelName := tree.modelName
  levels := tree.levels
  elements := tree.elements.map Writable.toJson

theorem sameOutline_values (tree : Tree E) : tree.SameOutline tree.values :=
  ⟨rfl, rfl, (tree.elements.labels_map Writable.toJson).symm⟩

theorem toBytesWith_values (tree : Tree E) (rows : List (String × E)) :
    tree.values.toBytesWith (rows.map fun row => (row.1, Writable.toJson row.2)) =
      tree.toBytesWith rows := by
  have same : tree.values.toJsonWith (rows.map fun row => (row.1, Writable.toJson row.2)) =
      tree.toJsonWith rows := by
    simp only [toJsonWith, List.map_map]
    rfl
  rw [toBytesWith, toBytesWith, same]
  rfl

end Tree

/-! ## Elements that are scalars -/

/-- Types whose values are written as scalars. -/
class Json.Scalar (E : Type) [Writable E] : Prop where
  nesting_toJson : ∀ element : E, (Writable.toJson element).nesting = 0

instance : Json.Scalar Float where
  nesting_toJson element := by
    change (Json.ofFloat element).nesting = 0
    unfold Json.ofFloat
    split <;> rfl

instance : Json.Scalar String where
  nesting_toJson _ := rfl

theorem Json.ordered_of_nesting {value : Json} (scalar : value.nesting = 0) : value.Ordered := by
  cases value with
  | null | bool | number | string => trivial
  | array | object => cases scalar

namespace Tree

variable {E : Type} [Writable E] [Json.Scalar E]

theorem ofBytes_values {tree : Tree E} {rows : List (String × E)} {bytes : Bytes}
    (perm : rows.Perm tree.elements.rows) (written : tree.toBytesWith rows = .ok bytes) :
    Tree.ofBytes bytes = .ok tree.values := by
  have scalar : ∀ row ∈ tree.values.elements.rows, row.2.nesting = 0 := by
    intro row member
    obtain ⟨⟨label, element⟩, -, rfl⟩ := List.mem_map.1 member
    exact Json.Scalar.nesting_toJson element
  have shallow : ∀ row ∈ tree.values.elements.rows, row.2.nesting < elementRoom := by
    intro row member
    rw [scalar row member]
    decide
  rw [← toBytesWith_values] at written
  obtain ⟨-, read⟩ := ofBytes_of_test (fun value => value.nesting < elementRoom) (perm.map _) written
    fun row member => read_element (ordered_of_nesting (scalar row member))
  rw [if_pos shallow] at read
  exact read

end Tree

/-! ## Commands -/

theorem Tree.SameOutline.of_same {E F G : Type} {tree : Tree E} {a : Tree F} {b : Tree G}
    (first : tree.SameOutline a) (second : tree.SameOutline b) : a.SameOutline b :=
  ⟨first.modelName.symm.trans second.modelName, first.levels.symm.trans second.levels,
    first.labels.symm.trans second.labels⟩

/-- A command asks a tree for its name, its levels and its labels only. -/
theorem Command.execute_of_sameOutline {a b : StoredTree} (same : a.SameOutline b)
    (command : Command) (config : Config) (entropy : UInt64) :
    command.execute a config entropy = command.execute b config entropy := by
  obtain ⟨nameA, levelsA, elementsA⟩ := a
  obtain ⟨nameB, levelsB, elementsB⟩ := b
  obtain ⟨rfl, rfl, labels⟩ := same
  cases command with
  | elements => simp only [execute, labels]
  | describe | weight | sample | paths | validate => rfl

namespace Execution

/-- The execution of a command on a tree that has been loaded under its name. -/
def afterLoading (execution : Execution) (modelName : String) : Execution :=
  { execution with notices := .loaded modelName :: execution.notices }

end Execution

theorem Invocation.run_of_load {invocation : Invocation} {config : Config} {around : Surroundings}
    {path : String} {tree : StoredTree}
    (resolved : config.resolveTreeFile invocation.treeFile Config.treeFileVariable
      around.treeVariable = .ok path)
    (loaded : Tree.load path around.files = .ok tree) :
    invocation.run config around =
      (invocation.command.execute tree config around.entropy).afterLoading tree.modelName := by
  simp only [run, resolved, loaded, Execution.afterLoading]

/-- Whatever is written of a tree is loaded with the same outline, and from a file with it commands
    leave what they leave of any tree with that outline. -/
def Tree.StoresOutline {E : Type} [Writable E] (tree : Tree E) : Prop :=
  ∀ rows bytes, rows.Perm tree.elements.rows → tree.toBytesWith rows = .ok bytes →
    ∃ stored : StoredTree, Tree.ofBytes bytes = .ok stored ∧ tree.SameOutline stored ∧
      ∀ (invocation : Invocation) (config : Config) (around : Surroundings) (path : String),
        config.resolveTreeFile invocation.treeFile Config.treeFileVariable around.treeVariable =
            .ok path →
          around.files.read (FilePath.ofString path) = .ok bytes →
            ∀ memory : StoredTree, tree.SameOutline memory →
              invocation.run config around =
                (invocation.command.execute memory config around.entropy).afterLoading
                  tree.modelName

theorem Tree.storesOutline {E : Type} [Writable E] [Json.Scalar E] (tree : Tree E) :
    tree.StoresOutline := by
  intro rows bytes perm written
  have read := ofBytes_values perm written
  refine ⟨tree.values, read, tree.sameOutline_values, ?_⟩
  intro invocation config around path resolved content memory same
  have loaded : Tree.load path around.files = .ok tree.values := (load_of_read content).trans read
  rw [Invocation.run_of_load resolved loaded,
    Command.execute_of_sameOutline (tree.sameOutline_values.of_same same)]
  rfl

/-- Trees with numbers and trees with strings for elements can be stored for the commands: only the
    elements themselves are loaded as something else. -/
theorem Tree.stores_outline_of_scalars :
    (∀ tree : Tree Float, tree.StoresOutline) ∧ ∀ tree : Tree String, tree.StoresOutline :=
  ⟨fun tree => tree.storesOutline, fun tree => tree.storesOutline⟩

/-- A directory with the document of a tree. -/
def besideTree (document : Bytes) : Surroundings where
  files := { entries := [(["tree.json"], .file document)], workingDirectory := [] }
  configDirectory := ""
  treeVariable := none
  entropy := 0

/-- The label of an infinite element, which is stored as null. -/
theorem Tree.stores_outline_of_scalars_infinite :
    let tree := oneElement (1.0 / 0.0)
    ∃ bytes, tree.toBytes = .ok bytes ∧
      ∃ stored : StoredTree, Tree.ofBytes bytes = .ok stored ∧ tree.SameOutline stored ∧
        (Invocation.run ⟨some "tree.json", none, .elements⟩ {} (besideTree bytes)).Prints "1\n" := by
  intro tree
  have written : tree.toBytesWith tree.elements.rows =
      .ok ((tree.toJsonWith tree.elements.rows).print .lines) := rfl
  obtain ⟨stored, read, same, runs⟩ :=
    stores_outline_of_scalars.1 tree tree.elements.rows _ (.refl _) written
  refine ⟨_, written, stored, read, same, ?_⟩
  rw [runs _ {} _ "tree.json" rfl rfl tree.values tree.sameOutline_values]
  exact ⟨rfl, by decide +kernel⟩

end LogicTree
