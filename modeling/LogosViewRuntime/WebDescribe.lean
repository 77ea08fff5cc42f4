import LogosViewRuntime.Lib.Chain
import LogosViewRuntime.IntentName
import LogosViewRuntime.WebRuntime
import Mathlib.Algebra.GroupWithZero.Nat

/-! # `LogosWebRuntime::describeItem`

The query a page asks about an item of an installed view.  The item is looked for in the view's
`QObject` tree, and its position is summed up along its `parent` property, which is not that tree:
a document declares `parent` like any other property and may let it refer to any object.

A `Double` is any type with a zero and an addition: nothing depends on more, in particular not on
the rounding, and the terms are added in the order in which the code adds them. -/

namespace LogosViewRuntime.WebRuntime

open Reactive
open Pointer
open IntentRules (QString QStringLiteral)

/-- The `QObject` tree under an object. -/
inductive Tree (ι : Type) where
  | node (object : ι) (children : List (Tree ι))

/-- What `describeItem` reads of an object: `parent` is null where the property is no object, the
numbers are what `toDouble` makes of theirs, `text` and `echoMode` are `none` where not valid. -/
structure Item (ι Double : Type) where
  objectName : String
  parent : Option ι
  x : Double
  y : Double
  width : Double
  height : Double
  text : Option QString
  echoMode : Option ℤ

/-- The objects of an engine, and the tree of each view that was installed. -/
structure Scene (ι Double : Type) where
  object : ι → Item ι Double
  view : ℕ → Tree ι

inductive QJsonValue (Double : Type) where
  | bool (b : Bool)
  | double (d : Double)
  | string (s : QString)
deriving DecidableEq

/-- The members, in the order in which they are inserted. -/
abbrev QJsonObject (Double : Type) := List (String × QJsonValue Double)

section

variable {ι Double : Type}

def Scene.parent (scene : Scene ι Double) (node : ι) : Option ι := (scene.object node).parent

def Tree.object : Tree ι → ι
  | .node object _ => object

mutual

/-- `findChild`: the children of an object before the children of any of them. -/
def Tree.findChild (p : ι → Bool) : Tree ι → Option ι
  | .node _ children => ((children.map Tree.object).find? p).or (findGrandchild p children)

def findGrandchild (p : ι → Bool) : List (Tree ι) → Option ι
  | [] => none
  | child :: children => (child.findChild p).or (findGrandchild p children)

end

namespace Runtime

/-- A view that was deleted reads as null. -/
def moduleView (moduleName : String) (s : Runtime) : Option ℕ :=
  (s.views.lookup moduleName).filter s.viewAlive

/-- The item `describeItem` describes.  A null `handle`, here `none`, is the name of any child. -/
def item (scene : Scene ι Double) (moduleName : String) (handle : Option String) (s : Runtime) :
    Option ι :=
  match s.moduleView moduleName with
  | none => none
  | some n =>
      let view := scene.view n
      if (scene.object view.object).objectName = handle.getD "" then some view.object
      else view.findChild fun object =>
        handle.elim true fun handle => (scene.object object).objectName = handle

/-- What is said of the text: of a masked one its length only. -/
def describeText (object : Item ι Double) : QJsonObject Double :=
  if object.echoMode.any (· ≠ 0) then
    [("text", .string (QStringLiteral
      (toString (object.text.getD []).length ++ " character(s)")))]
  else
    match object.text with
    | none => []
    | some text => [("text", .string text)]

/-- A round of the loop: an object's `x` and `y` are added to those so far. -/
def addPosition [Add Double] (scene : Scene ι Double) (position : Double × Double) (node : ι) :
    Double × Double :=
  (position.1 + (scene.object node).x, position.2 + (scene.object node).y)

/-- `describeItem`, of whose loop `fuel` rounds are run at most. -/
def describeItem [Zero Double] [Add Double] (scene : Scene ι Double) (fuel : ℕ)
    (moduleName : String) (handle : Option String) (s : Runtime) : Option (QJsonObject Double) :=
  match s.item scene moduleName handle with
  | none => some [("found", .bool false)]
  | some item =>
      let object := scene.object item
      (loop scene.parent (addPosition scene) fuel (some item) (0, 0)).map fun position =>
        [("found", .bool true), ("x", .double position.1), ("y", .double position.2),
          ("width", .double object.width), ("height", .double object.height)] ++ describeText object

end Runtime

/-! ### When it answers -/

/-- The sum of a coordinate over objects, in their order. -/
def Scene.sum [Zero Double] [Add Double] (scene : Scene ι Double) (coordinate : Item ι Double → Double)
    (nodes : List ι) : Double :=
  nodes.foldl (fun sum node => sum + coordinate (scene.object node)) 0

variable [Zero Double] [Add Double] (scene : Scene ι Double) (s : Runtime) (moduleName : String)
  (handle : Option String)

/-- The two sums are taken side by side. -/
theorem foldl_addPosition (nodes : List ι) :
    nodes.foldl (Runtime.addPosition scene) (0, 0) =
      (scene.sum (·.x) nodes, scene.sum (·.y) nodes) := by
  have h : ∀ position : Double × Double, nodes.foldl (Runtime.addPosition scene) position =
      (nodes.foldl (fun sum node => sum + (scene.object node).x) position.1,
        nodes.foldl (fun sum node => sum + (scene.object node).y) position.2) := by
    induction nodes with
    | nil => exact fun _ => rfl
    | cons node nodes ih => exact fun _ => ih _
  exact h (0, 0)

/-- What is said of an item that is at the end of a chain of parents. -/
structure Describes (item : ι) (answer : QJsonObject Double) (chain : List ι) : Prop where
  upwards : Chain scene.parent item chain
  once : chain.Nodup
  x : answer.lookup "x" = some (.double (scene.sum (·.x) chain))
  y : answer.lookup "y" = some (.double (scene.sum (·.y) chain))

variable {scene s moduleName handle}

/-- An answer about an item sums over its chain of parents. -/
theorem describes_of_answer {fuel : ℕ} {item : ι} {answer : QJsonObject Double}
    (hitem : s.item scene moduleName handle = some item)
    (h : s.describeItem scene fuel moduleName handle = some answer) :
    ∃ chain, Describes scene item answer chain := by
  rw [Runtime.describeItem, hitem] at h
  obtain ⟨position, hloop, rfl⟩ := Option.map_eq_some_iff.mp h
  obtain ⟨chain, hchain, rfl⟩ := chain_of_loop hloop
  rw [foldl_addPosition]
  exact ⟨chain, hchain, hchain.nodup, rfl, rfl⟩

/-- Where there is a chain of parents there is an answer. -/
theorem answer_of_chain {item : ι} (hitem : s.item scene moduleName handle = some item)
    {chain : List ι} (hchain : Chain scene.parent item chain) :
    ∃ answer, s.describeItem scene chain.length moduleName handle = some answer := by
  rw [Runtime.describeItem, hitem]
  dsimp only
  rw [hchain.loop (Nat.le_refl _), Option.map_some]
  exact ⟨_, rfl⟩

variable (scene s moduleName handle) in
/-- `describeItem` answers exactly if no object is met twice on the way from the item it finds up
the `parent` properties, and what it then says of an item sums over the objects met. -/
theorem describeItem_answers_iff [Finite ι] :
    ((∃ fuel answer, s.describeItem scene fuel moduleName handle = some answer) ↔
      ∀ item, s.item scene moduleName handle = some item → Acyclic scene.parent item) ∧
    ∀ fuel answer, s.describeItem scene fuel moduleName handle = some answer →
      ∀ item, s.item scene moduleName handle = some item →
        ∃ chain, Describes scene item answer chain := by
  refine ⟨?_, fun fuel answer h item hitem => describes_of_answer hitem h⟩
  constructor
  · rintro ⟨fuel, answer, h⟩ item hitem
    obtain ⟨chain, hdescribes⟩ := describes_of_answer hitem h
    exact hdescribes.upwards.acyclic
  · intro hacyclic
    cases hitem : s.item scene moduleName handle with
    | none => exact ⟨0, [("found", .bool false)], by rw [Runtime.describeItem, hitem]⟩
    | some item =>
        obtain ⟨chain, hchain⟩ := chain_iff_acyclic.mpr (hacyclic item hitem)
        exact ⟨chain.length, answer_of_chain hitem hchain⟩

end

/-! ### Two documents -/

/-- An object with an extent of its own and no text. -/
def plainItem {ι : Type} (objectName : String) (parent : Option ι) (x y : ℕ) : Item ι ℕ :=
  { objectName, parent, x, y, width := 460, height := 760, text := none, echoMode := none }

/-- A root and a field in it whose `parent` is the root. -/
def formScene : Scene Bool ℕ where
  object
    | false => plainItem "walletRoot" none 0 0
    | true => plainItem "advAcctLabelField" (some false) 24 271
  view _ := .node false [.node true []]

/-- A root whose `parent` is itself. -/
def selfParentScene : Scene Unit ℕ where
  object _ := plainItem "walletRoot" (some ()) 0 0
  view _ := .node () []

/-- A view is installed. -/
theorem installed : ∃ tr s, (machine true).Run Machine.always tr s ∧
    s.moduleView "wallet_ui" = some 0 := by
  have h := Machine.exec_run (M := machine true) (G := Machine.always)
    [.installModuleView "wallet_ui" none, .created, .returned, .returned] rfl
  exact ⟨_, _, h, rfl⟩

/-- The field of an installed form is found where it is in the window. -/
theorem describeItem_sums_the_form :
    ∃ tr s, (machine true).Run Machine.always tr s ∧ ∃ fuel answer,
      s.describeItem formScene fuel "wallet_ui" (some "advAcctLabelField") = some answer ∧
      answer.lookup "x" = some (.double 24) ∧ answer.lookup "y" = some (.double 271) := by
  obtain ⟨tr, s, h, hview⟩ := installed
  have hitem : s.item formScene "wallet_ui" (some "advAcctLabelField") = some true := by
    rw [Runtime.item, hview]
    rfl
  have hchain : Chain formScene.parent true [true, false] := .link rfl (.last rfl)
  obtain ⟨hanswers, hdescribes⟩ := describeItem_answers_iff formScene s "wallet_ui"
    (some "advAcctLabelField")
  obtain ⟨fuel, answer, hanswer⟩ := hanswers.mpr fun item hfound => by
    obtain rfl := Option.some.inj (hitem.symm.trans hfound)
    exact hchain.acyclic
  obtain ⟨chain, hsum⟩ := hdescribes fuel answer hanswer true hitem
  obtain rfl := hsum.upwards.unique hchain
  exact ⟨tr, s, h, fuel, answer, hanswer, hsum.x, hsum.y⟩

/-- A query for the root that is its own parent gets no answer, however long it runs. -/
theorem describeItem_of_own_parent_runs_on :
    ∃ tr s, (machine true).Run Machine.always tr s ∧
      ∀ fuel, s.describeItem selfParentScene fuel "wallet_ui" (some "walletRoot") = none := by
  obtain ⟨tr, s, h, hview⟩ := installed
  have hitem : s.item selfParentScene "wallet_ui" (some "walletRoot") = some () := by
    rw [Runtime.item, hview]
    rfl
  refine ⟨tr, s, h, fun fuel => ?_⟩
  by_contra hanswer
  obtain ⟨answer, hanswer⟩ := Option.ne_none_iff_exists'.mp hanswer
  obtain ⟨chain, hdescribes⟩ := describes_of_answer hitem hanswer
  have hsame := hdescribes.upwards.acyclic 0 1 () rfl rfl
  cases hsame

end LogosViewRuntime.WebRuntime
