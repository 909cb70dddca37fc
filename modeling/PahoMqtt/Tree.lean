import PahoMqtt.LinkedList

/-!
# Red-black trees

The trees of Tree.c on the memory that their nodes are in.  A step that goes
through a NULL pointer or to a node that is not allocated has no result, and
neither has a loop that does not end.

`direction`, `which` and `left` are indexes of `child`: `false` is 0 and `true`
is 1.
-/

namespace PahoMqtt

/-- A tree has up to two indexes. -/
instance twoIndexes : NeZero 2 := ⟨by decide⟩

/-- `NodeStruct`; NULL is `none`, and `content` is not NULL. -/
structure Node (α : Type) where
  parent : Option Addr
  child : Bool → Option Addr
  content : α
  size : UInt64
  red : Bool

/--
`Tree`, with the memory of its nodes.  A comparison gets a content and what it is
compared with, a content or a key; `allocated` is the number of nodes in the memory.
-/
structure Tree (α κ : Type) where
  node : Addr → Option (Node α)
  allocated : Nat
  root : Fin 2 → Option Addr
  compare : Fin 2 → Option (α → α ⊕ κ → Int)
  indexes : Nat
  count : Int32
  size : UInt64
  allow_duplicates : Bool

/-- The node that `TreeBalanceAfterRemove` is at; `temp` stands for a child that is NULL. -/
inductive CurrentNode where
  | node (addr : Addr)
  | temp (parent : Addr)
deriving DecidableEq

/-- `(curnode->content) ? curnode : NULL` -/
def CurrentNode.pointer : CurrentNode → Option Addr
  | .node addr => some addr
  | .temp _ => none

namespace Tree

variable {α κ : Type}

abbrev LEFT : Bool := false

abbrev RIGHT : Bool := true

/-- `TreeInitialize` -/
def TreeInitialize (compare : α → α ⊕ κ → Int) : Tree α κ where
  node _ := none
  allocated := 0
  root _ := none
  compare := Function.update (fun _ => none) 0 (some compare)
  indexes := 1
  count := 0
  size := 0
  allow_duplicates := false

/-! ### Assignments -/

/-- Write a whole node. -/
def write (t : Tree α κ) (addr : Addr) (n : Node α) : Tree α κ :=
  { t with node := Function.update t.node addr (some n) }

/-- `addr->child[which] = value` -/
def setChild (t : Tree α κ) (addr : Addr) (which : Bool) (value : Option Addr) :
    Option (Tree α κ) := do
  let n ← t.node addr
  pure (t.write addr { n with child := Function.update n.child which value })

/-- `addr->parent = value` -/
def setParent (t : Tree α κ) (addr : Addr) (value : Option Addr) : Option (Tree α κ) := do
  let n ← t.node addr
  pure (t.write addr { n with parent := value })

/-- `addr->red = value` -/
def setRed (t : Tree α κ) (addr : Addr) (value : Bool) : Option (Tree α κ) := do
  let n ← t.node addr
  pure (t.write addr { n with red := value })

/-- `aTree->index[index].root = value` -/
def setRoot (t : Tree α κ) (index : Fin 2) (value : Option Addr) : Tree α κ :=
  { t with root := Function.update t.root index value }

/-- `child->parent = value`, unless the child is NULL. -/
def setChildParent (t : Tree α κ) (child value : Option Addr) : Option (Tree α κ) :=
  match child with
  | none => pure t
  | some child => t.setParent child value

/-- The pointer to the node `old`, in its parent or in the tree, becomes `value`. -/
def relink (t : Tree α κ) (index : Fin 2) (parent : Option Addr) (which : Bool) (old : Addr)
    (value : Option Addr) : Option (Tree α κ) :=
  match parent with
  | none => pure (t.setRoot index value)
  | some parent => do
      if (← t.node parent).child which = some old then
        t.setChild parent which value
      else
        t.setChild parent (!which) value

/-! ### Adding -/

def isRed (t : Tree α κ) : Option Addr → Option Bool
  | none => pure false
  | some aNode => do pure (← t.node aNode).red

def isBlack (t : Tree α κ) : Option Addr → Option Bool
  | none => pure true
  | some aNode => do pure (!(← t.node aNode).red)

def TreeRotate (t : Tree α κ) (curnode : Addr) (direction : Bool) (index : Fin 2) :
    Option (Tree α κ) := do
  let other ← (← t.node curnode).child !direction
  let middle := (← t.node other).child direction
  let t ← t.setChild curnode (!direction) middle
  let t ← t.setChildParent middle (some curnode)
  let parent := (← t.node curnode).parent
  let t ← t.setParent other parent
  let t ← t.relink index parent direction curnode (some other)
  let t ← t.setChild other direction (some curnode)
  t.setParent curnode (some other)

/-- The end of `TreeBAASub`, where the uncle is black. -/
def rotateGrandparent (t : Tree α κ) (curnode : Addr) (which : Bool) (index : Fin 2) :
    Option (Tree α κ) := do
  let parent ← (← t.node curnode).parent
  let t ← t.setRed parent false
  let grandparent ← (← t.node parent).parent
  let t ← t.setRed grandparent true
  t.TreeRotate grandparent which index

def TreeBAASub (t : Tree α κ) (curnode : Addr) (which : Bool) (index : Fin 2) :
    Option (Addr × Tree α κ) := do
  let parent ← (← t.node curnode).parent
  let grandparent ← (← t.node parent).parent
  let uncle := (← t.node grandparent).child which
  if ← t.isRed uncle then
    let uncle ← uncle
    let t ← t.setRed uncle false
    let t ← t.setRed parent false
    let t ← t.setRed grandparent true
    pure (grandparent, t)
  else if (← t.node parent).child which = some curnode then
    let t ← t.TreeRotate parent (!which) index
    pure (parent, ← t.rotateGrandparent parent which index)
  else
    pure (curnode, ← t.rotateGrandparent curnode which index)

/-- The loop of `TreeBalanceAfterAdd`. -/
def balanceAfterAdd (index : Fin 2) : Nat → Tree α κ → Addr → Option (Tree α κ)
  | 0, _, _ => none
  | fuel + 1, t, curnode => do
      let parent := (← t.node curnode).parent
      if ← t.isRed parent then
        let parent ← parent
        match (← t.node parent).parent with
        | none => pure t
        | some grandparent =>
            if (← t.node grandparent).child LEFT = some parent then
              let (curnode, t) ← t.TreeBAASub curnode RIGHT index
              balanceAfterAdd index fuel t curnode
            else
              let (curnode, t) ← t.TreeBAASub curnode LEFT index
              balanceAfterAdd index fuel t curnode
      else pure t

def TreeBalanceAfterAdd (t : Tree α κ) (curnode : Addr) (index : Fin 2) :
    Option (Tree α κ) := do
  let t ← balanceAfterAdd index (t.allocated + 1) t curnode
  t.setRed (← t.root index) false

/-- Where the search of `TreeAddByIndex` ends. -/
structure SearchEnd where
  curparent : Option Addr
  left : Bool
  curnode : Option Addr
  result : Int

/-- The loop of `TreeAddByIndex`. -/
def searchPlace (t : Tree α κ) (compare : α → α ⊕ κ → Int) (content : α) :
    Nat → SearchEnd → Option SearchEnd
  | 0, _ => none
  | fuel + 1, place =>
      match place.curnode with
      | none => pure place
      | some curnode => do
          let n ← t.node curnode
          let result := compare n.content (.inl content)
          let left : Bool := result > 0
          if result = 0 then
            pure { place with left, result }
          else
            t.searchPlace compare content fuel ⟨some curnode, left, n.child left, result⟩

/-- The new node becomes a child, or the root. -/
def hang (t : Tree α κ) (index : Fin 2) (curparent : Option Addr) (left : Bool) (newel : Addr) :
    Option (Tree α κ) :=
  match curparent with
  | some curparent => t.setChild curparent left (some newel)
  | none => pure (t.setRoot index (some newel))

/-- `TreeAddByIndex`, with what `malloc` returns for the new node. -/
def TreeAddByIndex (t : Tree α κ) (content : α) (size : UInt64) (newel : Option Addr)
    (index : Fin 2) : Option (Option α × Tree α κ) := do
  let compare ← t.compare index
  let place ← t.searchPlace compare content (t.allocated + 1) ⟨none, LEFT, t.root index, 1⟩
  if place.result = 0 then
    if t.allow_duplicates then
      pure (none, t)
    else
      let newel ← place.curnode
      let n ← t.node newel
      let t := if index = 0 then { t with size := t.size + (size - n.size) } else t
      let t := t.write newel { n with content, size }
      pure (some content, ← t.TreeBalanceAfterAdd newel index)
  else
    match newel with
    | none => pure (none, t)
    | some newel =>
        let t := { t with allocated := t.allocated + 1 }
        let t := t.write newel
          { parent := place.curparent, child := fun _ => none, content, size, red := true }
        let t ← t.hang index place.curparent place.left newel
        let t := if index = 0 then { t with count := t.count + 1, size := t.size + size } else t
        pure (some content, ← t.TreeBalanceAfterAdd newel index)

/-- `TreeAdd`, with what `malloc` returns for each index. -/
def TreeAdd (t : Tree α κ) (content : α) (size : UInt64) (newel : Fin 2 → Option Addr) :
    Option (Option α × Tree α κ) :=
  ((List.finRange 2).take t.indexes).foldlM
    (fun (_, t) index => t.TreeAddByIndex content size (newel index) index) (none, t)

/-! ### Finding -/

/-- The loop of `TreeFindIndex1`. -/
def findFrom (t : Tree α κ) (compare : α → α ⊕ κ → Int) (key : α ⊕ κ) :
    Nat → Option Addr → Option (Option Addr)
  | 0, _ => none
  | _ + 1, none => pure none
  | fuel + 1, some curnode => do
      let n ← t.node curnode
      let result := compare n.content key
      if result = 0 then pure (some curnode)
      else t.findFrom compare key fuel (n.child (result > 0))

def TreeFindIndex1 (t : Tree α κ) (key : α ⊕ κ) (index : Fin 2) : Option (Option Addr) := do
  t.findFrom (← t.compare index) key (t.allocated + 1) (t.root index)

def TreeFindIndex (t : Tree α κ) (key : κ) (index : Fin 2) : Option (Option Addr) :=
  t.TreeFindIndex1 (.inr key) index

def TreeFindContentIndex (t : Tree α κ) (content : α) (index : Fin 2) : Option (Option Addr) :=
  t.TreeFindIndex1 (.inl content) index

def TreeFind (t : Tree α κ) (key : κ) : Option (Option Addr) :=
  t.TreeFindIndex key 0

/-- The loop of `TreeMinimum`. -/
def minimumFrom (t : Tree α κ) : Nat → Addr → Option Addr
  | 0, _ => none
  | fuel + 1, curnode => do
      match (← t.node curnode).child LEFT with
      | none => pure curnode
      | some child => t.minimumFrom fuel child

def TreeMinimum (t : Tree α κ) : Option Addr → Option (Option Addr)
  | none => pure none
  | some curnode => do pure (some (← t.minimumFrom (t.allocated + 1) curnode))

/-- The loop of `TreeSuccessor`. -/
def climb (t : Tree α κ) : Nat → Addr → Option Addr → Option (Option Addr)
  | 0, _, _ => none
  | _ + 1, _, none => pure none
  | fuel + 1, curnode, some curparent => do
      let n ← t.node curparent
      if n.child RIGHT = some curnode then t.climb fuel curparent n.parent
      else pure (some curparent)

def TreeSuccessor (t : Tree α κ) (curnode : Addr) : Option (Option Addr) := do
  let n ← t.node curnode
  match n.child RIGHT with
  | some child => t.TreeMinimum (some child)
  | none => t.climb (t.allocated + 1) curnode n.parent

def TreeNextElementIndex (t : Tree α κ) (curnode : Option Addr) (index : Fin 2) :
    Option (Option Addr) :=
  match curnode with
  | none => t.TreeMinimum (t.root index)
  | some curnode => t.TreeSuccessor curnode

def TreeNextElement (t : Tree α κ) (curnode : Option Addr) : Option (Option Addr) :=
  t.TreeNextElementIndex curnode 0

/-! ### Removing -/

/-- `curnode->parent` -/
def parentOf (t : Tree α κ) : CurrentNode → Option (Option Addr)
  | .node addr => do pure (← t.node addr).parent
  | .temp parent => pure (some parent)

/-- The first part of `TreeBARSub`, with the sibling that it ends with. -/
def rotateRedSibling (t : Tree α κ) (curnode : CurrentNode) (which : Bool) (index : Fin 2) :
    Option (Option Addr × Tree α κ) := do
  let parent ← (← t.parentOf curnode)
  let sibling := (← t.node parent).child which
  if ← t.isRed sibling then
    let sibling ← sibling
    let t ← t.setRed sibling false
    let t ← t.setRed parent true
    let t ← t.TreeRotate parent (!which) index
    let parent ← (← t.parentOf curnode)
    pure ((← t.node parent).child which, t)
  else pure (sibling, t)

/-- `TreeBARSub` where a child of the sibling is red: that on the side `which` becomes red. -/
def rotateSibling (t : Tree α κ) (curnode : CurrentNode) (sibling : Addr) (which : Bool)
    (index : Fin 2) : Option (Addr × Tree α κ) := do
  if ← t.isBlack ((← t.node sibling).child which) then
    let child ← (← t.node sibling).child !which
    let t ← t.setRed child false
    let t ← t.setRed sibling true
    let t ← t.TreeRotate sibling which index
    let parent ← (← t.parentOf curnode)
    let sibling ← (← t.node parent).child which
    pure (sibling, t)
  else pure (sibling, t)

/-- The last rotation of `TreeBARSub`. -/
def rotateParent (t : Tree α κ) (curnode : CurrentNode) (sibling : Addr) (which : Bool)
    (index : Fin 2) : Option (Tree α κ) := do
  let parent ← (← t.parentOf curnode)
  let t ← t.setRed sibling (← t.node parent).red
  let t ← t.setRed parent false
  let child ← (← t.node sibling).child which
  let t ← t.setRed child false
  t.TreeRotate parent (!which) index

def TreeBARSub (t : Tree α κ) (curnode : CurrentNode) (which : Bool) (index : Fin 2) :
    Option (Addr × Tree α κ) := do
  let (sibling, t) ← t.rotateRedSibling curnode which index
  let parent ← (← t.parentOf curnode)
  match sibling with
  | none => pure (parent, t)
  | some sibling =>
      let n ← t.node sibling
      if (← t.isBlack (n.child !which)) && (← t.isBlack (n.child which)) then
        let t ← t.setRed sibling true
        pure (parent, t)
      else
        let (sibling, t) ← t.rotateSibling curnode sibling which index
        let t ← t.rotateParent curnode sibling which index
        pure (← t.root index, t)

/-- `curnode != aTree->index[index].root && isBlack(curnode)` -/
def isUnsettled (t : Tree α κ) (index : Fin 2) : CurrentNode → Option Bool
  | .node addr =>
      if t.root index = some addr then pure false else t.isBlack (some addr)
  | .temp _ => pure true

/-- The loop of `TreeBalanceAfterRemove`. -/
def balanceAfterRemove (index : Fin 2) :
    Nat → Tree α κ → CurrentNode → Option (CurrentNode × Tree α κ)
  | 0, _, _ => none
  | fuel + 1, t, curnode => do
      if ← t.isUnsettled index curnode then
        let parent ← (← t.parentOf curnode)
        if curnode.pointer = (← t.node parent).child LEFT then
          let (curnode, t) ← t.TreeBARSub curnode RIGHT index
          balanceAfterRemove index fuel t (.node curnode)
        else
          let (curnode, t) ← t.TreeBARSub curnode LEFT index
          balanceAfterRemove index fuel t (.node curnode)
      else pure (curnode, t)

def TreeBalanceAfterRemove (t : Tree α κ) (curnode : CurrentNode) (index : Fin 2) :
    Option (Tree α κ) := do
  match ← balanceAfterRemove index (t.allocated + 1) t curnode with
  | (.node addr, t) => t.setRed addr false
  | (.temp _, t) => pure t

/-- `free` -/
def free (t : Tree α κ) (addr : Addr) : Option (Tree α κ) := do
  let _ ← t.node addr
  pure { t with node := Function.update t.node addr none, allocated := t.allocated - 1 }

/-- The node that `TreeRemoveNodeIndex` takes out for a node. -/
def redundantFor (t : Tree α κ) (curnode : Addr) : Option Addr := do
  let n ← t.node curnode
  if (n.child LEFT).isSome && (n.child RIGHT).isSome then ← t.TreeSuccessor curnode
  else pure curnode

/-- The balancing of `TreeRemoveNodeIndex`, when a node with this colour has been taken out. -/
def balanceAfterUnlink (t : Tree α κ) (red : Bool) (curchild parent : Option Addr)
    (index : Fin 2) : Option (Tree α κ) :=
  if red then pure t
  else
    match curchild, parent with
    | some curchild, _ => t.TreeBalanceAfterRemove (.node curchild) index
    | none, some parent => t.TreeBalanceAfterRemove (.temp parent) index
    | none, none => pure t

def TreeRemoveNodeIndex (t : Tree α κ) (curnode : Addr) (index : Fin 2) :
    Option (α × Tree α κ) := do
  let n ← t.node curnode
  let redundant ← t.redundantFor curnode
  let r ← t.node redundant
  let curchild := r.child (if (r.child LEFT).isSome then LEFT else RIGHT)
  let t ← t.setChildParent curchild r.parent
  let t ← t.relink index r.parent LEFT redundant curchild
  let current ← t.node curnode
  let t :=
    if redundant ≠ curnode then
      t.write curnode { current with content := r.content, size := r.size }
    else t
  let t ← t.balanceAfterUnlink r.red curchild r.parent index
  let t ← t.free redundant
  let t := if index = 0 then { t with size := t.size - n.size, count := t.count - 1 } else t
  pure (n.content, t)

def TreeRemoveIndex (t : Tree α κ) (content : α) (index : Fin 2) :
    Option (Option α × Tree α κ) := do
  match ← t.TreeFindContentIndex content index with
  | none => pure (none, t)
  | some curnode => do
      let (content, t) ← t.TreeRemoveNodeIndex curnode index
      pure (some content, t)

def TreeRemove (t : Tree α κ) (content : α) : Option (Option α × Tree α κ) :=
  ((List.finRange 2).take t.indexes).foldlM
    (fun (_, t) index => t.TreeRemoveIndex content index) (none, t)

def TreeRemoveKeyIndex (t : Tree α κ) (key : κ) (index : Fin 2) :
    Option (Option α × Tree α κ) := do
  match ← t.TreeFindIndex key index with
  | none => pure (none, t)
  | some curnode => do
      let (content, t) ← t.TreeRemoveNodeIndex curnode index
      ((List.finRange 2).take t.indexes).foldlM
        (fun (content, t) i =>
          match content with
          | some content =>
              if i ≠ index then t.TreeRemoveIndex content i else pure (some content, t)
          | none => pure (none, t))
        (some content, t)

def TreeRemoveKey (t : Tree α κ) (key : κ) : Option (Option α × Tree α κ) :=
  t.TreeRemoveKeyIndex key 0

/-- `TreeIntCompare` -/
def TreeIntCompare (a : Int) (b : Int ⊕ Int) : Int :=
  let j := b.elim id id
  if a > j then -1 else if a = j then 0 else 1

end Tree
end PahoMqtt
