import KernelModules.Base.ListHead
import KernelModules.Base.Run

/-!
# The list of `kernel_linked_list.c`

The module has one static object, `mylist`, whose member `list` is the head of a list; `hello_init`
puts five nodes from `kmalloc` on it and prints them, and `hello_exit` takes the head off its list.

A `Kernel` has all objects of type `struct kool_list` in one heap: `mylist` at an address of its own
while the module is loaded, and the nodes. A `load` places `mylist` and calls `hello_init`, an
`unload` calls `hello_exit` and gives back the memory of the module. The addresses that `kmalloc`
returns come with the event; when they are used up, it returns `NULL`, which `hello_init` does not
test for. The member `list2` is never used.

C → Lean naming: `to` / `from` → `to_` / `from_`, `hello_init` / `hello_exit` → `helloInit` /
`helloExit`. The body of the first loop is `addNode`, with the counter as an argument.
-/

namespace KernelModules.LinkedList

/-- C `struct kool_list` -/
structure KoolList where
  to_ : BitVec 32
  list : Links
  from_ : BitVec 32
  deriving Repr, DecidableEq

/-- The member `list` of a node. -/
def list : Member KoolList (BitVec 32 × BitVec 32) where
  links v := v.list
  setLinks k v := { v with list := k }
  rest v := (v.to_, v.from_)
  links_setLinks _ _ := rfl
  rest_setLinks _ _ := rfl

/-- What the module logs. -/
inductive Line where
  | helloWorld                           -- Hello World!
  | toFrom (to_ from_ : BitVec 32)       -- to= %d from= %d
  | goodBye                              -- Good bye!
  deriving Repr, DecidableEq

/-- A new object at an address that holds none. -/
def place (h : Heap KoolList) (l : Loc) (v : KoolList) : Option (Heap KoolList) :=
  if free : h.get l = none then some (h.alloc l v free) else none

/-- The loop body `tmp = kmalloc(...); ...; __list_add(...)` for the counter `i`. -/
def addNode (mylist : Loc) (h : Heap KoolList) (i : Nat) (tmp : Loc) (junk : KoolList) :
    Option (Heap KoolList) := do
  let h ← place h tmp junk
  let node ← h.get tmp
  let h :=
    h.set tmp { node with to_ := BitVec.ofNat 32 (10 + i), from_ := BitVec.ofNat 32 (20 * i) }
  let next ← list.next h mylist
  list.listAdd h tmp mylist next

/-- The loop `for (i = n; i != 0; --i)` -/
def addNodes (mylist : Loc) : Nat → List (Loc × KoolList) → Heap KoolList → Option (Heap KoolList)
  | 0, _, h => some h
  | i + 1, (tmp, junk) :: answers, h => do
    let h ← addNode mylist h (i + 1) tmp junk
    addNodes mylist i answers h
  | _ + 1, [], _ => none      -- tmp->to with tmp == NULL

/-- C `hello_init` -/
def helloInit (mylist : Loc) (answers : List (Loc × KoolList)) (h : Heap KoolList) :
    Option (Heap KoolList × List Line) := do
  let h ← list.initListHead h mylist
  let h ← addNodes mylist 5 answers h
  let lines ← list.listForEach h mylist fun pos => do
    let tmp ← h.get pos
    some [.toFrom tmp.to_ tmp.from_]
  some (h, .helloWorld :: lines)

/-- C `hello_exit` -/
def helloExit (mylist : Loc) (h : Heap KoolList) : Option (Heap KoolList × List Line) := do
  let h ← list.listDel h mylist
  some (h, [.goodBye])

/-- The objects, the address of `mylist` while the module is loaded, and the log. -/
structure Kernel where
  heap : Heap KoolList
  mylist : Option Loc
  log : List Line

/-- Nothing has been loaded yet. -/
def Kernel.boot : Kernel := ⟨.empty, none, []⟩

/-- What is done with the module: loading places `mylist`, with zeros, and has the answers of
    `kmalloc`. -/
inductive Event where
  | load (mylist : Loc) (answers : List (Loc × KoolList))
  | unload
  deriving Repr, DecidableEq

/-- One step. -/
def step (k : Kernel) : Event → Option Kernel
  | .load mylist answers =>
    if k.mylist = none then do
      let h ← place k.heap mylist ⟨0, ⟨0, 0⟩, 0⟩
      let (h, lines) ← helloInit mylist answers h
      some ⟨h, some mylist, k.log ++ lines⟩
    else none
  | .unload => do
    let mylist ← k.mylist
    let (h, lines) ← helloExit mylist k.heap
    some ⟨h.free mylist, none, k.log ++ lines⟩

end KernelModules.LinkedList
