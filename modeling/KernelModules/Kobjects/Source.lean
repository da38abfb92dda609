import KernelModules.Kernel

/-!
# The attributes of the kobject example

Model of the show and store functions of `kobjects.c`. The attribute `foo` has its own pair of
functions; `baz` and `bar` share `b_show` and `b_store`, which look at the name of the attribute.

`b_store` does not set its local variable `var` before it calls `sscanf`, and does not look at the
result of the call. What `var` holds at that moment is the argument `junk`. The format is `"%du"`:
the letter behind the conversion stores nothing.

C → Lean naming: `foo_show` → `fooShow`, `foo_store` → `fooStore`, `b_show` → `bShow`, `b_store` →
`bStore`.
-/

namespace KernelModules.Kobjects

/-- The static variables. -/
structure Attrs where
  foo : Buf UInt8 10
  baz : BitVec 32
  bar : BitVec 32

/-- The static variables when the module is loaded. -/
def Attrs.init : Attrs := ⟨.filled 10 0, 0, 0⟩

/-- The attributes that `b_show` and `b_store` serve. -/
inductive BAttribute where
  | baz
  | bar
  deriving Repr, DecidableEq

/-- The name of an attribute (C `attr->attr.name`). -/
def BAttribute.name : BAttribute → String
  | baz => "baz"
  | bar => "bar"

/-- What is shown for `foo` (C `foo_show`). -/
def fooShow (s : Attrs) : Option (List UInt8) := sprintfLine s.foo

/-- A store to `foo` (C `foo_store`): the variables and the value returned. -/
def fooStore (s : Attrs) (buf : List UInt8) : Option (Attrs × Nat) := do
  let foo ← sscanfWord buf s.foo
  some ({ s with foo }, buf.length)

/-- What is shown for `baz` or `bar` (C `b_show`). -/
def bShow (s : Attrs) (attr : BAttribute) : List UInt8 :=
  let var := if attr.name = "baz" then s.baz else s.bar
  sprintfInt var

/-- A store to `baz` or `bar` (C `b_store`): the variables and the value returned. -/
def bStore (s : Attrs) (attr : BAttribute) (junk : BitVec 32) (buf : List UInt8) : Attrs × Nat :=
  let var := sscanfInt buf junk
  (if attr.name = "baz" then { s with baz := var } else { s with bar := var }, buf.length)

end KernelModules.Kobjects
