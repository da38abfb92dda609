import KernelModules.Kernel

/-!
# The accumulator of `/proc/simacc`

Model of `file_proc.c`: a write copies its bytes into the static `input_buf`, stores a terminator
behind them, adds up the decimal numbers in the buffer and keeps the sum as text; a read returns the
text.

The source spells the terminator as a character constant of several characters. As an `int` it is
`0x2334383B`; stored into a `char` it becomes `;`, and no `char` compares equal to it, so that the
test `c != terminator` of the loop holds for every byte. `char` is signed.

`unsigned long` is a 64-bit word. The loop of `simacc_write` is `scanLoop`; its first argument
bounds the number of iterations.

C → Lean naming: `simacc_write` → `simaccWrite`, `simacc_read` → `simaccRead`, `init_simacc` →
`Acc.init`, `input_buf` → `Acc.inputBuf`, `result` → `Acc.result`.
-/

namespace KernelModules.Simacc

/-- `MAX_INPUT_SIZE` -/
def maxInputSize : Nat := 1024

/-- The character constant that is meant to be a NUL. -/
def terminator : Int := 0x2334383B

/-- An `int` stored into a `char`. -/
def toChar (i : Int) : UInt8 := UInt8.ofBitVec (BitVec.ofInt 8 i)

/-- A `char` as an `int`. -/
def charInt (c : UInt8) : Int := c.toBitVec.toInt

/-- The static variables; `result` is the text up to its NUL. -/
structure Acc where
  inputBuf : Buf UInt8 maxInputSize
  result : List Char

/-- The static variables after `init_simacc`. The second byte of `result` is not a NUL either: the
    text ends at the zero behind it. -/
def Acc.init : Acc :=
  ⟨(Buf.filled maxInputSize 0).poke (maxInputSize - 1) (toChar terminator), ['0', ';']⟩

/-- The local variables `num` and `sum` of `simacc_write`. -/
structure Scan where
  num : BitVec 64
  sum : BitVec 64
  deriving Repr, DecidableEq

/-- The body of the loop for the byte `c`. -/
def Scan.feed (s : Scan) (c : UInt8) : Scan :=
  if 48 ≤ charInt c ∧ charInt c ≤ 57 then
    { s with num := s.num * 10 + BitVec.ofInt 64 (charInt c) - 48 }
  else ⟨0, s.sum + s.num⟩

/-- The loop of `simacc_write` from the index `i` on. -/
def scanLoop (buf : Buf UInt8 maxInputSize) : Nat → Nat → Scan → Option Scan
  | 0, _, _ => none
  | fuel + 1, i, s => do
    let c ← buf.toList[i]?
    if charInt c ≠ terminator ∧ i + 1 < maxInputSize then scanLoop buf fuel (i + 1) (s.feed c)
    else some (s.feed c)

/-- The sum of the numbers in the buffer. -/
def scan (buf : Buf UInt8 maxInputSize) : Option (BitVec 64) :=
  (scanLoop buf maxInputSize 0 ⟨0, 0⟩).map Scan.sum

/-- A write (C `simacc_write`) of the bytes `src`, of which `copy_from_user` cannot copy `left`: the
    static variables, the value of `sum` if it gets that far, and the value returned. -/
def simaccWrite (a : Acc) (src : List UInt8) (left : Nat) :
    Option (Acc × Option (BitVec 64) × Int) :=
  let len := if src.length > maxInputSize then maxInputSize else src.length
  let copied := copyFromUser a.inputBuf 0 src len left
  if min left len ≠ 0 then some ({ a with inputBuf := copied }, none, eFault)
  else do
    let buf := copied.poke len (toChar terminator)
    let sum ← scan buf
    some (⟨buf, Nat.toDigits 10 sum.toNat⟩, some sum, len)

/-- A read (C `simacc_read`). -/
def simaccRead (a : Acc) : List Char := a.result ++ ['\n']

end KernelModules.Simacc
