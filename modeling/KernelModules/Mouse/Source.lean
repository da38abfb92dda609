import Mathlib.Tactic.Common

/-!
# Polling the mouse

Model of the second loop of `mouse_init` (`mouse_driver.c`). The two ports are streams: `status i`
is what the read number `i` of port 0x64 returns, and `data i` the same for port 0x60. `char` is
signed, and an `int` in the tests of its bits.

The loop logs 100 packets; it goes on, without counting, as long as no data is available. Its first
argument bounds the number of iterations. A packet that is logged comes with the number of the read
of port 0x64 that it belongs to, which is not part of the text.

C → Lean naming: `mouse_init` → `mouseLoop`, `scan_code` → `scanCode`, `x_mov` / `y_mov` → `xMov` /
`yMov`.
-/

namespace KernelModules.Mouse

/-- The line that says where a packet comes from. -/
inductive Label where
  | mouse
  | keyboard
  deriving Repr, DecidableEq

/-- What is logged for a packet, and the number of the read of its status. -/
structure Packet where
  read : Nat
  label : Label
  keys : Int
  xMov : Int
  yMov : Int
  deriving Repr, DecidableEq

/-- The test `(scan_code&0b00000001) == 1`. -/
def available (scanCode : BitVec 8) : Bool := scanCode.signExtend 32 &&& 0b00000001 = 1

/-- The test `(scan_code&0b00100000) == 1` and what it logs. -/
def label (scanCode : BitVec 8) : Label :=
  if scanCode.signExtend 32 &&& 0b00100000 = 1 then .mouse else .keyboard

/-- The loop of `mouse_init` after `i` reads of port 0x64 and `j` reads of port 0x60. -/
def mouseLoop (status data : Nat → BitVec 8) :
    Nat → Nat → Nat → BitVec 32 → List Packet → Option (List Packet)
  | 0, _, _, _, _ => none
  | fuel + 1, i, j, loopsForMouse, log =>
    if loopsForMouse.toInt < 100 then
      let scanCode := status i
      if available scanCode then
        let packet :=
          ⟨i, label scanCode, (data j).toInt, (data (j + 1)).toInt, (data (j + 2)).toInt⟩
        mouseLoop status data fuel (i + 1) (j + 3) (loopsForMouse + 1) (log ++ [packet])
      else mouseLoop status data fuel (i + 1) j loopsForMouse log
    else some log

end KernelModules.Mouse
