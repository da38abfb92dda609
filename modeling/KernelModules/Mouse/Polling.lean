import KernelModules.Mouse.Source
import Mathlib.Data.Nat.Nth

/-!
# What the polling loop logs

The loop of `mouse_init` (`mouse_driver.c`) ends when bit 0 of the status has been set 100 times.
Its packets belong to the first 100 of these statuses, and each takes three bytes of data. After `i`
reads of the status the loop has logged as many packets as the bit has been set (`Nat.count`), the
packet number `j` for the occurrence number `j` (`Nat.nth`).

The header of the source says that bit 5 of the status tells the mouse from the keyboard. The test
compares the masked byte with 1, which it never is (`label_eq`): every packet is labelled as one of
the keyboard. `labels_iff` says when that is right.
-/

namespace KernelModules.Mouse

variable (status data : Nat → BitVec 8)

/-- Bit 0 of a status: data is available. -/
abbrev Ready (i : Nat) : Prop := (status i).getLsbD 0 = true

/-- The packet number `j`. -/
noncomputable def packet (j : Nat) : Packet :=
  let i := Nat.nth (Ready status) j
  ⟨i, label (status i), (data (3 * j)).toInt, (data (3 * j + 1)).toInt, (data (3 * j + 2)).toInt⟩

/-- The test is about the lowest bit. -/
lemma available_eq (scanCode : BitVec 8) : available scanCode = scanCode.getLsbD 0 := by
  revert scanCode
  decide +kernel

/-- A byte with all bits but one masked is never 1 when that bit is not the lowest. -/
lemma label_eq (scanCode : BitVec 8) : label scanCode = .keyboard := by
  revert scanCode
  decide +kernel

variable {status data}

/-- The counter of the loop, as long as it is small. -/
lemma loops_toInt {m : Nat} (le : m ≤ 100) : (BitVec.ofNat 32 m).toInt = m := by
  have nat : (BitVec.ofNat 32 m).toNat = m := by
    rw [BitVec.toNat_ofNat]
    omega
  rw [BitVec.toInt_eq_toNat_of_lt (by rw [nat]; omega), nat]

/-- The loop after `i` reads of the status, of which `m` had bit 0 set. It ends at the latest before
    the read number `n`, when 100 of the first `n` reads have it set. -/
lemma mouseLoop_eq {n fuel i m : Nat} (enough : 100 ≤ Nat.count (Ready status) n) (before : i ≤ n)
    (fuelled : n < fuel + i) (counted : Nat.count (Ready status) i = m) (le : m ≤ 100) :
    mouseLoop status data fuel i (3 * m) (BitVec.ofNat 32 m)
      ((List.range m).map (packet status data)) =
      some ((List.range 100).map (packet status data)) := by
  induction fuel generalizing i m with
  | zero => omega
  | succ fuel ih =>
    rw [mouseLoop, loops_toInt le]
    by_cases full : m = 100
    · rw [if_neg (by omega), full]
    · rw [if_pos (by omega)]
      have lt : i < n := by
        by_contra ge
        have same : i = n := by omega
        rw [same] at counted
        omega
      have counted' := Nat.count_succ (Ready status) i
      simp only [available_eq]
      by_cases ready : Ready status i
      · -- the packet number `m` belongs to this read
        have nth : Nat.nth (Ready status) m = i := counted ▸ Nat.nth_count ready
        have next : (List.range m).map (packet status data) ++ [⟨i, label (status i),
            (data (3 * m)).toInt, (data (3 * m + 1)).toInt, (data (3 * m + 2)).toInt⟩] =
            (List.range (m + 1)).map (packet status data) := by
          rw [List.range_succ, List.map_append, List.map_singleton, packet, nth]
        rw [if_pos ready, counted] at counted'
        rw [if_pos ready, next, show BitVec.ofNat 32 m + 1 = BitVec.ofNat 32 (m + 1) from
          (BitVec.ofNat_add ..).symm]
        exact ih lt (by omega) counted' (by omega)
      · rw [if_neg ready, counted] at counted'
        rw [if_neg ready]
        exact ih lt (by omega) counted' le

/-- For every stream of statuses in which bit 0 is set at least 100 times and every stream of data
    the loop ends, and has logged 100 packets: the packet number `j` belongs to the status number
    `j` with bit 0 set, and carries the data bytes `3j` to `3j + 2` as signed numbers. It is
    labelled by bit 5 of its status, for all of them, exactly when none of these statuses has the
    bit set. -/
theorem labels_iff (status data : Nat → BitVec 8) (enough : ∃ n, 100 ≤ Nat.count (Ready status) n) :
    ∃ log, (∃ n, ∀ fuel, n ≤ fuel → mouseLoop status data fuel 0 0 0 [] = some log) ∧
      log.length = 100 ∧
      (∀ j < 100, ∃ p, log[j]? = some p ∧ p.read = Nat.nth (Ready status) j ∧
        p.keys = (data (3 * j)).toInt ∧ p.xMov = (data (3 * j + 1)).toInt ∧
        p.yMov = (data (3 * j + 2)).toInt) ∧
      ((∀ p ∈ log, p.label = .mouse ↔ (status p.read).getLsbD 5 = true) ↔
        ∀ j < 100, (status (Nat.nth (Ready status) j)).getLsbD 5 = false) := by
  obtain ⟨n, enough⟩ := enough
  refine ⟨(List.range 100).map (packet status data), ⟨n + 1, fun fuel le => ?_⟩, ?_, fun j lt => ?_,
    ?_⟩
  · exact mouseLoop_eq (m := 0) enough (Nat.zero_le n) (by omega) (Nat.count_zero _) (by omega)
  · rw [List.length_map, List.length_range]
  · refine ⟨packet status data j, ?_, rfl, rfl, rfl, rfl⟩
    rw [List.getElem?_map, List.getElem?_range lt]
    rfl
  · simp only [List.forall_mem_map, List.mem_range, packet, label_eq]
    refine forall_congr' fun j => imp_congr_right fun lt => ?_
    simp

/-- A keyboard that always has data, with bytes above 127. -/
theorem labels_of_keyboard :
    ∃ log, (∃ n, ∀ fuel, n ≤ fuel →
        mouseLoop (fun _ => 0x01) (fun i => BitVec.ofNat 8 (i + 200)) fuel 0 0 0 [] = some log) ∧
      (∃ p, log[9]? = some p ∧ p.keys = -29) ∧ ∀ p ∈ log, p.label = .mouse ↔ False := by
  have ready : (0x01 : BitVec 8).getLsbD 0 = true := by decide
  have always : Nat.count (Ready fun _ => 0x01) 100 = 100 := Nat.count_of_forall fun _ _ => ready
  obtain ⟨log, ends, -, packets, right⟩ :=
    labels_iff (fun _ => 0x01) (fun i => BitVec.ofNat 8 (i + 200)) ⟨100, always.ge⟩
  refine ⟨log, ends, ?_, ?_⟩
  · obtain ⟨p, at_, -, keys, -⟩ := packets 9 (by decide)
    exact ⟨p, at_, keys.trans (by decide)⟩
  · intro p mem
    exact (right.mpr fun _ _ => rfl) p mem |>.trans (by decide)

/-- A mouse that always has data: the first packet is labelled as one of a keyboard. -/
theorem mouse_labelled_keyboard :
    (mouseLoop (fun _ => 0x21) (fun _ => 7) 101 0 0 0 []).bind (·.head?) =
        some ⟨0, .keyboard, 7, 7, 7⟩ ∧
      (0x21 : BitVec 8).getLsbD 5 = true := by
  decide +kernel

end KernelModules.Mouse
