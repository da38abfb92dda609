import KernelModules.Packet.Accounting

/-!
# Counters between clears

The counters of a node of `network_procfs.c` are a signed 32-bit packet count and a signed 64-bit
byte sum, and `hook_func` passes the unsigned `data_len` as an `int`. So a packet with a `data_len`
of `2 ^ 31` or more lowers the sum, and the packet count turns negative at `2 ^ 31` packets. Below
these limits the sum stays under `2 ^ 62` (`sum_le`).

`counters_forward_iff` says that between two clears nothing else makes a counter negative or lets it
decrease.
-/

namespace KernelModules.Packet

/-- What a dump shows after a history. -/
def shownAfter (s : Net) (evs : List Event) : Option (List (List Char × Int × Int)) :=
  ((run step s evs).bind dump).map (List.map Node.shown)

/-- The `data_len` of each packet from `a`. -/
def dataLens (a : BitVec 32) (ps : List Event) : List (BitVec 32) := ps.filterMap (Event.dataLen? a)

/-- While the packets `ps` arrive after the history `hist`, the list can be shown, no counter shown
    is negative, and none decreases from one packet to the next. -/
structure Forward (s : Net) (hist ps : List Event) : Prop where
  shows : ∀ pre, pre <+: ps → (shownAfter s (hist ++ pre)).isSome
  nonneg : ∀ pre vs, pre <+: ps → shownAfter s (hist ++ pre) = some vs →
    ∀ x ∈ vs, 0 ≤ x.2.1 ∧ 0 ≤ x.2.2
  mono : ∀ pre e vs vs', pre ++ [e] <+: ps → shownAfter s (hist ++ pre) = some vs →
    shownAfter s (hist ++ (pre ++ [e])) = some vs' →
    ∀ x ∈ vs, ∀ y ∈ vs', y.1 = x.1 → x.2.1 ≤ y.2.1 ∧ x.2.2 ≤ y.2.2

/-- A history that ends where the counters are zero: at the load, or with a clear. -/
def Cleared (hist : List Event) : Prop := hist = [] ∨ ∃ earlier len, hist = earlier ++ [.clear len]

/-! ## Sums that fit -/

/-- Packets that a node can count. -/
def Fits (ds : List (BitVec 32)) : Prop := ds.length < 2 ^ 31 ∧ ∀ d ∈ ds, d.toNat < 2 ^ 31

/-- A length below `2 ^ 31` is not negative as an `int`. -/
lemma toInt_of_small {d : BitVec 32} (small : d.toNat < 2 ^ 31) : d.toInt = d.toNat :=
  BitVec.toInt_eq_toNat_of_lt (by omega)

/-- Such lengths have a sum that is not negative and not too large. -/
lemma sum_le {ds : List (BitVec 32)} (small : ∀ d ∈ ds, d.toNat < 2 ^ 31) :
    0 ≤ (ds.map BitVec.toInt).sum ∧ (ds.map BitVec.toInt).sum ≤ ds.length * 2 ^ 31 := by
  induction ds with
  | nil => exact ⟨Int.le_refl 0, Int.le_refl 0⟩
  | cons d ds ih =>
    obtain ⟨here, rest⟩ := List.forall_mem_cons.mp small
    obtain ⟨low, high⟩ := ih rest
    rw [List.map_cons, List.sum_cons, List.length_cons, toInt_of_small here]
    omega

/-- Packets that a node can count stay far below the range of `data_used`. -/
lemma Fits.sum_lt {ds} (fits : Fits ds) : (ds.map BitVec.toInt).sum < (2 ^ 62 : Nat) := by
  have := (sum_le fits.2).2
  have := fits.1
  omega

/-- What a node shows are the true numbers, wrapped. -/
lemma counters_eq_bmod (ds : List (BitVec 32)) :
    counters ds = ((ds.length : Int).bmod (2 ^ 32), (ds.map BitVec.toInt).sum.bmod (2 ^ 64)) := rfl

/-- Then the counters show the true numbers. -/
lemma Fits.counters_eq {ds} (fits : Fits ds) :
    counters ds = ((ds.length : Int), (ds.map BitVec.toInt).sum) := by
  have low := (sum_le fits.2).1
  have high := fits.sum_lt
  have len := fits.1
  have count : (ds.length : Int).bmod (2 ^ 32) = ds.length :=
    Int.bmod_eq_of_le_mul_two (by omega) (by omega)
  have bytes : (ds.map BitVec.toInt).sum.bmod (2 ^ 64) = (ds.map BitVec.toInt).sum :=
    Int.bmod_eq_of_le_mul_two (by omega) (by omega)
  rw [counters_eq_bmod, count, bytes]

/-- Fewer packets can be counted too. -/
lemma Fits.mono {ds es : List (BitVec 32)} (fits : Fits es) (pre : ds <+: es) : Fits ds :=
  ⟨Nat.lt_of_le_of_lt pre.length_le fits.1, fun d mem => fits.2 d (pre.subset mem)⟩

/-- One more packet fits, when the count does not turn negative and the sum does not decrease. -/
lemma Fits.snoc {ds : List (BitVec 32)} {d} (fits : Fits ds) (count : 0 ≤ (counters (ds ++ [d])).1)
    (bytes : (ds.map BitVec.toInt).sum ≤ (counters (ds ++ [d])).2) : Fits (ds ++ [d]) := by
  have len := fits.1
  have low := (sum_le fits.2).1
  have high := fits.sum_lt
  rw [counters_eq_bmod, List.length_append, List.length_singleton] at count
  rw [counters_eq_bmod, List.map_append, List.sum_append, List.map_singleton,
    List.sum_singleton] at bytes
  refine ⟨?_, List.forall_mem_append.mpr ⟨fits.2, List.forall_mem_singleton.mpr ?_⟩⟩
  · -- at `2 ^ 31` packets the count is negative
    rw [List.length_append, List.length_singleton]
    by_contra top
    have full : ds.length + 1 = 2 ^ 31 := by omega
    rw [full] at count
    exact absurd count (show ¬ 0 ≤ ((2 ^ 31 : Nat) : Int).bmod (2 ^ 32) by decide)
  · -- a `data_len` of `2 ^ 31` or more lowers the sum
    by_contra big
    have neg : d.toInt = d.toNat - 2 ^ 32 := by
      rw [BitVec.toInt_eq_toNat_cond, if_neg (by omega)]
      rfl
    have lt := d.isLt
    have exact_ : ((ds.map BitVec.toInt).sum + d.toInt).bmod (2 ^ 64) =
        (ds.map BitVec.toInt).sum + d.toInt := Int.bmod_eq_of_le_mul_two (by omega) (by omega)
    rw [exact_] at bytes
    omega

/-! ## Histories -/

/-- The lengths of two parts. -/
lemma dataLens_append {a ps qs} : dataLens a (ps ++ qs) = dataLens a ps ++ dataLens a qs :=
  List.filterMap_append

/-- Behind a clear only the packets count. -/
lemma packetsFrom_eq {a hist ps} (cl : Cleared hist) (packets : ∀ e ∈ ps, e.isPacket) :
    packetsFrom a (hist ++ ps) = dataLens a ps := by
  have since : (hist ++ ps).rtakeWhile Event.isPacket = ps := by
    induction ps using List.reverseRecOn with
    | nil =>
      rw [List.append_nil]
      rcases cl with rfl | ⟨earlier, len, rfl⟩
      · rfl
      · rw [List.rtakeWhile_concat, if_neg (fun e => by cases e)]
    | append_singleton ps e ih =>
      obtain ⟨rest, here⟩ := List.forall_mem_append.mp packets
      rw [← List.append_assoc, List.rtakeWhile_concat, if_pos (here e List.mem_cons_self), ih rest]
  rw [packetsFrom, since, dataLens]

/-- What is shown after the history `hist` and the packets `ps` behind it. -/
def tally (hist ps : List Event) : List (List Char × Int × Int) :=
  (sources (hist ++ ps)).map fun a => (pI4 a, counters (dataLens a ps))

/-- One entry for each source of the whole history. -/
lemma mem_tally {x : List Char × Int × Int} {hist ps : List Event} :
    x ∈ tally hist ps ↔ ∃ a ∈ sources (hist ++ ps), x = (pI4 a, counters (dataLens a ps)) := by
  rw [tally, List.mem_map]
  exact exists_congr fun a => and_congr_right fun _ => eq_comm

/-- Behind a clear the dump shows the tally. -/
lemma shownAfter_eq {s r hist ps pre} (rep : Rep s r []) (ad : Admits AllocOk step s (hist ++ ps))
    (cl : Cleared hist) (packets : ∀ e ∈ ps, e.isPacket) (le : pre <+: ps) :
    shownAfter s (hist ++ pre) = some (tally hist pre) := by
  obtain ⟨post, rfl⟩ := le
  rw [← List.append_assoc] at ad
  obtain ⟨s', vs, rn, dp, shown⟩ := dump_of_history rep ad.of_append
  rw [shownAfter, rn, Option.bind_some, dp, Option.map_some, shown]
  simp only [tally, packetsFrom_eq cl (List.forall_mem_append.mp packets).1]

/-- Who sends a packet is a source. -/
lemma mem_sources {a d e} {evs : List Event} (from_ : Event.dataLen? a e = some d) (mem : e ∈ evs) :
    a ∈ sources evs := by
  cases e with
  | packet skb l junk =>
    obtain ⟨rfl, -⟩ := Option.ite_none_right_eq_some.mp from_
    exact List.mem_eraseDups.mpr (List.mem_filterMap.mpr ⟨_, mem, rfl⟩)
  | clear len => cases from_

/-- Who is none has sent nothing. -/
lemma dataLens_of_not_mem {a hist ps} (out : a ∉ sources (hist ++ ps)) : dataLens a ps = [] := by
  refine List.filterMap_eq_nil_iff.mpr fun e mem => ?_
  cases from_ : Event.dataLen? a e with
  | none => rfl
  | some d => exact absurd (mem_sources from_ (List.mem_append_right hist mem)) out

section
variable {s : Net} {r : Loc × Node} {hist ps : List Event}

/-- Packets that fit keep the counters going forward. -/
lemma forward_of_fits (rep : Rep s r []) (ad : Admits AllocOk step s (hist ++ ps))
    (cl : Cleared hist) (packets : ∀ e ∈ ps, e.isPacket) (fits : ∀ a, Fits (dataLens a ps)) :
    Forward s hist ps := by
  have shown : ∀ pre, pre <+: ps → shownAfter s (hist ++ pre) = some (tally hist pre) :=
    fun _ => shownAfter_eq rep ad cl packets
  have fitsPre : ∀ pre a, pre <+: ps → Fits (dataLens a pre) := by
    rintro pre a ⟨post, rfl⟩
    exact (fits a).mono ⟨dataLens a post, dataLens_append.symm⟩
  refine ⟨fun pre le => by rw [shown pre le]; rfl, fun pre vs le sh x mem => ?_,
    fun pre e vs vs' le sh sh' x mem y mem' same => ?_⟩
  · cases (shown pre le).symm.trans sh
    obtain ⟨a, -, rfl⟩ := mem_tally.mp mem
    rw [(fitsPre pre a le).counters_eq]
    exact ⟨Int.natCast_nonneg _, (sum_le (fitsPre pre a le).2).1⟩
  · have le' : pre <+: ps := (List.prefix_append pre [e]).trans le
    cases (shown pre le').symm.trans sh
    cases (shown _ le).symm.trans sh'
    obtain ⟨a, -, rfl⟩ := mem_tally.mp mem
    obtain ⟨b, -, rfl⟩ := mem_tally.mp mem'
    cases pI4_injective same
    have fit' := fitsPre (pre ++ [e]) a le
    rw [(fitsPre pre a le').counters_eq, fit'.counters_eq, dataLens_append, List.length_append,
      List.map_append, List.sum_append]
    rw [dataLens_append] at fit'
    have more := (sum_le fun d mem => fit'.2 d (List.mem_append_right _ mem)).1
    refine ⟨?_, ?_⟩
    · simp only
      omega
    · simp only
      omega

/-- Counters that go forward have counted packets that fit. -/
lemma Forward.fits (fw : Forward s hist ps) (rep : Rep s r [])
    (ad : Admits AllocOk step s (hist ++ ps)) (cl : Cleared hist) (packets : ∀ e ∈ ps, e.isPacket)
    (pre : List Event) (le : pre <+: ps) (a : BitVec 32) : Fits (dataLens a pre) := by
  have shown : ∀ pre, pre <+: ps → shownAfter s (hist ++ pre) = some (tally hist pre) :=
    fun _ => shownAfter_eq rep ad cl packets
  induction pre using List.reverseRecOn with
  | nil => exact ⟨Nat.two_pow_pos 31, fun d mem => (List.not_mem_nil mem).elim⟩
  | append_singleton pre e ih =>
    have le' : pre <+: ps := (List.prefix_append pre [e]).trans le
    have fits := ih le'
    rw [dataLens_append]
    cases from_ : Event.dataLen? a e with
    | none =>
      rw [show dataLens a [e] = [] from List.filterMap_cons_none from_, List.append_nil]
      exact fits
    | some d =>
      have new : dataLens a [e] = [d] := List.filterMap_cons_some from_
      have mem : (pI4 a, counters (dataLens a pre ++ [d])) ∈ tally hist (pre ++ [e]) := by
        refine mem_tally.mpr ⟨a, mem_sources from_ (by simp), ?_⟩
        rw [dataLens_append, new]
      obtain ⟨count, bytes⟩ := fw.nonneg _ _ le (shown _ le) _ mem
      rw [new]
      refine fits.snoc count ?_
      -- the node is new, or its sum has not decreased
      by_cases known : a ∈ sources (hist ++ pre)
      · have old : (pI4 a, counters (dataLens a pre)) ∈ tally hist pre :=
          mem_tally.mpr ⟨a, known, rfl⟩
        have step := fw.mono _ _ _ _ le (shown _ le') (shown _ le) _ old _ mem rfl
        rw [fits.counters_eq] at step
        exact step.2
      · rw [dataLens_of_not_mem known]
        rw [dataLens_of_not_mem known] at bytes
        exact bytes

end

/-- After the load or a clear, and until the next one: no counter shown is negative or decreases
    exactly when every source sends fewer than `2 ^ 31` packets, each with a `data_len` below
    `2 ^ 31`. -/
theorem counters_forward_iff (l : Loc) (junk : Node) :
    ∃ m, run InitOp.exec .boot (initPacket l junk true) = some m ∧
      ∀ hist ps, Cleared hist → (∀ e ∈ ps, e.isPacket) → Admits AllocOk step m.net (hist ++ ps) →
        (Forward m.net hist ps ↔
          ∀ a, (dataLens a ps).length < 2 ^ 31 ∧ ∀ d ∈ dataLens a ps, d.toNat < 2 ^ 31) := by
  obtain ⟨m, r, init, rep⟩ := Rep.initPacket l junk true
  refine ⟨m, init, fun hist ps cl packets ad => ⟨fun fw a => ?_, fun fits => ?_⟩⟩
  · exact fw.fits rep ad cl packets ps (List.prefix_refl ps) a
  · exact forward_of_fits rep ad cl packets fits

/-- Two packets of 10.0.0.1 after a clear. -/
theorem counters_forward_of_two :
    ∃ m, run InitOp.exec .boot (initPacket 0 ⟨['x'], 3, 3, some 9⟩ true) = some m ∧
      Forward m.net [.clear 1] [.packet ⟨0x0A000001, 100⟩ 1 ⟨[], 7, 7, none⟩,
        .packet ⟨0x0A000001, 50⟩ 2 ⟨[], 0, 0, none⟩] := by
  obtain ⟨m, init, all⟩ := counters_forward_iff 0 ⟨['x'], 3, 3, some 9⟩
  refine ⟨m, init, (all _ _ (.inr ⟨[], 1, rfl⟩) (by decide) ?_).mpr fun a => ?_⟩
  · cases init
    refine ⟨trivial, fun s1 st1 => ?_⟩
    cases st1
    refine ⟨rfl, fun s2 st2 => ?_⟩
    cases st2
    exact ⟨rfl, fun _ _ => trivial⟩
  · refine ⟨Nat.lt_of_le_of_lt (List.length_filterMap_le ..) (by decide), fun d mem => ?_⟩
    obtain ⟨e, mem, from_⟩ := List.mem_filterMap.mp mem
    rcases List.mem_cons.mp mem with rfl | mem
    · obtain ⟨-, e⟩ := Option.ite_none_right_eq_some.mp from_
      cases e
      decide
    · cases List.mem_singleton.mp mem
      obtain ⟨-, e⟩ := Option.ite_none_right_eq_some.mp from_
      cases e
      decide

/-- One packet with a `data_len` of `2 ^ 31`: the sum is negative. -/
theorem counters_negative :
    ∃ m, run InitOp.exec .boot (initPacket 0 ⟨[], 0, 0, none⟩ true) = some m ∧
      shownAfter m.net [.packet ⟨0x0A000001, 0x80000000⟩ 1 ⟨[], 0, 0, none⟩] =
        some [("10.0.0.1".toList, 1, -2147483648)] := by
  obtain ⟨m, r, init, rep⟩ := Rep.initPacket 0 ⟨[], 0, 0, none⟩ true
  refine ⟨m, init, ?_⟩
  have ad :
      Admits AllocOk step m.net ([] ++ [.packet ⟨0x0A000001, 0x80000000⟩ 1 ⟨[], 0, 0, none⟩]) := by
    cases init
    exact ⟨rfl, fun _ _ => trivial⟩
  have shown := shownAfter_eq rep ad (.inl rfl) (by decide) (List.prefix_refl _)
  rw [List.nil_append] at shown
  rw [shown]
  decide +kernel

end KernelModules.Packet
