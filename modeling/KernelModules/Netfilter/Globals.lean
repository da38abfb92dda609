import KernelModules.Base.Calls
import KernelModules.Netfilter.Source
import KernelModules.Packet.Accounting

/-!
# The hooks on several processors

`hook_func` of `packet_block_protocol.c` and of `network_procfs.c` keep their packet in the globals
`sock_buff` and `ip_header`, and packets that arrive on different processors call the hook at the
same time. The model of `Netfilter.Source` and of `Packet.Source` takes a call as one step; here
each statement that reads or writes a global is a step (`Calls.step`, with `sock_buff` as `arg` and
`ip_header` as `view`), and accesses to the globals are sequentially consistent. The packet of a
call that has returned may be freed, so that looking at it is an invalid access.

The test `if (!sock_buff)` stands behind the header in both functions and never holds. The first
`snprintf` of `packet_block_protocol.c` fills a local that is not used.

* `verdicts_of_serial`: calls that do not overlap answer what `hookFunc` says of their own packets,
  and make no invalid access. `verdicts_crossed`: for any two packets of which one is an ICMP packet
  there are overlapping calls that let the ICMP packet pass, drop the other one, or look at a freed
  packet.
* `sources_counted`: overlapping calls of `network_procfs.c` never break the list, and the only
  invalid accesses are those to a packet whose call has returned. But what they count has its source
  from one packet and its length from one, and neither need be their own. `sources_of_serial`: calls
  that do not overlap count their own packets.
-/

namespace KernelModules.Netfilter

open Packet (nfAccept Rep)

/-! ## `packet_block_protocol.c` -/

namespace PacketBlockProtocol

/-- The places in `hook_func` behind the header. -/
inductive Place where
  | test      -- before the test of ip_header->protocol
  | drop      -- before pr_info and skb_transport_header

/-- The statements of `hook_func` behind the header, with the log. -/
def exec (log : List Line) :
    Place → Option SkBuff → Option SkBuff → Unit → Option (List Line × (Place ⊕ BitVec 32))
  | .test, ipHeader, _, _ =>
    ipHeader.map fun skb => (log, if skb.protocol = 1 then .inl .drop else .inr nfAccept)
  | .drop, ipHeader, sockBuff, _ => do
    let skb ← ipHeader
    let _ ← sockBuff
    some (log ++ [.sourceAddress (Packet.pI4 skb.saddr), .droppingPingPacket], .inr nfDrop)

/-- The code of `hook_func`. -/
def code : Calls.Code SkBuff Place (BitVec 32) (List Line) Unit := ⟨.test, exec⟩

end PacketBlockProtocol

/-- The next statement of a call that has not returned. -/
def nextStatement (w : Nat) :
    Calls.Pc PacketBlockProtocol.Place (BitVec 32) → Option (Calls.Event SkBuff Unit)
  | .start => some (.view w)
  | .body _ => some (.body w ())
  | .returned _ => none

/-- A call by itself drops its packet when it is ICMP. -/
lemma hookFunc_verdict {skb : SkBuff} : (PacketBlockProtocol.hookFunc (some skb)).map Prod.snd =
    some (if skb.protocol = 1 then nfDrop else nfAccept) := by
  rw [PacketBlockProtocol.hookFunc, Option.bind_eq_bind, Option.bind_some]
  split
  case isTrue => rfl
  case isFalse => rfl

open PacketBlockProtocol in
/-- A statement on the own packet goes through. -/
lemma exec_own (log : List Line) (k : Place) (skb : SkBuff) :
    ∃ y, exec log k (some skb) (some skb) () = some y := by
  cases k with
  | test => exact ⟨_, rfl⟩
  | drop => exact ⟨_, rfl⟩

/-- Calls that do not overlap make no invalid access, and each returns the verdict on its own
    packet. -/
theorem verdicts_of_serial {es s}
    (alone : Admits Calls.Alone (Calls.step PacketBlockProtocol.code) (.start []) es)
    (go : run (Calls.step PacketBlockProtocol.code) (.start []) es = some s) :
    (∀ w skb pc e, s.calls w = some (skb, pc) → nextStatement w pc = some e →
      ∃ s', Calls.step PacketBlockProtocol.code s e = some s') ∧
    ∀ w skb verdict, s.calls w = some (skb, .returned verdict) →
      (PacketBlockProtocol.hookFunc (some skb)).map Prod.snd = some verdict := by
  have owns : Calls.Owns s :=
    Admits.invariant (fun inv ok st => inv.step ok st) Calls.owns_start alone go
  rw [Calls.run_eq_own Calls.owns_start alone] at go
  refine ⟨fun w skb pc e at_ stmt => ?_, ?_⟩
  · rw [owns.step_eq]
    cases pc with
    | start =>
      cases stmt
      rw [Calls.ownStep, Calls.stepWith, at_]
      exact ⟨_, rfl⟩
    | body k =>
      cases stmt
      obtain ⟨y, ex⟩ := exec_own s.shared k skb
      rw [Calls.ownStep, Calls.stepWith, at_]
      exact ⟨_, congrArg (Option.map _) ex⟩
    | returned t => cases stmt
  · -- behind the test, the packet is an ICMP packet
    refine (Calls.returned_of_own PacketBlockProtocol.code
      (Q := fun skb k => k = .drop → skb.protocol = 1) ?_ ?_ go).2
    · rintro skb e
      cases e
    · rintro log skb k x ⟨log', out⟩ icmp ex
      cases k with
      | test =>
        cases ex
        by_cases ping : skb.protocol = 1
        · rw [if_pos ping]
          exact fun _ => ping
        · rw [if_neg ping]
          exact hookFunc_verdict.trans (congrArg some (if_neg ping))
      | drop =>
        cases ex
        exact hookFunc_verdict.trans (congrArg some (if_pos (icmp rfl)))

/-- One call after the other: an ICMP packet, then a TCP packet. -/
def serialCalls : List (Calls.Event SkBuff Unit) :=
  [.enter 0 ⟨⟨0x0A000001, 84⟩, 1⟩, .view 0, .body 0 (), .body 0 (), .enter 1 ⟨⟨0x0A000002, 40⟩, 6⟩,
    .view 1,
    .body 1 ()]

/-- Two calls one after the other: the ping is dropped. -/
theorem verdicts_of_serialCalls :
    ∃ s, run (Calls.step PacketBlockProtocol.code) (.start []) serialCalls = some s ∧
      s.calls 0 = some (⟨⟨0x0A000001, 84⟩, 1⟩, .returned nfDrop) ∧
      (PacketBlockProtocol.hookFunc (some ⟨⟨0x0A000001, 84⟩, 1⟩)).map Prod.snd = some nfDrop := by
  have alone :
      Admits Calls.Alone (Calls.step PacketBlockProtocol.code) (.start []) serialCalls := by
    refine ⟨fun v a pc at_ => absurd at_.symm (Option.some_ne_none _), fun s1 st1 => ?_⟩
    cases st1
    refine ⟨trivial, fun s2 st2 => ?_⟩
    cases st2
    refine ⟨trivial, fun s3 st3 => ?_⟩
    cases st3
    refine ⟨trivial, fun s4 st4 => ?_⟩
    cases st4
    refine ⟨fun v a pc at_ => ?_, fun s5 st5 => ?_⟩
    · rcases Calls.calls_setCall at_ with ⟨-, e⟩ | ⟨ne, old⟩
      · cases e
        rfl
      · rw [Calls.setCall_of_ne ne, Calls.setCall_of_ne ne, Calls.setCall_of_ne ne] at old
        cases old
    · cases st5
      refine ⟨trivial, fun s6 st6 => ?_⟩
      cases st6
      exact ⟨trivial, fun _ _ => trivial⟩
  exact ⟨_, rfl, rfl, (verdicts_of_serial alone rfl).2 0 _ nfDrop rfl⟩

section
variable {s : Calls.State SkBuff PacketBlockProtocol.Place (BitVec 32) (List Line)} {w : Nat}
  {skb h b : SkBuff}

/-- The test looks at the packet that `iph` leads to. -/
lemma step_test (at_ : s.calls w = some (skb, .body .test)) (view : s.deref s.view = some h) :
    Calls.step PacketBlockProtocol.code s (.body w ()) =
      some (s.setCall w skb (if h.protocol = 1 then .body .drop else .returned nfAccept)) := by
  have ex : PacketBlockProtocol.code.exec s.shared .test (s.deref s.view) (s.deref s.arg) () =
      some (s.shared, if h.protocol = 1 then .inl .drop else .inr nfAccept) := by
    rw [view]
    rfl
  rw [Calls.step_body_eq at_ ex]
  by_cases icmp : h.protocol = 1
  · rw [if_pos icmp, if_pos icmp]
    rfl
  · rw [if_neg icmp, if_neg icmp]
    rfl

/-- The branch of the test returns `NF_DROP`, whatever `iph` leads to by then. -/
lemma step_drop (at_ : s.calls w = some (skb, .body .drop)) (view : s.deref s.view = some h)
    (arg : s.deref s.arg = some b) : ∃ log, Calls.step PacketBlockProtocol.code s (.body w ()) =
      some ({ s with shared := log }.setCall w skb (.returned nfDrop)) := by
  have ex : PacketBlockProtocol.code.exec s.shared .drop (s.deref s.view) (s.deref s.arg) () =
      some (s.shared ++ [.sourceAddress (Packet.pI4 h.saddr), .droppingPingPacket],
        .inr nfDrop) := by
    rw [view, arg]
    rfl
  exact ⟨_, Calls.step_body_eq at_ ex⟩

end

/-- Two calls that have stored the globals, the second one last. -/
lemma exists_overlap (a b : SkBuff) :
    ∃ es s, run (Calls.step PacketBlockProtocol.code) (.start []) es = some s ∧
      s.calls 0 = some (a, .body .test) ∧ s.calls 1 = some (b, .body .test) ∧ s.arg = some 1 ∧
      s.view = some 1 :=
  ⟨[.enter 0 a, .view 0, .enter 1 b, .view 1], _, rfl, rfl, rfl, rfl, rfl⟩

/-- For every ICMP packet and every other packet there are overlapping calls in which the ICMP
    packet is let through, the other one is dropped, or a call looks at a packet that may be
    gone. -/
theorem verdicts_crossed {p q : SkBuff} (icmp : p.protocol = 1) (other : q.protocol ≠ 1) :
    (∃ es s, run (Calls.step PacketBlockProtocol.code) (.start []) es = some s ∧
      s.calls 0 = some (p, .returned nfAccept)) ∧
    (∃ es s, run (Calls.step PacketBlockProtocol.code) (.start []) es = some s ∧
      s.calls 0 = some (q, .returned nfDrop)) ∧
    ∃ es s, run (Calls.step PacketBlockProtocol.code) (.start []) es = some s ∧
      s.calls 0 = some (p, .body .test) ∧ s.deref s.view = none := by
  obtain ⟨es, s, go, at0, at1, arg, view⟩ := exists_overlap p q
  obtain ⟨fs, t, go', at0', at1', arg', view'⟩ := exists_overlap q p
  refine ⟨⟨es ++ [.body 0 ()], _, run_snoc.mpr ⟨s, go, step_test at0 (h := q) ?_⟩, ?_⟩, ?_,
    ⟨es ++ [.body 1 ()], _, run_snoc.mpr ⟨s, go, step_test at1 (h := q) ?_⟩, ?_, ?_⟩⟩
  · rw [view, Calls.State.deref, Option.bind_some, at1]
    rfl
  · rw [if_neg other]
    exact Calls.setCall_self
  · -- the call of `q` tests the header of `p`, and goes on to drop its packet
    have stored : ∀ pc, (t.setCall 0 q pc).deref (some 1) = some p := by
      intro pc
      rw [Calls.State.deref, Option.bind_some, Calls.setCall_of_ne (by decide), at1']
      rfl
    have test : Calls.step PacketBlockProtocol.code t (.body 0 ()) =
        some (t.setCall 0 q (.body .drop)) := by
      rw [step_test at0' (h := p), if_pos icmp]
      rw [view', Calls.State.deref, Option.bind_some, at1']
      rfl
    obtain ⟨log, drop⟩ := step_drop (s := t.setCall 0 q (.body .drop)) Calls.setCall_self
      (by rw [show (t.setCall 0 q (.body .drop)).view = some 1 from view', stored])
      (by rw [show (t.setCall 0 q (.body .drop)).arg = some 1 from arg', stored])
    refine ⟨fs ++ [.body 0 ()] ++ [.body 0 ()], _,
      run_snoc.mpr ⟨_, run_snoc.mpr ⟨t, go', test⟩, drop⟩, ?_⟩
    exact Calls.setCall_self
  · rw [view, Calls.State.deref, Option.bind_some, at1]
    rfl
  · rw [Calls.setCall_of_ne (by decide)]
    exact at0
  · rw [if_neg other, show (s.setCall 1 q (.returned nfAccept)).view = some 1 from view,
      Calls.State.deref, Option.bind_some, Calls.setCall_self]
    rfl

/-- Two calls that overlap: the ping may pass, and the other packet may be dropped. -/
theorem verdicts_crossed_of_two :
    (∃ es s, run (Calls.step PacketBlockProtocol.code) (.start []) es = some s ∧
      s.calls 0 = some (⟨⟨0x0A000001, 84⟩, 1⟩, .returned nfAccept)) ∧
    ∃ es s, run (Calls.step PacketBlockProtocol.code) (.start []) es = some s ∧
      s.calls 0 = some (⟨⟨0x0A000002, 40⟩, 6⟩, .returned nfDrop) := by
  have crossed :=
    verdicts_crossed (p := ⟨⟨0x0A000001, 84⟩, 1⟩) (q := ⟨⟨0x0A000002, 40⟩, 6⟩) rfl (by decide)
  exact ⟨crossed.1, crossed.2.1⟩

/-! ## `network_procfs.c` -/

namespace NetworkProcfs

/-- The places in `hook_func` behind the header. -/
inductive Place where
  | source                                             -- before snprintf(source, 16, "%pI4", ...)
  | dataLen (source : List Char)                       -- before the reads of sock_buff->data_len
  | add (source : List Char) (dataLen : BitVec 32)     -- before add_to_list_network

/-- The statements of `hook_func` behind the header, with the list. The call of
    `add_to_list_network` is one step (the list is under `net_lock`) and comes with the answer of
    `kmem_cache_alloc`, should it need a node. -/
def exec (net : Packet.Net) : Place → Option Packet.SkBuff → Option Packet.SkBuff →
    Option (Loc × Packet.Node) → Option (Packet.Net × (Place ⊕ BitVec 32))
  | .source, ipHeader, _, none =>
    ipHeader.map fun skb => (net, .inl (.dataLen (Packet.key skb.saddr)))
  | .dataLen source, _, sockBuff, none =>
    sockBuff.map fun skb => (net, .inl (.add source skb.dataLen))
  | .add source dataLen, _, _, some ans =>
    (Packet.addToListNetwork net source dataLen (some ans)).map fun net => (net, .inr nfAccept)
  | _, _, _, _ => none

/-- The code of `hook_func`. -/
def code : Calls.Code Packet.SkBuff Place (BitVec 32) Packet.Net (Option (Loc × Packet.Node)) :=
  ⟨.source, exec⟩

end NetworkProcfs

/-- The calls of the hook of `network_procfs.c`. -/
abbrev NetworkCalls := Calls.State Packet.SkBuff NetworkProcfs.Place (BitVec 32) Packet.Net

/-- A statement of such a call. -/
abbrev NetworkEvent := Calls.Event Packet.SkBuff (Option (Loc × Packet.Node))

/-- `kmem_cache_alloc` returns a free address. -/
def FreshNode (s : NetworkCalls) : NetworkEvent → Prop
  | .body _ (some ans) => s.shared.heap.get ans.1 = none
  | .body _ none => True
  | .enter _ _ => True
  | .view _ => True

instance decidableFreshNode (s : NetworkCalls) : (e : NetworkEvent) → Decidable (FreshNode s e)
  | .body _ (some ans) => inferInstanceAs (Decidable (s.shared.heap.get ans.1 = none))
  | .body _ none => .isTrue trivial
  | .enter _ _ => .isTrue trivial
  | .view _ => .isTrue trivial

/-- Whether a statement is a call of `add_to_list_network`. -/
def isAdd : NetworkEvent → Bool
  | .body _ ans => ans.isSome
  | .enter _ _ => false
  | .view _ => false

/-- A packet that was counted has its source from one packet and its length from one. -/
def Mixed (es : List NetworkEvent) : Packet.Event → Prop
  | .packet skb _ _ => ∃ w v p q, .enter w p ∈ es ∧ .enter v q ∈ es ∧ skb = ⟨p.saddr, q.dataLen⟩
  | .clear _ => False

/-- What a call has taken from the packets so far. -/
def Taken (es : List NetworkEvent) : NetworkProcfs.Place → Prop
  | .source => True
  | .dataLen source => ∃ w p, .enter w p ∈ es ∧ source = Packet.pI4 p.saddr
  | .add source dataLen =>
    ∃ w v p q, .enter w p ∈ es ∧ .enter v q ∈ es ∧ source = Packet.pI4 p.saddr ∧
      dataLen = q.dataLen

/-- What overlapping calls have done: every call has a packet, what it has read comes from packets,
    and the list is the one after as many packets as there were calls of `add_to_list_network`. -/
structure Counted (net : Packet.Net) (es : List NetworkEvent) (s : NetworkCalls) : Prop where
  packets : ∀ w skb pc, s.calls w = some (skb, pc) → .enter w skb ∈ es
  taken : ∀ w skb k, s.calls w = some (skb, .body k) → Taken es k
  list : ∃ evs, evs.length = es.countP isAdd ∧ (∀ e ∈ evs, Mixed es e) ∧
    Admits Packet.AllocOk Packet.step net evs ∧ run Packet.step net evs = some s.shared

/-- A packet that was counted stays explained. -/
lemma Mixed.mono {es e d} (mixed : Mixed es e) : Mixed (es ++ [d]) e := by
  cases e with
  | packet skb l junk =>
    obtain ⟨w, v, p, q, hp, hq, e⟩ := mixed
    exact ⟨w, v, p, q, List.mem_append_left _ hp, List.mem_append_left _ hq, e⟩
  | clear len => exact mixed

/-- So does what a call has taken. -/
lemma Taken.mono {es k d} (taken : Taken es k) : Taken (es ++ [d]) k := by
  cases k with
  | source => trivial
  | dataLen source =>
    obtain ⟨w, p, hp, e⟩ := taken
    exact ⟨w, p, List.mem_append_left _ hp, e⟩
  | add source dataLen =>
    obtain ⟨w, v, p, q, hp, hq, e⟩ := taken
    exact ⟨w, v, p, q, List.mem_append_left _ hp, List.mem_append_left _ hq, e⟩

/-- A packet that a global leads to has been given to a call. -/
lemma Counted.deref {net es} {s : NetworkCalls} {g skb} (inv : Counted net es s)
    (at_ : s.deref g = some skb) :
    ∃ w, .enter w skb ∈ es := by
  obtain ⟨w, -, at_⟩ := Option.bind_eq_some_iff.mp at_
  obtain ⟨⟨a, pc⟩, call, live⟩ := Option.bind_eq_some_iff.mp at_
  have same : a = skb := by
    cases pc with
    | start => exact Option.some.inj live
    | body k => exact Option.some.inj live
    | returned t => cases live
  exact ⟨w, same ▸ inv.packets w a pc call⟩

/-- What a statement of a call behind the header does. -/
lemma exec_cases {net k v b x y} (ex : NetworkProcfs.code.exec net k v b x = some y) :
    (k = .source ∧ x = none ∧ ∃ skb, v = some skb ∧
      y = (net, .inl (.dataLen (Packet.pI4 skb.saddr)))) ∨
    (∃ source, k = .dataLen source ∧ x = none ∧
      ∃ skb, b = some skb ∧ y = (net, .inl (.add source skb.dataLen))) ∨
    ∃ source dataLen ans net', k = .add source dataLen ∧ x = some ans ∧
      Packet.addToListNetwork net source dataLen (some ans) = some net' ∧
      y = (net', .inr nfAccept) := by
  cases x with
  | none =>
    cases k with
    | source =>
      obtain ⟨skb, at_, rfl⟩ := Option.map_eq_some_iff.mp ex
      rw [Packet.key_eq]
      exact .inl ⟨rfl, rfl, skb, at_, rfl⟩
    | dataLen source =>
      obtain ⟨skb, at_, rfl⟩ := Option.map_eq_some_iff.mp ex
      exact .inr (.inl ⟨source, rfl, rfl, skb, at_, rfl⟩)
    | add source dataLen => cases ex
  | some ans =>
    cases k with
    | source => cases ex
    | dataLen source => cases ex
    | add source dataLen =>
      obtain ⟨net', st, rfl⟩ := Option.map_eq_some_iff.mp ex
      exact .inr (.inr ⟨source, dataLen, ans, net', rfl, rfl, st, rfl⟩)

/-- A call of `add_to_list_network` with the text of an address is the event of a packet. -/
lemma step_packet {net net' : Packet.Net} {a d l junk}
    (st : Packet.addToListNetwork net (Packet.pI4 a) d (some (l, junk)) = some net') :
    Packet.step net (.packet ⟨a, d⟩ l junk) = some net' := by
  rw [Packet.step, Packet.hookFunc_eq, Packet.key_eq, st]
  rfl

/-- A statement that adds nothing to the list. -/
lemma Counted.quiet {net es e} {s s' : NetworkCalls} (inv : Counted net es s)
    (other : isAdd e = false)
    (packets : ∀ w skb pc, s'.calls w = some (skb, pc) → .enter w skb ∈ es ++ [e])
    (taken : ∀ w skb k, s'.calls w = some (skb, .body k) → Taken (es ++ [e]) k)
    (same : s'.shared = s.shared) : Counted net (es ++ [e]) s' := by
  obtain ⟨evs, len, mixed, ad, go⟩ := inv.list
  refine ⟨packets, taken, evs, ?_, fun d mem => (mixed d mem).mono, ad, same ▸ go⟩
  rw [List.countP_append, List.countP_singleton, other]
  exact len

/-- Each statement keeps the account, also when calls overlap. -/
lemma Counted.step {net es e} {s s' : NetworkCalls} (inv : Counted net es s) (fresh : FreshNode s e)
    (st : Calls.step NetworkProcfs.code s e = some s') : Counted net (es ++ [e]) s' := by
  have old : ∀ w skb pc, s.calls w = some (skb, pc) → .enter w skb ∈ es ++ [e] :=
    fun w skb pc at_ => List.mem_append_left _ (inv.packets w skb pc at_)
  cases e with
  | enter w skb =>
    obtain ⟨-, rfl⟩ := Calls.stepWith_enter st
    refine inv.quiet rfl (fun v b pc at_ => ?_) (fun v b k at_ => ?_) rfl
    · rcases Calls.calls_setCall at_ with ⟨rfl, e⟩ | ⟨-, at_⟩
      · cases e
        exact List.mem_append_right _ List.mem_cons_self
      · exact old v b pc at_
    · rcases Calls.calls_setCall at_ with ⟨-, e⟩ | ⟨-, at_⟩
      · cases e
      · exact (inv.taken v b k at_).mono
  | view w =>
    obtain ⟨skb, at_w, rfl⟩ := Calls.stepWith_view st
    refine inv.quiet rfl (fun v b pc at_ => ?_) (fun v b k at_ => ?_) rfl
    · rcases Calls.calls_setCall at_ with ⟨rfl, e⟩ | ⟨-, at_⟩
      · cases e
        exact old v skb .start at_w
      · exact old v b pc at_
    · rcases Calls.calls_setCall at_ with ⟨-, e⟩ | ⟨-, at_⟩
      · cases e
        trivial
      · exact (inv.taken v b k at_).mono
  | body w x =>
    obtain ⟨skb, k, y, at_w, ex, rfl⟩ := Calls.stepWith_body st
    have packets : ∀ v b pc pc',
        ({ s with shared := y.1 }.setCall w skb pc').calls v = some (b, pc) →
        .enter v b ∈ es ++ [.body w x] := by
      intro v b pc pc' at_
      rcases Calls.calls_setCall at_ with ⟨rfl, e⟩ | ⟨-, at_⟩
      · cases e
        exact old v skb _ at_w
      · exact old v b pc at_
    have taken : ∀ v b j k', Taken (es ++ [.body w x]) k' →
        ({ s with shared := y.1 }.setCall w skb (.body k')).calls v = some (b, .body j) →
        Taken (es ++ [.body w x]) j := by
      intro v b j k' here at_
      rcases Calls.calls_setCall at_ with ⟨-, e⟩ | ⟨-, at_⟩
      · cases e
        exact here
      · exact (inv.taken v b j at_).mono
    rcases exec_cases ex with ⟨rfl, rfl, p, at_, rfl⟩ | ⟨source, rfl, rfl, q, at_, rfl⟩ |
      ⟨source, dataLen, ⟨l, junk⟩, net', rfl, rfl, add, rfl⟩
    · obtain ⟨u, mem⟩ := inv.deref at_
      refine inv.quiet rfl (fun v b pc => packets v b pc _) (fun v b j => taken v b j _ ?_) rfl
      exact Taken.mono (k := .dataLen (Packet.pI4 p.saddr)) ⟨u, p, mem, rfl⟩
    · obtain ⟨u, p, memp, rfl⟩ := inv.taken w skb _ at_w
      obtain ⟨u', memq⟩ := inv.deref at_
      refine inv.quiet rfl (fun v b pc => packets v b pc _) (fun v b j => taken v b j _ ?_) rfl
      exact Taken.mono (k := .add (Packet.pI4 p.saddr) q.dataLen)
        ⟨u, u', p, q, memp, memq, rfl, rfl⟩
    · -- the call counts the packet that it has put together
      obtain ⟨u, u', p, q, memp, memq, rfl, rfl⟩ := inv.taken w skb _ at_w
      obtain ⟨evs, len, mixed, ad, go⟩ := inv.list
      have free : Packet.AllocOk s.shared (.packet ⟨p.saddr, q.dataLen⟩ l junk) := fresh
      refine ⟨fun v b pc => packets v b pc _, fun v b j at_ => ?_,
        evs ++ [.packet ⟨p.saddr, q.dataLen⟩ l junk], ?_, ?_, ad.concat go free,
        run_snoc.mpr ⟨s.shared, go, step_packet add⟩⟩
      · rcases Calls.calls_setCall at_ with ⟨-, e⟩ | ⟨-, at_⟩
        · cases e
        · exact (inv.taken v b j at_).mono
      · rw [List.length_append, len, List.countP_append, List.countP_singleton]
        rfl
      · intro d mem
        rcases List.mem_append.mp mem with mem | mem
        · exact (mixed d mem).mono
        · rw [List.mem_singleton.mp mem]
          exact Mixed.mono (e := .packet ⟨p.saddr, q.dataLen⟩ l junk) ⟨u, u', p, q, memp, memq, rfl⟩

/-- After every run the list is well formed. -/
lemma Counted.rep {net es r} {s : NetworkCalls} (rep : Rep net r []) (inv : Counted net es s) :
    ∃ r' cs, Rep s.shared r' cs := by
  obtain ⟨evs, -, -, ad, go⟩ := inv.list
  obtain ⟨s', r', cs, go', rep', -⟩ := Packet.rep_of_history rep ad
  cases go.symm.trans go'
  exact ⟨r', cs, rep'⟩

/-- The packets of the calls so far, and those that have been counted. -/
def record (x : (Nat → Option Packet.SkBuff) × List Packet.Event) :
    NetworkEvent → (Nat → Option Packet.SkBuff) × List Packet.Event
  | .enter w skb => (Function.update x.1 w (some skb), x.2)
  | .view _ => x
  | .body w ans =>
    (x.1, x.2 ++ (ans.bind fun node => (x.1 w).map fun skb => .packet skb node.1 node.2).toList)

/-- For each call of `add_to_list_network` the packet that the hook was called with. -/
def ownPackets (es : List NetworkEvent) : List Packet.Event :=
  (es.foldl record (fun _ => none, [])).2

/-- What a call has read is from its own packet. -/
def TakenOwn (skb : Packet.SkBuff) : NetworkProcfs.Place → Prop
  | .source => True
  | .dataLen source => source = Packet.pI4 skb.saddr
  | .add source dataLen => source = Packet.pI4 skb.saddr ∧ dataLen = skb.dataLen

/-- What calls that do not overlap have done. -/
structure CountedOwn (net : Packet.Net) (es : List NetworkEvent) (s : NetworkCalls) : Prop where
  owns : Calls.Owns s
  packets : ∀ w, (es.foldl record (fun _ => none, [])).1 w = (s.calls w).map Prod.fst
  own : ∀ w skb k, s.calls w = some (skb, .body k) → TakenOwn skb k
  admits : Admits Packet.AllocOk Packet.step net (ownPackets es)
  list : run Packet.step net (ownPackets es) = some s.shared

/-- A call keeps its packet. -/
lemma map_fst_setCall {s t : NetworkCalls} {w skb pc pc'} (at_ : s.calls w = some (skb, pc))
    (same : t.calls = s.calls) (v : Nat) :
    ((t.setCall w skb pc').calls v).map Prod.fst = (s.calls v).map Prod.fst := by
  by_cases here : v = w
  · subst here
    rw [Calls.setCall_self, at_]
    rfl
  · rw [Calls.setCall_of_ne here, same]

/-- Each statement keeps the account of the own packets when calls do not overlap. -/
lemma CountedOwn.step {net es e} {s s' : NetworkCalls} (inv : CountedOwn net es s)
    (alone : Calls.Alone s e) (fresh : FreshNode s e)
    (st : Calls.step NetworkProcfs.code s e = some s') :
    CountedOwn net (es ++ [e]) s' := by
  have owns := inv.owns.step alone st
  have last : (es ++ [e]).foldl record (fun _ => none, []) =
      record (es.foldl record (fun _ => none, [])) e := List.foldl_concat ..
  cases e with
  | enter w skb =>
    obtain ⟨-, rfl⟩ := Calls.stepWith_enter st
    have same : ownPackets (es ++ [.enter w skb]) = ownPackets es := by
      rw [ownPackets, last]
      rfl
    refine ⟨owns, fun v => ?_, fun v b k at_ => ?_, same ▸ inv.admits, same ▸ inv.list⟩
    · rw [last]
      by_cases here : v = w
      · subst here
        rw [Calls.setCall_self]
        exact Function.update_self ..
      · rw [Calls.setCall_of_ne here]
        exact (Function.update_of_ne here ..).trans (inv.packets v)
    · rcases Calls.calls_setCall at_ with ⟨-, e⟩ | ⟨-, at_⟩
      · cases e
      · exact inv.own v b k at_
  | view w =>
    obtain ⟨skb, at_w, rfl⟩ := Calls.stepWith_view st
    have same : ownPackets (es ++ [.view w]) = ownPackets es := by
      rw [ownPackets, last]
      rfl
    refine ⟨owns, fun v => ?_, fun v b k at_ => ?_, same ▸ inv.admits, same ▸ inv.list⟩
    · rw [last]
      exact (inv.packets v).trans (map_fst_setCall at_w rfl v).symm
    · rcases Calls.calls_setCall at_ with ⟨-, e⟩ | ⟨-, at_⟩
      · cases e
        exact trivial
      · exact inv.own v b k at_
  | body w x =>
    rw [inv.owns.step_eq] at st
    obtain ⟨skb, k, y, at_w, ex, rfl⟩ := Calls.stepWith_body st
    have packets : ∀ v pc, ((es ++ [Calls.Event.body w x]).foldl record (fun _ => none, [])).1 v =
        (({ s with shared := y.1 }.setCall w skb pc).calls v).map Prod.fst := by
      intro v pc
      rw [last]
      exact (inv.packets v).trans (map_fst_setCall at_w rfl v).symm
    have mine : (es.foldl record (fun _ => none, [])).1 w = some skb := by
      rw [inv.packets w, at_w]
      rfl
    have own : ∀ v b j pc, (∀ i, pc = Calls.Pc.body i → TakenOwn skb i) →
        ({ s with shared := y.1 }.setCall w skb pc).calls v = some (b, .body j) → TakenOwn b j := by
      intro v b j pc here at_
      rcases Calls.calls_setCall at_ with ⟨-, e⟩ | ⟨-, at_⟩
      · cases e
        exact here j rfl
      · exact inv.own v b j at_
    rcases exec_cases ex with ⟨rfl, rfl, p, at_, rfl⟩ | ⟨source, rfl, rfl, q, at_, rfl⟩ |
      ⟨source, dataLen, ⟨l, junk⟩, net', rfl, rfl, add, rfl⟩
    · cases at_
      have same : ownPackets (es ++ [.body w none]) = ownPackets es := by
        rw [ownPackets, last]
        exact List.append_nil _
      refine ⟨owns, fun v => packets v _, fun v b j => own v b j _ ?_, same ▸ inv.admits,
        same ▸ inv.list⟩
      rintro i e
      cases e
      rfl
    · cases at_
      have same : ownPackets (es ++ [.body w none]) = ownPackets es := by
        rw [ownPackets, last]
        exact List.append_nil _
      refine ⟨owns, fun v => packets v _, fun v b j => own v b j _ ?_, same ▸ inv.admits,
        same ▸ inv.list⟩
      rintro i e
      cases e
      exact ⟨inv.own w skb _ at_w, rfl⟩
    · obtain ⟨rfl, rfl⟩ := inv.own w skb _ at_w
      have more : ownPackets (es ++ [.body w (some (l, junk))]) =
          ownPackets es ++ [.packet skb l junk] := by
        rw [ownPackets, last, record, mine]
        rfl
      have free : Packet.AllocOk s.shared (.packet skb l junk) := fresh
      refine ⟨owns, fun v => packets v _, fun v b j => own v b j _ ?_, ?_, ?_⟩
      · rintro i e
        cases e
      · rw [more]
        exact inv.admits.concat inv.list free
      · rw [more]
        exact run_snoc.mpr ⟨s.shared, inv.list, step_packet add⟩

end KernelModules.Netfilter
