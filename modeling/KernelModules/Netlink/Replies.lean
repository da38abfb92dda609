import KernelModules.Netlink.Source

/-!
# Where the replies go

`hello_nl_recv_msg` sends its reply to the group 33, but the protocol has the groups 1 to 32:
`netlink_cfg` asks for no more. So no socket can be a member, and every broadcast returns `-ESRCH`.

* `toList_reply`: what the buffer of the reply holds, whatever was in the memory before.
* `helloNlRecvMsg_eq`: what the handler does with a message, for any sockets. It reads behind the
  end of a message that has no NUL behind its header.
* `replies_lost`: in every run no message is ever put into a queue, and the log shows an error for
  each one.
-/

namespace KernelModules.Netlink

variable {s s' : State} {e : Event}

/-- The reply: header, payload, and padding. -/
def reply : List UInt8 :=
  NlMsgHdr.bytes ⟨33, nlmsgDone, 0, 1, 0⟩ ++ msg ++ [0, 0, 0]

/-- A block that replaces another one of its length. -/
lemma overlay_block (as bs cs ds : List UInt8) (len : ds.length = bs.length) :
    overlay (as ++ bs ++ cs) as.length ds = as ++ ds ++ cs := by
  have fits : ds.length ≤ bs.length + cs.length := len ▸ Nat.le_add_right _ _
  simp [overlay, len, List.take_of_length_le fits]

/-- Header, padding and text fill the reply, whatever the memory held before. -/
lemma toList_reply (buf : Buf UInt8 36) :
    (((buf.overlay 0 (NlMsgHdr.bytes ⟨33, nlmsgDone, 0, 1, 0⟩)).overlay 33
        (List.replicate 3 0)).overlay 16
      (msg.take 17)).toList = reply := by
  obtain ⟨hdr, payload, pad, e, l1, l2, l3⟩ : ∃ hdr payload pad : List UInt8,
      buf.toList = hdr ++ payload ++ pad ∧ hdr.length = 16 ∧ payload.length = 17 ∧
      pad.length = 3 := by
    have size := buf.size
    refine ⟨buf.toList.take 16, (buf.toList.drop 16).take 17, (buf.toList.drop 16).drop 17, ?_, ?_,
      ?_, ?_⟩
    · rw [List.append_assoc, List.take_append_drop, List.take_append_drop]
    all_goals
      simp only [List.length_take, List.length_drop]
      omega
  have written : overlay buf.toList 0 (NlMsgHdr.bytes ⟨33, nlmsgDone, 0, 1, 0⟩) =
      NlMsgHdr.bytes ⟨33, nlmsgDone, 0, 1, 0⟩ ++ payload ++ pad := by
    rw [e, List.append_assoc, List.append_assoc]
    exact overlay_block [] hdr (payload ++ pad) _ l1.symm
  have padded :
      overlay (NlMsgHdr.bytes ⟨33, nlmsgDone, 0, 1, 0⟩ ++ payload ++ pad) 33 (List.replicate 3 0) =
      NlMsgHdr.bytes ⟨33, nlmsgDone, 0, 1, 0⟩ ++ payload ++ [0, 0, 0] := by
    have block :=
      overlay_block (NlMsgHdr.bytes ⟨33, nlmsgDone, 0, 1, 0⟩ ++ payload) pad [] (List.replicate 3 0)
      l3.symm
    rw [List.length_append, l2] at block
    rwa [List.append_nil, List.append_nil] at block
  show overlay (overlay (overlay buf.toList 0 _) 33 _) 16 _ = reply
  rw [written, padded]
  exact overlay_block _ payload [0, 0, 0] msg l2.symm

/-- The text in the payload ends inside the message. -/
def Event.WellFormed : Event → Prop
  | .send data _ _ => 0 ∈ nlmsgData data
  | _ => True

/-- The lines that the handler writes first. -/
def received (data : List UInt8) : List Line :=
  [.entering, .payload (cstring (nlmsgData data)), .sendingBack (ofBytes 32 (slice data 12 16))]

/-- The handler reads beyond a message that has no NUL behind its header. -/
lemma helloNlRecvMsg_eq_none {socks data memory room} (bad : 0 ∉ nlmsgData data) :
    helloNlRecvMsg socks data memory room = none := by
  rw [helloNlRecvMsg, payloadString, if_neg bad]
  rfl

/-- What `hello_nl_recv_msg` does with a text that ends inside the message. -/
lemma helloNlRecvMsg_eq {socks data memory room} (ok : 0 ∈ nlmsgData data) :
    helloNlRecvMsg socks data memory room =
      some (memory.elim (socks, received data ++ [.failedToAllocate]) fun _ =>
        let sent := netlinkBroadcast socks reply (ofBytes 32 (slice data 12 16)) multicastGroup room
        (sent.1, received data ++ if sent.2 < 0 then [.errorSending sent.2] else [])) := by
  have long : 12 + 4 ≤ data.length := by
    have lt := List.length_pos_of_mem ok
    rw [nlmsgData, List.length_drop, nlmsgHdrLen] at lt
    omega
  rw [helloNlRecvMsg, payloadString, if_pos ok, nlmsgPid, readAt, if_pos long]
  cases memory with
  | none => rfl
  | some junk =>
    have bytes :=
      toList_reply ⟨(List.range 36).map junk, by rw [List.length_map, List.length_range]⟩
    rw [Option.elim_some, ← bytes]
    rfl

/-! ## Runs -/

/-- No socket is a member of the group of the replies, or has a message. -/
structure Silent (s : State) : Prop where
  ngroups : s.ngroups = 32
  groups : ∀ k ∈ s.socks, multicastGroup ∉ k.groups
  queues : ∀ k ∈ s.socks, k.queue = []

/-- A broadcast that no socket takes. -/
lemma netlinkBroadcast_of_not_member {socks msg portid group room}
    (out : ∀ k ∈ socks, group ∉ k.groups) :
    netlinkBroadcast socks msg portid group room = (socks, eSrch) := by
  have takes : ∀ k ∈ socks, Sock.takes portid group room k = false := by
    intro k mem
    simp [Sock.takes, out k mem]
  refine Prod.ext ?_ ?_
  · refine (List.map_congr_left fun k mem => ?_).trans (List.map_id socks)
    rw [takes k mem]
    rfl
  · refine if_neg ?_
    rw [List.any_eq_true]
    rintro ⟨k, mem, yes⟩
    rw [takes k mem] at yes
    cases yes

/-- What one socket keeps, the update of it keeps for all. -/
lemma mem_update {socks portid f} {P : Sock → Prop} (all : ∀ k ∈ socks, P k)
    (keeps : ∀ k, P k → P (f k)) :
    ∀ k ∈ update socks portid f, P k := by
  intro k mem
  obtain ⟨k', mem', rfl⟩ := List.mem_map.mp mem
  split
  case isTrue => exact keeps k' (all k' mem')
  case isFalse => exact all k' mem'

/-- What an event adds to the log. -/
def Event.lines : Event → List Line
  | .send data memory _ =>
    received data ++ [memory.elim .failedToAllocate fun _ => .errorSending eSrch]
  | _ => []

/-- A well-formed event goes through and delivers nothing. -/
lemma Silent.step (inv : Silent s) (ok : e.WellFormed) :
    ∃ s', step s e = some s' ∧ Silent s' ∧ s'.log = s.log ++ e.lines := by
  cases e with
  | bind portid mask =>
    refine ⟨_, rfl, ?_, (List.append_nil _).symm⟩
    rw [netlinkBind]
    split
    case isTrue => exact inv
    case isFalse =>
      refine ⟨inv.ngroups, ?_, ?_⟩
      · refine List.forall_mem_append.mpr ⟨inv.groups, List.forall_mem_singleton.mpr fun mem => ?_⟩
        -- a mask has the groups up to 32
        obtain ⟨i, mem, e⟩ := List.mem_map.mp mem
        have lt := List.mem_range.mp (List.mem_filter.mp mem).1
        rw [multicastGroup] at e
        omega
      · exact List.forall_mem_append.mpr ⟨inv.queues, List.forall_mem_singleton.mpr rfl⟩
  | addMembership portid group =>
    refine ⟨_, rfl, ?_, (List.append_nil _).symm⟩
    rw [addMembership]
    split
    case isTrue => exact inv
    case isFalse known =>
      refine ⟨inv.ngroups, mem_update inv.groups fun k out mem => ?_,
        mem_update inv.queues fun _ empty => empty⟩
      rcases List.mem_cons.mp mem with rfl | mem
      · -- the group of the replies is refused
        rw [inv.ngroups] at known
        exact known (by decide)
      · exact out mem
  | dropMembership portid group =>
    refine ⟨_, rfl, ?_, (List.append_nil _).symm⟩
    rw [dropMembership]
    split
    case isTrue => exact inv
    case isFalse =>
      refine ⟨inv.ngroups, mem_update inv.groups fun k out mem => ?_,
        mem_update inv.queues fun _ empty => empty⟩
      exact out (List.mem_filter.mp mem).1
  | send data memory room =>
    refine ⟨_, congrArg (Option.bind · _) (helloNlRecvMsg_eq ok), ?_⟩
    cases memory with
    | none => exact ⟨⟨inv.ngroups, inv.groups, inv.queues⟩, rfl⟩
    | some junk =>
      simp only [netlinkBroadcast_of_not_member inv.groups]
      exact ⟨⟨inv.ngroups, inv.groups, inv.queues⟩, rfl⟩
  | recv portid =>
    refine ⟨_, rfl, ⟨inv.ngroups, mem_update inv.groups fun k out => out,
      mem_update inv.queues fun k empty => ?_⟩,
      (List.append_nil _).symm⟩
    rw [empty]
    rfl
  | close portid =>
    refine ⟨_, rfl, ⟨inv.ngroups, fun k mem => ?_, fun k mem => ?_⟩, (List.append_nil _).symm⟩
    · exact inv.groups k (List.mem_of_mem_filter mem)
    · exact inv.queues k (List.mem_of_mem_filter mem)

/-- So does every run of well-formed events. -/
lemma run_of_wellFormed {es} (ok : ∀ e ∈ es, Event.WellFormed e) :
    ∃ s, run step .start es = some s ∧ Silent s ∧ s.log = es.flatMap Event.lines := by
  induction es using List.reverseRecOn with
  | nil =>
    refine ⟨.start, rfl, ⟨rfl, ?_, ?_⟩, rfl⟩
    · exact fun k mem => absurd mem List.not_mem_nil
    · exact fun k mem => absurd mem List.not_mem_nil
  | append_singleton es e ih =>
    obtain ⟨ok, last⟩ := List.forall_mem_append.mp ok
    obtain ⟨s, go, inv, log⟩ := ih ok
    obtain ⟨s', st, inv', log'⟩ := inv.step (last e List.mem_cons_self)
    refine ⟨s', run_snoc.mpr ⟨s, go, st⟩, inv', ?_⟩
    rw [log', log, List.flatMap_append, List.flatMap_singleton]

/-- A message whose text has no end is an invalid access. -/
lemma step_of_not_wellFormed (bad : ¬ e.WellFormed) : Netlink.step s e = none := by
  cases e with
  | send data memory room =>
    rw [step, helloNlRecvMsg_eq_none bad]
    rfl
  | _ => exact absurd trivial bad

/-- What a run does: it goes through unless a message has no NUL behind its header. No process ever
    receives a reply; every message is logged with its text and the port in its header, and its
    reply with an error. -/
theorem replies_lost (es : List Event) :
    ((run step .start es).isSome ↔ ∀ e ∈ es, e.WellFormed) ∧
      ∀ s, run step .start es = some s → (∀ k ∈ s.socks, k.queue = []) ∧
        s.log = es.flatMap Event.lines := by
  rcases all_or_first (q := Event.WellFormed) es with ok | ⟨pre, e, post, rfl, ok, bad⟩
  · obtain ⟨s, go, inv, log⟩ := run_of_wellFormed ok
    refine ⟨iff_of_true (go ▸ rfl) ok, fun s' go' => ?_⟩
    cases go.symm.trans go'
    exact ⟨inv.queues, log⟩
  · -- the run stops at the first message without a NUL
    obtain ⟨s, go, -⟩ := run_of_wellFormed ok
    have stuck : run step .start (pre ++ e :: post) = none := by
      rw [run_append, go, Option.bind_some, run_cons, step_of_not_wellFormed bad]
      rfl
    refine ⟨iff_of_false ?_ fun all => bad (all e (List.mem_append_right pre List.mem_cons_self)),
      ?_⟩
    · rw [stuck]
      exact Bool.false_ne_true
    · intro s' go'
      cases stuck.symm.trans go'

/-- Two sockets; one asks for the group of the replies, and the other one sends. -/
example : (run step .start [.bind 7 0xFFFFFFFF, .bind 8 0, .addMembership 8 33,
    .send ((NlMsgHdr.mk 18 0 0 0 7).bytes ++ [104, 0]) (some fun _ => 0) fun _ => true]).map
      State.log =
    some [.entering, .payload [104], .sendingBack 7, .errorSending (-3)] := by
  decide +kernel

end KernelModules.Netlink
