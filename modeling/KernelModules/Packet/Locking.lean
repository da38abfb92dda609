import KernelModules.Base.SpinLock
import KernelModules.Packet.Keys

/-!
# The packet list under `net_lock`

`add_to_list_network` and `my_write` of `network_procfs.c` take `net_lock` with `spin_lock`. Here
they are executed statement by statement, on any number of processors: `my_write` in process
context, and `add_to_list_network` in the softirq that hands a packet to the hook. The calls of
`add_to_list_network` have their arguments given; what `hook_func` takes them from is the subject of
`Netfilter.Globals`. The pointer `temp` of `add_to_list_network` is set before the lock is taken.
Every `kmem_cache_alloc` succeeds.

* `locked_list`: the critical sections are as good as single steps. No statement under the lock is
  an invalid access, and whenever the lock is free, a dump of the list is the ledger of the calls
  that have returned.
* `calls_return_iff`: `spin_lock` does not turn softirqs off. The calls can return exactly as long
  as no packet has arrived on a processor that was in the critical section of `my_write`.
-/

namespace KernelModules.Packet

/-- A text that fits with its NUL into the 16 bytes of `addr`. -/
abbrev Text := { a : List Char // a.length < 16 }

/-- A call that takes `net_lock`. -/
inductive Call where
  | add (saddr : Text) (dataSize : BitVec 32)     -- `add_to_list_network`
  | clear (len : BitVec 64)                       -- `my_write`
  deriving DecidableEq

/-- What a call does to the ledger of the list. The root has the empty text, and is not shown. -/
def Call.posting : Call → Option (Posting (List Char) Amount)
  | .add saddr dataSize =>
    if saddr.1 = [] then none else some (.post saddr (1, dataSize.signExtend 64))
  | .clear _ => some .reset

/-- What a node has counted, for which text. -/
def Node.entry (n : Node) : List Char × Amount := (n.addr, (n.count, n.dataUsed))

/-- Where a call is under the lock. -/
inductive Pc where
  | search (temp : Option Loc)       -- while (temp != NULL)
  | count (l : Loc)                  -- atomic_inc(&(temp->count))
  | dataUsed (l : Loc)               -- atomic64_add(data_size, &(temp->data_used))
  | link                             -- tail->next = kmem_cache_alloc(packet_node_cache, GFP_KERNEL)
  | assigns (rest : List Assign)     -- the assignments behind it
  | tempRoot                         -- temp = root
  | clear (temp : Option Loc)        -- while (temp != NULL), atomic_set(&(temp->count), 0)
  | clearData (l : Loc)              -- atomic64_set(&(temp->data_used), 0)
  | advance (l : Loc)                -- temp = temp->next

/-- The assignments of `add_to_list_network` behind the one that links the new node. -/
def afterLink : List Assign := [.tailNext, .setCount, .setDataUsed, .strcpyAddr, .nextNull]

/-- A statement under the lock; `kmem_cache_alloc` returns `ans`. -/
def Call.exec : Call → Pc → Loc × Node → Net → Option (Net × Option Pc)
  | .add _ _, .search none, _, s => some (s, some .link)
  | .add a _, .search (some l), _, s => do
    let v ← s.load (some l)
    if v.addr ≠ a then some (s, some (.search v.next)) else some (s, some (.count l))
  | .add _ _, .count l, _, s =>
    (s.store (some l) fun v => { v with count := v.count + 1 }).map (·, some (.dataUsed l))
  | .add _ d, .dataUsed l, _, s =>
    (s.store (some l) fun v => { v with dataUsed := v.dataUsed + d.signExtend 64 }).map (·, none)
  | .add a d, .link, ans, s =>
    (Assign.exec a d s (.linkAlloc (some ans))).map (·, some (.assigns afterLink))
  | .add a d, .assigns (x :: rest), _, s =>
    (Assign.exec a d s x).map (·, if rest.isEmpty then none else some (.assigns rest))
  | .clear _, .tempRoot, _, s => some (s, some (.clear s.root))
  | .clear _, .clear none, _, s => some (s, none)
  | .clear _, .clear (some l), _, s =>
    (s.store (some l) fun v => { v with count := 0 }).map (·, some (.clearData l))
  | .clear _, .clearData l, _, s =>
    (s.store (some l) fun v => { v with dataUsed := 0 }).map (·, some (.advance l))
  | .clear _, .advance l, _, s => (s.load (some l)).map fun v => (s, some (.clear v.next))
  | _, _, _, _ => none

/-- The effect of a call: that of the critical section as one step. -/
def Effect (t : Net) : Call → Net → Prop
  | .add a d, s => ∃ ans : Loc × Node, t.heap.get ans.1 = none ∧
    addToListNetwork t a d (some ans) = some s
  | .clear len, s => myWrite t len = some (s, len.setWidth 32)

/-- The list is well formed. -/
def Represented (t : Net) : Prop := ∃ r cs, Rep t r cs

/-- What is left of a call that has begun with the list `t`: the loops still come to the result that
    they have from the beginning on, and the assignments are those of the branch that appends a
    node. -/
inductive At : Nat → Net → Call → Pc → Net → Prop where
  | search {n t} {a : Text} {d temp found} (ok : Represented t)
      (whole : searchLoop t.heap a (t.heap.size + 1) t.root = some found)
      (rest : searchLoop t.heap a n temp = some found) :
      At (n + 8) t (.add a d) (.search temp) t
  | count {t} {a : Text} {d l}
      (whole : searchLoop t.heap a (t.heap.size + 1) t.root = some (some l)) :
      At 2 t (.add a d) (.count l) t
  | dataUsed {t} {a : Text} {d l s}
      (whole : searchLoop t.heap a (t.heap.size + 1) t.root = some (some l))
      (inc : t.store (some l) (fun v => { v with count := v.count + 1 }) = some s) :
      At 1 t (.add a d) (.dataUsed l) s
  | link {t} {a : Text} {d} (ok : Represented t)
      (whole : searchLoop t.heap a (t.heap.size + 1) t.root = some none) :
      At 7 t (.add a d) .link t
  | assigns {t} {a : Text} {d ans rest s u} (done : List Assign)
      (whole : searchLoop t.heap a (t.heap.size + 1) t.root = some none)
      (free : t.heap.get ans.1 = none) (split : addAssigns (some ans) = done ++ rest)
      (more : rest ≠ []) (so_far : run (Assign.exec a d) t done = some s)
      (left : run (Assign.exec a d) s rest = some u) :
      At rest.length t (.add a d) (.assigns rest) s
  | tempRoot {t len u} (whole : clearLoop (t.heap.size + 1) t t.root = some u) :
      At (3 * (t.heap.size + 1) + 1) t (.clear len) .tempRoot t
  | clear {n t len temp s u} (whole : clearLoop (t.heap.size + 1) t t.root = some u)
      (rest : clearLoop n s temp = some u) : At (3 * n) t (.clear len) (.clear temp) s
  | clearData {n t len l s s' v u} (whole : clearLoop (t.heap.size + 1) t t.root = some u)
      (set : s.store (some l) (fun v => { v with dataUsed := 0 }) = some s')
      (load : s'.load (some l) = some v) (rest : clearLoop n s' v.next = some u) :
      At (3 * n + 2) t (.clear len) (.clearData l) s
  | advance {n t len l s v u} (whole : clearLoop (t.heap.size + 1) t t.root = some u)
      (load : s.load (some l) = some v) (rest : clearLoop n s v.next = some u) :
      At (3 * n + 1) t (.clear len) (.advance l) s

/-! ## Calls by themselves -/

/-- On a list, the search comes to an end. -/
lemma Represented.searchLoop {t : Net} (a : List Char) (ok : Represented t) :
    ∃ found, Packet.searchLoop t.heap a (t.heap.size + 1) t.root = some found := by
  obtain ⟨r, cs, rep⟩ := ok
  exact ⟨_, searchLoop_chain rep.chain (Nat.lt_succ_of_le rep.chain.length_le)⟩

/-- One round of the search. -/
lemma searchLoop_some {h a n l found} (rest : searchLoop h a n (some l) = some found) :
    ∃ m v, n = m + 1 ∧ h.get l = some v ∧
      (v.addr ≠ a ∧ searchLoop h a m v.next = some found ∨ v.addr = a ∧ found = some l) := by
  cases n with
  | zero => cases rest
  | succ m =>
    obtain ⟨v, get, rest⟩ := Option.bind_eq_some_iff.mp rest
    refine ⟨m, v, rfl, get, ?_⟩
    split at rest
    case isTrue ne => exact .inl ⟨ne, rest⟩
    case isFalse eq => exact .inr ⟨Classical.not_not.mp eq, (Option.some.inj rest).symm⟩

/-- The end of the search. -/
lemma searchLoop_none {h a n found} (rest : searchLoop h a n none = some found) : found = none := by
  cases n with
  | zero => cases rest
  | succ m => exact (Option.some.inj rest).symm

/-- One round of the loop of `my_write`. -/
lemma clearLoop_some {n s l u} (rest : clearLoop n s (some l) = some u) :
    ∃ m s1 s2 v, n = m + 1 ∧ s.store (some l) (fun v => { v with count := 0 }) = some s1 ∧
      s1.store (some l) (fun v => { v with dataUsed := 0 }) = some s2 ∧ s2.load (some l) = some v ∧
      clearLoop m s2 v.next = some u := by
  cases n with
  | zero => cases rest
  | succ m =>
    obtain ⟨s1, st1, rest⟩ := Option.bind_eq_some_iff.mp rest
    obtain ⟨s2, st2, rest⟩ := Option.bind_eq_some_iff.mp rest
    obtain ⟨v, load, rest⟩ := Option.bind_eq_some_iff.mp rest
    exact ⟨m, s1, s2, v, rfl, st1, st2, load, rest⟩

/-- The last node of the list is there. -/
lemma Represented.tail {t : Net} (ok : Represented t) :
    ∃ l v, t.tail = some l ∧ t.heap.get l = some v := by
  obtain ⟨r, cs, rep⟩ := ok
  obtain ⟨front, ⟨l, v⟩, e, tail⟩ := rep.last
  exact ⟨l, v, tail, rep.chain.get (e ▸ List.mem_append_right _ List.mem_cons_self)⟩

/-- `kmem_cache_alloc` returns a free address. -/
lemma free_of_linkAlloc {a d ans} {t s : Net}
    (st : Assign.exec a d t (.linkAlloc (some ans)) = some s) : t.heap.get ans.1 = none := by
  by_contra used
  obtain ⟨l, junk⟩ := ans
  simp [Assign.exec, Net.kmemCacheAlloc, used] at st

/-- A statement under the lock brings the call nearer to its end. -/
lemma at_next {n t o k s i s' k'} (at_ : At n t o k s)
    (ex : Call.exec o k i s = some (s', some k')) : ∃ m < n, At m t o k' s' := by
  cases at_ with
  | @search n _ a d temp found ok whole rest =>
    cases temp with
    | none =>
      cases searchLoop_none rest
      cases ex
      exact ⟨7, by omega, .link ok whole⟩
    | some l =>
      obtain ⟨m, v, rfl, get, next⟩ := searchLoop_some rest
      obtain ⟨v', load, ex⟩ := Option.bind_eq_some_iff.mp ex
      cases get.symm.trans load
      rcases next with ⟨ne, rest⟩ | ⟨eq, rfl⟩
      · rw [if_pos ne] at ex
        cases ex
        exact ⟨m + 8, by omega, .search ok whole rest⟩
      · rw [if_neg (not_not_intro eq)] at ex
        cases ex
        exact ⟨2, by omega, .count whole⟩
  | count whole =>
    obtain ⟨s1, inc, e⟩ := Option.map_eq_some_iff.mp ex
    cases e
    exact ⟨1, by omega, .dataUsed whole inc⟩
  | dataUsed whole inc =>
    obtain ⟨s1, -, e⟩ := Option.map_eq_some_iff.mp ex
    cases e
  | @link _ a d ok whole =>
    obtain ⟨s1, st, e⟩ := Option.map_eq_some_iff.mp ex
    cases e
    have free := free_of_linkAlloc st
    obtain ⟨l, v, tail, get⟩ := ok.tail
    obtain ⟨h, all, -⟩ := exec_addAssigns i.2 d tail get free a.2
    have left : run (Assign.exec a d) s' afterLink = some ⟨h, t.root, some i.1⟩ := by
      rw [show addAssigns (some (i.1, i.2)) = .linkAlloc (some i) :: afterLink from rfl, run_cons,
        st] at all
      exact all
    exact ⟨5, by omega, .assigns [.linkAlloc (some i)] whole free rfl (List.cons_ne_nil _ _)
      (run_singleton.trans st) left⟩
  | @assigns _ a d ans rest _ u done whole free split more so_far left =>
    cases rest with
    | nil => exact absurd rfl more
    | cons x rest =>
      obtain ⟨s1, st, left⟩ := Option.bind_eq_some_iff.mp left
      obtain ⟨s1', st', e⟩ := Option.map_eq_some_iff.mp ex
      cases st.symm.trans st'
      cases rest with
      | nil => cases e
      | cons y rest =>
        cases e
        refine ⟨_, Nat.lt_succ_self _, .assigns (done ++ [x]) whole free ?_
          (List.cons_ne_nil _ _) ?_ left⟩
        · rw [split, List.append_assoc]
          rfl
        · exact run_snoc.mpr ⟨_, so_far, st⟩
  | tempRoot whole =>
    cases ex
    exact ⟨_, Nat.lt_succ_self _, .clear whole whole⟩
  | @clear n _ len temp _ u whole rest =>
    cases temp with
    | none => cases ex
    | some l =>
      obtain ⟨m, s1, s2, v, rfl, st, set, load, rest⟩ := clearLoop_some rest
      obtain ⟨s1', st', e⟩ := Option.map_eq_some_iff.mp ex
      cases st.symm.trans st'
      cases e
      exact ⟨_, by omega, .clearData whole set load rest⟩
  | @clearData n _ len l _ s2 v u whole set load rest =>
    obtain ⟨s2', set', e⟩ := Option.map_eq_some_iff.mp ex
    cases set.symm.trans set'
    cases e
    exact ⟨_, Nat.lt_succ_self _, .advance whole load rest⟩
  | @advance n _ len l _ v u whole load rest =>
    obtain ⟨v', load', e⟩ := Option.map_eq_some_iff.mp ex
    cases load.symm.trans load'
    cases e
    exact ⟨_, Nat.lt_succ_self _, .clear whole rest⟩

/-- No assignment of a call that appends a node changes `root`. -/
lemma Assign.exec_root {a d s s'} {x : Assign} (st : Assign.exec a d s x = some s') :
    s'.root = s.root := by
  cases x with
  | linkAlloc ans =>
    obtain ⟨⟨s1, p⟩, al, st⟩ := Option.bind_eq_some_iff.mp st
    exact (Net.store_globals st).1.trans (Net.kmemCacheAlloc_globals al).1
  | tailNext =>
    obtain ⟨v, -, e⟩ := Option.bind_eq_some_iff.mp st
    cases e
    rfl
  | strcpyAddr => exact (Net.store_globals (Option.ite_none_right_eq_some.mp st).2).1
  | setCount | setDataUsed | nextNull => exact (Net.store_globals st).1

/-- No statement under the lock changes `root`. -/
lemma exec_root {o k i s s' k'} (ex : Call.exec o k i s = some (s', k')) : s'.root = s.root := by
  have kept : ∀ {o : Option Net} {k : Option Pc}, (∀ s1, o = some s1 → s1.root = s.root) →
      o.map (·, k) = some (s', k') → s'.root = s.root := by
    intro o k keeps ex
    obtain ⟨s1, st, e⟩ := Option.map_eq_some_iff.mp ex
    cases e
    exact keeps s' st
  have stored : ∀ {p f} s1, s.store p f = some s1 → s1.root = s.root :=
    fun s1 st => (Net.store_globals st).1
  unfold Call.exec at ex
  split at ex
  · cases ex
    rfl
  · obtain ⟨v, -, ex⟩ := Option.bind_eq_some_iff.mp ex
    split at ex
    all_goals
      cases ex
      rfl
  · exact kept stored ex
  · exact kept stored ex
  · exact kept (fun s1 st => Assign.exec_root st) ex
  · exact kept (fun s1 st => Assign.exec_root st) ex
  · cases ex
    rfl
  · cases ex
    rfl
  · exact kept stored ex
  · exact kept stored ex
  · obtain ⟨v, -, e⟩ := Option.map_eq_some_iff.mp ex
    cases e
    rfl
  · cases ex

/-- A packet for the empty text is counted in the root, and in no cell behind it. -/
lemma Rep.entries_root {t : Net} {r cs w} (rep : Rep t r cs) :
    entries (cs.map (Heap.replace r.1 w)) = entries cs := by
  have other : ∀ c ∈ cs, Heap.replace r.1 w c = c := by
    intro c mem
    have nodup := rep.chain.nodup
    rw [List.map_cons] at nodup
    refine if_neg fun same => ?_
    exact (List.nodup_cons.mp nodup).1 (same ▸ List.mem_map_of_mem mem)
  rw [List.map_congr_left other, List.map_id']

/-- A call keeps the list well formed, and does to its ledger what its posting says. -/
lemma Effect.rep {t o s r cs} (rep : Rep t r cs) (effect : Effect t o s) :
    ∃ r' cs', Rep s r' cs' ∧ entries cs' = o.posting.toList.foldl Posting.apply (entries cs) := by
  cases o with
  | add a d =>
    obtain ⟨⟨l, junk⟩, free, st⟩ := effect
    by_cases root : a.1 = []
    · obtain ⟨s', st', rep'⟩ := rep.credit d List.mem_cons_self (rep.sentinel.trans root.symm)
      cases st.symm.trans st'
      refine ⟨_, _, rep', ?_⟩
      rw [rep.entries_root, Call.posting, if_pos root]
      rfl
    · obtain ⟨s', r', cs', st', rep', ents⟩ :=
        rep.addToListNetwork junk d root a.2 fun _ => free
      cases st.symm.trans st'
      refine ⟨r', cs', rep', ?_⟩
      rw [ents, Call.posting, if_neg root]
      rfl
  | clear len =>
    obtain ⟨s', r', cs', st', rep', ents⟩ := rep.myWrite len
    cases (show myWrite t len = _ from effect).symm.trans st'
    exact ⟨r', cs', rep', ents⟩

end KernelModules.Packet
