import KernelModules.Packet.Teardown

/-!
# A traversal without the lock

One reader of `/proc/net_proc` calls `my_start`, passes each node it receives to `my_show` and calls
`my_next` until it receives `NULL`. It takes no lock: any number of critical sections
(`add_to_list_network`, `my_write`) can run between any two of its calls.

The nodes visited, with the one at the cursor, are always the first ones of the list behind the root
(`Placed`), because a critical section at most appends. So when the reader receives `NULL` it has
visited the list as it is at this moment (`visited_of_traversal`).
-/

namespace KernelModules.Packet

/-- Where the reader is. -/
inductive Cursor where
  | idle                  -- before `my_start`
  | received (l : Loc)    -- before `my_show` of a node
  | shown (l : Loc)       -- before `my_next` of a node
  | ended                 -- `NULL` has been received
  deriving DecidableEq

/-- The reader with a pointer it has received. -/
def Cursor.ofPtr : Option Loc → Cursor
  | some l => received l
  | none => ended

/-- The list and the reader: the nodes it has passed to `my_show`, as they were then, and what has
    been printed. -/
structure Walk where
  net : Net
  cursor : Cursor
  visited : List (Loc × Node)
  out : List Char

/-- The reader before its first call. -/
def Walk.init (s : Net) : Walk := ⟨s, .idle, [], []⟩

/-- A critical section, or a call of the reader. -/
inductive WalkEvent where
  | op (o : Op)
  | myStart
  | myShow
  | myNext

/-- One step. -/
def walkStep (w : Walk) : WalkEvent → Option Walk
  | .op o => (opStep w.net o).map fun net => { w with net }
  | .myStart =>
    match w.cursor with
    | .idle => (myStart w.net 0).map fun x => { w with cursor := .ofPtr x.1 }
    | _ => none
  | .myShow =>
    match w.cursor with
    | .received l => do
      let v ← w.net.load (some l)
      let text ← myShow w.net (some l)
      some { w with cursor := .shown l, visited := w.visited ++ [(l, v)], out := w.out ++ text }
    | _ => none
  | .myNext =>
    match w.cursor with
    | .shown l => (myNext w.net (some l) 0).map fun x => { w with cursor := .ofPtr x.1 }
    | _ => none

/-- The reader makes its calls in turn; a critical section as in `OpOk`. -/
def WalkOk (w : Walk) : WalkEvent → Prop
  | .op o => OpOk w.net o
  | .myStart => w.cursor = .idle
  | .myShow => ∃ l, w.cursor = .received l
  | .myNext => ∃ l, w.cursor = .shown l

/-- What has been visited, compared with the list behind the root. -/
def Placed (visited list : List (Loc × List Char)) : Cursor → Prop
  | .idle => visited = []
  | .received l => ∃ a, visited ++ [(l, a)] <+: list
  | .shown l => ∃ pre a, visited = pre ++ [(l, a)] ∧ visited <+: list
  | .ended => True

/-- The invariant of a traversal. -/
structure WalkInv (w : Walk) (r : Loc × Node) (cs : List (Loc × Node)) : Prop where
  rep : Rep w.net r cs
  placed : Placed (skeleton w.visited) (skeleton cs) w.cursor
  out : w.out = (w.visited.map (·.2.record)).flatten

/-- A list that grows at its end keeps the place of the reader. -/
lemma Placed.mono {visited list list' c} (pl : Placed visited list c) (grown : list <+: list') :
    Placed visited list' c := by
  cases c with
  | idle => exact pl
  | received l =>
    obtain ⟨a, pre⟩ := pl
    exact ⟨a, pre.trans grown⟩
  | shown l =>
    obtain ⟨before, a, e, pre⟩ := pl
    exact ⟨before, a, e, pre.trans grown⟩
  | ended => trivial

/-- A cell of a list, found through its address and text. -/
lemma cell_of_skeleton {before l a} {cs : List (Loc × Node)}
    (pre : before ++ [(l, a)] <+: skeleton cs) :
    ∃ xs v ys, cs = xs ++ (l, v) :: ys ∧ skeleton xs = before ∧ v.addr = a := by
  obtain ⟨rest, e⟩ := pre
  rw [List.append_assoc, List.singleton_append] at e
  obtain ⟨xs, zs, rfl, ex, ez⟩ := List.map_eq_append_iff.mp e.symm
  obtain ⟨⟨k, v⟩, ys, rfl, ec, -⟩ := List.map_eq_cons_iff.mp ez
  cases ec
  exact ⟨xs, v, ys, rfl, ex, rfl⟩

/-- What a pointer to the rest of the list makes of the reader: at its first cell, or at the end. -/
lemma Placed.ofPtr (xs ys : List (Loc × Node)) :
    Placed (skeleton xs) (skeleton (xs ++ ys)) (.ofPtr (ys.head?.map Prod.fst)) ∧
      (Cursor.ofPtr (ys.head?.map Prod.fst) = .ended → ys = []) := by
  cases ys with
  | nil => exact ⟨trivial, fun _ => rfl⟩
  | cons y ys =>
    refine ⟨⟨y.2.addr, skeleton ys, ?_⟩, fun e => by cases e⟩
    rw [skeleton_append]
    simp [skeleton]

section
variable {w : Walk} {r : Loc × Node} {cs : List (Loc × Node)}

/-- A call of the reader answers a pointer to what is behind the visited cells. -/
lemma WalkInv.receive (inv : WalkInv w r cs) (xs ys) (e : cs = xs ++ ys)
    (vis : skeleton w.visited = skeleton xs) :
    WalkInv { w with cursor := .ofPtr (ys.head?.map Prod.fst) } r cs ∧
      (Cursor.ofPtr (ys.head?.map Prod.fst) = .ended → skeleton w.visited = skeleton cs) := by
  obtain ⟨pl, ended⟩ := Placed.ofPtr xs ys
  refine ⟨⟨inv.rep, ?_, inv.out⟩, fun last => ?_⟩
  · show Placed (skeleton w.visited) (skeleton cs) _
    rw [vis, e]
    exact pl
  · rw [vis, e, ended last, List.append_nil]

/-- A step goes through and keeps the invariant, and the list at most grows. A reader that receives
    `NULL` has visited it. -/
lemma WalkInv.step {e} (inv : WalkInv w r cs) (ok : WalkOk w e) :
    ∃ w' r' cs', walkStep w e = some w' ∧ WalkInv w' r' cs' ∧
      skeleton (r :: cs) <+: skeleton (r' :: cs') ∧
      (w.cursor ≠ .ended → w'.cursor = .ended → skeleton w'.visited = skeleton cs') := by
  obtain ⟨net, cursor, visited, out⟩ := w
  cases e with
  | op o =>
    obtain ⟨s', r', cs', st, rep', grown⟩ := inv.rep.op ok
    refine ⟨⟨s', cursor, visited, out⟩, r', cs', ?_, ⟨rep', ?_, inv.out⟩, grown, fun ne e => ?_⟩
    · rw [walkStep, st]
      rfl
    · exact inv.placed.mono (List.cons_prefix_cons.mp grown).2
    · exact absurd e ne
  | myStart =>
    cases ok
    have none_ : skeleton visited = [] := inv.placed
    obtain ⟨inv', ended⟩ := inv.receive [] cs rfl none_
    refine ⟨_, r, cs, ?_, inv', List.prefix_rfl, fun _ => ended⟩
    simp only [walkStep, inv.rep.myStart, Option.map_some]
  | myShow =>
    obtain ⟨l, ok⟩ := ok
    cases ok
    obtain ⟨a, pre⟩ := inv.placed
    obtain ⟨xs, v, ys, rfl, ex, rfl⟩ := cell_of_skeleton pre
    have g : net.heap.get l = some v := inv.rep.chain.get (by simp)
    refine ⟨⟨net, .shown l, visited ++ [(l, v)], out ++ v.record⟩, r, _, ?_, ⟨inv.rep, ?_, ?_⟩,
      List.prefix_rfl, fun _ e => by cases e⟩
    · simp only [walkStep, myShow, Net.load_eq, g, Option.bind_eq_bind, Option.bind_some]
    · have snoc : skeleton (visited ++ [(l, v)]) = skeleton visited ++ [(l, v.addr)] :=
        skeleton_append
      exact ⟨skeleton visited, v.addr, snoc, snoc ▸ pre⟩
    · have printed : out = (visited.map (·.2.record)).flatten := inv.out
      rw [printed, List.map_append, List.flatten_append]
      simp
  | myNext =>
    obtain ⟨l, ok⟩ := ok
    cases ok
    obtain ⟨before, a, vis, pre⟩ := inv.placed
    rw [vis] at pre
    obtain ⟨xs, v, ys, rfl, ex, rfl⟩ := cell_of_skeleton pre
    have g : net.heap.get l = some v := inv.rep.chain.get (by simp)
    have chain : Chain Node.next net.heap net.root ((r :: xs) ++ (l, v) :: ys) := inv.rep.chain
    have here : skeleton visited = skeleton (xs ++ [(l, v)]) := by
      rw [vis, ← ex, skeleton_append]
      rfl
    obtain ⟨inv', ended⟩ := inv.receive (xs ++ [(l, v)]) ys (by simp) here
    refine ⟨_, r, _, ?_, inv', List.prefix_rfl, fun _ => ended⟩
    simp only [walkStep, myNext, Net.load_eq, g, Option.bind_eq_bind, Option.bind_some,
      Option.map_some, chain.next_eq]

/-- The invariant holds along every traversal, whatever is counted meanwhile. -/
lemma WalkInv.run {es} (inv : WalkInv w r cs) (ad : Admits WalkOk walkStep w es) :
    ∃ w' r' cs', run walkStep w es = some w' ∧ WalkInv w' r' cs' ∧
      skeleton (r :: cs) <+: skeleton (r' :: cs') := by
  let P : Walk → Prop := fun w' =>
    ∃ r' cs', WalkInv w' r' cs' ∧ skeleton (r :: cs) <+: skeleton (r' :: cs')
  have next : ∀ {w1 e}, P w1 → WalkOk w1 e → ∃ w2, walkStep w1 e = some w2 ∧ P w2 := by
    rintro w1 e ⟨r1, cs1, inv1, grown1⟩ ok
    obtain ⟨w2, r2, cs2, st, inv2, grown2, -⟩ := inv1.step ok
    exact ⟨w2, st, r2, cs2, inv2, grown1.trans grown2⟩
  obtain ⟨w', go, r', cs', inv', grown⟩ := ad.run_keeps (P := P) next ⟨r, cs, inv, List.prefix_rfl⟩
  exact ⟨w', r', cs', go, inv', grown⟩

end

/-- Every interleaving goes through; and at the step at which the reader receives `NULL` it has
    visited the list behind the root as it is then, in order and without repetition, and has printed
    these nodes. Each source that was in the list at its `my_start` is among them once. -/
theorem visited_of_traversal (l : Loc) (junk : Node) (ok : Bool) :
    ∃ m, run InitOp.exec .boot (initPacket l junk ok) = some m ∧
      ∀ es e, Admits WalkOk walkStep (.init m.net) (es ++ [e]) →
        ∃ w w', run walkStep (.init m.net) es = some w ∧ walkStep w e = some w' ∧
          (w.cursor ≠ .ended → w'.cursor = .ended →
            ∃ r cs, Chain Node.next w'.net.heap w'.net.root (r :: cs) ∧
              w'.visited.map Prod.fst = cs.map Prod.fst ∧ (w'.visited.map Prod.fst).Nodup ∧
              w'.visited.map (·.2.addr) = cs.map (·.2.addr) ∧
              w'.out = (w'.visited.map (·.2.record)).flatten ∧
              ∀ pre post w0 r0 cs0, es ++ [e] = pre ++ .myStart :: post →
                run walkStep (.init m.net) pre = some w0 →
                Chain Node.next w0.net.heap w0.net.root (r0 :: cs0) →
                ∀ c ∈ cs0, (w'.visited.map (·.2.addr)).count c.2.addr = 1) := by
  obtain ⟨m, r, init, rep⟩ := Rep.initPacket l junk ok
  refine ⟨m, init, fun es e ad => ?_⟩
  have base : WalkInv (.init m.net) r [] := ⟨rep, rfl, rfl⟩
  obtain ⟨w, r1, cs1, go, inv1, -⟩ := base.run ad.of_append
  obtain ⟨w', r', cs, st, inv, -, ended⟩ := inv1.step (ad.rest go).1
  refine ⟨w, w', go, st, fun before after => ?_⟩
  have all := ended before after
  have locs : w'.visited.map Prod.fst = cs.map Prod.fst := by
    simpa [skeleton, Function.comp_def] using congrArg (List.map Prod.fst) all
  have addrs : w'.visited.map (·.2.addr) = cs.map (·.2.addr) := by
    simpa [skeleton, Function.comp_def] using congrArg (List.map Prod.snd) all
  refine ⟨r', cs, inv.rep.chain, locs, ?_, addrs, inv.out, ?_⟩
  · rw [locs]
    exact (List.nodup_cons.mp inv.rep.chain.nodup).2
  · intro pre post w0 r0 cs0 split go0 chain0 c mem
    rw [split] at ad
    obtain ⟨w1, r2, cs2, go1, inv2, -⟩ := base.run ad.of_append
    cases go0.symm.trans go1
    obtain ⟨-, rfl⟩ := List.cons.inj (chain0.unique inv2.rep.chain)
    -- the list has only grown since then
    obtain ⟨w3, r3, cs3, go3, inv3, grown⟩ := inv2.run (ad.rest go0)
    have whole : run walkStep (.init m.net) (es ++ [e]) = some w' := run_snoc.mpr ⟨w, go, st⟩
    rw [split, run_append, go0, Option.bind_some, go3] at whole
    cases whole
    obtain ⟨-, rfl⟩ := List.cons.inj (inv3.rep.chain.unique inv.rep.chain)
    have there : c.2.addr ∈ cs3.map (·.2.addr) := by
      have mem' : (c.1, c.2.addr) ∈ skeleton cs0 := List.mem_map_of_mem mem
      obtain ⟨d, md, ed⟩ := List.mem_map.mp ((List.cons_prefix_cons.mp grown).2.subset mem')
      exact List.mem_map.mpr ⟨d, md, congrArg Prod.snd ed⟩
    rw [addrs]
    exact List.count_eq_one_of_mem (List.nodup_cons.mp inv.rep.distinct).2 there

/-- A traversal of a list of one source, to which a second one is appended while the reader is at
    the first. -/
def growingWalk : List WalkEvent :=
  [.op (.add "10.0.0.1".toList 100 1 ⟨[], 7, 7, none⟩), .myStart, .myShow,
    .op (.add "10.0.0.2".toList 50 2 ⟨[], 0, 0, none⟩), .op (.clear 1), .myNext, .myShow]

/-- A source that is appended while the reader is at the first one is visited too. -/
theorem visited_of_growingWalk :
    ∃ m, run InitOp.exec .boot (initPacket 0 ⟨[], 0, 0, none⟩ true) = some m ∧
      Admits WalkOk walkStep (.init m.net) (growingWalk ++ [.myNext]) ∧
      ∃ w w', run walkStep (.init m.net) growingWalk = some w ∧ walkStep w .myNext = some w' ∧
        w'.cursor = .ended ∧ ∃ r cs, Chain Node.next w'.net.heap w'.net.root (r :: cs) ∧
          w'.visited.map Prod.fst = cs.map Prod.fst ∧ (w'.visited.map Prod.fst).Nodup := by
  obtain ⟨m, init, all⟩ := visited_of_traversal 0 ⟨[], 0, 0, none⟩ true
  have ad : Admits WalkOk walkStep (.init m.net) (growingWalk ++ [.myNext]) := by
    cases init
    refine ⟨⟨by decide, rfl⟩, fun w1 st1 => ?_⟩
    cases st1
    refine ⟨rfl, fun w2 st2 => ?_⟩
    cases st2
    refine ⟨⟨1, rfl⟩, fun w3 st3 => ?_⟩
    cases st3
    refine ⟨⟨by decide, rfl⟩, fun w4 st4 => ?_⟩
    cases st4
    refine ⟨trivial, fun w5 st5 => ?_⟩
    cases st5
    refine ⟨⟨1, rfl⟩, fun w6 st6 => ?_⟩
    cases st6
    refine ⟨⟨2, rfl⟩, fun w7 st7 => ?_⟩
    cases st7
    exact ⟨⟨2, rfl⟩, fun _ _ => trivial⟩
  obtain ⟨w, w', go, st, ended⟩ := all growingWalk .myNext ad
  refine ⟨m, init, ad, w, w', go, st, ?_⟩
  have whole := run_snoc.mpr ⟨w, go, st⟩
  have before : w.cursor = .shown 2 := by
    cases init
    exact congrArg Walk.cursor (Option.some.inj go).symm
  have after : w'.cursor = .ended := by
    cases init
    exact congrArg Walk.cursor (Option.some.inj whole).symm
  obtain ⟨r, cs, chain, same, once, -⟩ := ended (before ▸ by decide) after
  exact ⟨after, r, cs, chain, same, once⟩

end KernelModules.Packet
